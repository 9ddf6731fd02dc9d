import Anon.Pipe

/-!
# What gets from a stream buffer into a pipe

`sgetc` leaves the read position where it is, so `sputbackc` steps back from there. A round of the
outer loop that does not start at the start of the buffer writes its first character twice.

* `writeAvailable_spec`, `insertLoop_round`: the two loops. Every round makes progress.
* `insertStreambuf_spec`: the copy ends, and nothing is lost.
* `writesRest_iff`: the stream buffers that are copied as they are.
-/

namespace Anon.Pipe

variable {sb : StringBuf UInt8} {s : Insertion} {fuel : ℕ}

/-- The copy ends, and it writes the characters from the read position to the end, each once and in
order. -/
def WritesRest (sb : StringBuf UInt8) : Prop :=
  ∃ enough, ∀ fuel ≥ enough,
    (insertStreambuf fuel sb).map Insertion.written = some sb.rest

/-- The characters that reads of `sz` characters take until `n` are used up. -/
def wholeReads (n : ℕ) : ℕ := (n + sz - 1) / sz * sz

/-- Nothing is left to read, or the first round starts at the start and reaches the end. It goes on
until it has read what is in the get area, in whole reads; a get area that is empty is extended to
the end before that. -/
def InOneRound (sb : StringBuf UInt8) : Prop :=
  sb.rest = [] ∨
    sb.gptr = 0 ∧ (sb.egptr = 0 ∨ sb.contents.length ≤ wholeReads sb.egptr)

/-- What a round writes first: the character that has been put in front of itself. -/
def again (sb : StringBuf UInt8) : Bytes := if sb.gptr = 0 then [] else sb.rest.head?.toList

/-- What the condition of the inner loop starts with. -/
def available (sb : StringBuf UInt8) : ℕ :=
  (again sb).length + (sb.sgetc.2.egptr - sb.gptr)

/-! ## The inner loop -/

theorem wholeReads_zero : wholeReads 0 = 0 := by
  unfold wholeReads sz
  omega

theorem le_wholeReads (n : ℕ) : n ≤ wholeReads n := by
  unfold wholeReads sz
  omega

/-- One read, and then the reads for what it has left. -/
theorem wholeReads_read {avail : ℤ} {len : ℕ} (hpos : avail > 0) (hlen : avail ≤ len) :
    wholeReads avail.toNat = sz + wholeReads (avail - min sz len).toNat := by
  unfold wholeReads sz
  omega

/-- The body of the inner loop writes the next characters. -/
theorem written_sgetn (s : Insertion) :
    (s.sgetn.write (s.sb.sgetn sz).1.length).written = s.written ++ s.sb.rest.take sz := by
  show s.written ++ ((s.sb.sgetn sz).1 ++ s.buf.drop _).take _ = _
  rw [List.take_left, StringBuf.sgetn_fst]

/-- The inner loop reads as often as it takes to use up what was available. -/
theorem writeAvailable_spec {avail : ℤ} (havail : avail ≤ s.sb.rest.length)
    (hfuel : avail.toNat < fuel) :
    ∃ s', writeAvailable fuel avail s = some s' ∧
      s.sb.Moved (wholeReads avail.toNat) s'.sb ∧
      s'.written = s.written ++ s.sb.rest.take (wholeReads avail.toNat) := by
  induction fuel generalizing avail s with
  | zero => exact absurd hfuel (Nat.not_lt_zero _)
  | succ fuel ih =>
    rw [writeAvailable]
    split
    · next hpos =>
      let s₁ : Insertion := s.sgetn.write (s.sb.sgetn sz).1.length
      have hread : (s.sb.sgetn sz).1.length = min sz s.sb.rest.length := by
        rw [StringBuf.sgetn_fst, List.length_take]
      have hmoved : s.sb.Moved sz s₁.sb := s.sb.sgetn_moved sz
      have hlen : s₁.sb.rest.length = s.sb.rest.length - sz := by
        rw [hmoved.rest, List.length_drop]
      -- every read gets a character, so less is left to use up
      have hsz : 0 < sz := by decide
      obtain ⟨s', hrun, hmoved', hwritten⟩ := ih (s := s₁)
        (show avail - (s.sb.sgetn sz).1.length ≤ s₁.sb.rest.length by omega) (by omega)
      rw [hread] at hmoved' hwritten
      refine ⟨s', hrun, ?_, ?_⟩
      · rw [wholeReads_read hpos havail]
        exact hmoved.trans hmoved'
      · rw [hwritten, written_sgetn, wholeReads_read hpos havail, List.take_add, hmoved.rest,
          List.append_assoc]
    · next hdone =>
      rw [Int.toNat_of_nonpos (not_lt.mp hdone), wholeReads_zero, List.take_zero, List.append_nil]
      exact ⟨s, rfl, .refl s.sb, rfl⟩

/-! ## A round of the outer loop -/

/-- The stream buffer that the inner loop starts with. -/
def putBack (sb : StringBuf UInt8) (c : UInt8) : StringBuf UInt8 := (sb.sgetc.2.sputbackc c).2

theorem putBack_rest {c : UInt8} (hc : sb.rest.head? = some c) :
    (putBack sb c).rest = again sb ++ sb.rest := by
  unfold putBack again
  split
  · next hstart =>
    rw [StringBuf.sputbackc_start c (sb.sgetc_gptr.trans hstart), sb.sgetc_rest, List.nil_append]
  · next hstart =>
    have hgptr : sb.sgetc.2.gptr ≠ 0 := fun h => hstart (sb.sgetc_gptr.symm.trans h)
    rw [StringBuf.sputbackc_snd c hgptr, StringBuf.rest_assignBack c hgptr, sb.sgetc_rest, hc]
    rfl

theorem putBack_inAvail {c : UInt8} (hc : sb.rest.head? = some c) :
    (putBack sb c).inAvail = available sb := by
  have hrest : sb.rest ≠ [] := fun h => by simp [h] at hc
  have hlt := StringBuf.sgetc_available hrest
  have hgptr := sb.sgetc_gptr
  unfold putBack available again
  by_cases hstart : sb.gptr = 0
  · rw [StringBuf.sputbackc_start c (hgptr.trans hstart), if_pos hstart, StringBuf.inAvail,
      if_pos (by omega), List.length_nil]
    omega
  · rw [StringBuf.sputbackc_snd c (fun h => hstart (hgptr.symm.trans h)), if_neg hstart, hc]
    show (if sb.sgetc.2.gptr - 1 < sb.sgetc.2.egptr then
      (sb.sgetc.2.egptr : ℤ) - (sb.sgetc.2.gptr - 1 : ℕ) else 0) =
        (1 + (sb.sgetc.2.egptr - sb.gptr) : ℕ)
    rw [if_pos (by omega)]
    omega

/-- How much of the rest a round writes after that. -/
def roundLength (sb : StringBuf UInt8) : ℕ := wholeReads (available sb) - (again sb).length

theorem roundLength_pos (hrest : sb.rest ≠ []) : 0 < roundLength sb := by
  have hlt := StringBuf.sgetc_available hrest
  have hle := le_wholeReads (available sb)
  unfold available at hle
  unfold roundLength available
  omega

theorem available_le (sb : StringBuf UInt8) : available sb ≤ (again sb ++ sb.rest).length := by
  have hegptr := sb.sgetc.2.egptr_le
  rw [sb.sgetc_contents] at hegptr
  rw [List.length_append, sb.length_rest]
  unfold available
  omega

/-- A round writes the character that it has put back, and then what comes next. -/
theorem insertLoop_round (hrest : s.sb.rest ≠ []) (hfuel : s.sb.rest.length + 1 < fuel) :
    ∃ s', insertLoop (fuel + 1) s = insertLoop fuel s' ∧
      s'.written = s.written ++ (again s.sb ++ s.sb.rest.take (roundLength s.sb)) ∧
      s'.sb.rest = s.sb.rest.drop (roundLength s.sb) ∧ s'.sb.gptr ≠ 0 := by
  obtain ⟨c, hc⟩ := Option.isSome_iff_exists.mp (List.isSome_head?.mpr hrest)
  have hle := available_le s.sb
  have hagain : (again s.sb).length ≤ 1 := by
    unfold again
    split
    · exact Nat.zero_le 1
    · rw [hc]
      rfl
  let s₁ : Insertion := { s with sb := putBack s.sb c }
  have hback : s₁.sb.rest = again s.sb ++ s.sb.rest := putBack_rest hc
  have havail : ((available s.sb : ℕ) : ℤ) ≤ s₁.sb.rest.length := by
    rw [hback]
    exact Int.ofNat_le.mpr hle
  have henough : ((available s.sb : ℕ) : ℤ).toNat < fuel := by
    rw [List.length_append] at hle
    omega
  obtain ⟨s', hrun, hmoved, hwritten⟩ := writeAvailable_spec havail henough
  rw [Int.toNat_natCast] at hmoved hwritten
  have hreads : wholeReads (available s.sb) = (again s.sb).length + roundLength s.sb := by
    have hpos := roundLength_pos hrest
    unfold roundLength at hpos ⊢
    omega
  rw [hreads] at hmoved hwritten
  refine ⟨s', ?_, ?_, ?_, ?_⟩
  · rw [insertLoop, StringBuf.sgetc_fst, hc]
    show (writeAvailable fuel (putBack s.sb c).inAvail s₁).bind (insertLoop fuel) = _
    rw [putBack_inAvail hc, hrun]
    rfl
  · rw [hwritten, hback, List.take_length_add_append]
  · rw [hmoved.rest, hback, List.drop_length_add_append]
  · have hgptr := hmoved.gptr
    have hpos := roundLength_pos hrest
    rw [hback, List.length_append] at hgptr
    have hlen := List.length_pos_iff.mpr hrest
    omega

/-! ## The whole copy -/

theorem again_eq_nil_iff : again sb = [] ↔ sb.gptr = 0 ∨ sb.rest = [] := by
  unfold again
  split
  · next hstart => exact ⟨fun _ => .inl hstart, fun _ => rfl⟩
  · next hstart =>
    rw [Option.toList_eq_nil_iff, List.head?_eq_none_iff]
    exact ⟨.inr, fun h => h.resolve_left hstart⟩

theorem insertLoop_of_nil (hrest : s.sb.rest = []) :
    insertLoop (fuel + 1) s = some { s with sb := s.sb.sgetc.2 } := by
  rw [insertLoop, StringBuf.sgetc_fst, hrest]
  rfl

/-- The outer loop ends, and nothing of the rest is lost. -/
theorem insertLoop_spec (hfuel : s.sb.rest.length + 2 < fuel) :
    ∃ s' copy, insertLoop fuel s = some s' ∧ s'.written = s.written ++ copy ∧
      (again s.sb ++ s.sb.rest).Sublist copy := by
  induction fuel generalizing s with
  | zero => exact absurd hfuel (Nat.not_lt_zero _)
  | succ fuel ih =>
    by_cases hrest : s.sb.rest = []
    · have hagain : again s.sb = [] := again_eq_nil_iff.mpr (.inr hrest)
      refine ⟨{ s with sb := s.sb.sgetc.2 }, [], insertLoop_of_nil hrest, ?_, ?_⟩
      · exact (List.append_nil _).symm
      · rw [hagain, hrest]
        exact .slnil
    · have hround_fuel : s.sb.rest.length + 1 < fuel := by omega
      obtain ⟨s₁, hround, hwritten, hrest₁, -⟩ := insertLoop_round hrest hround_fuel
      have hpos := roundLength_pos hrest
      have hleft := List.length_pos_iff.mpr hrest
      have hlen : s₁.sb.rest.length = s.sb.rest.length - roundLength s.sb := by
        rw [hrest₁, List.length_drop]
      obtain ⟨s', copy, hrun, hwritten', hcopy⟩ := ih (s := s₁) (by omega)
      refine ⟨s', again s.sb ++ s.sb.rest.take (roundLength s.sb) ++ copy,
        hround.trans hrun, ?_, ?_⟩
      · rw [hwritten', hwritten, List.append_assoc]
      · have hlater : (s.sb.rest.drop (roundLength s.sb)).Sublist copy := by
          rw [← hrest₁]
          exact (List.sublist_append_right _ _).trans hcopy
        have hwhole := hlater.append_left (again s.sb ++ s.sb.rest.take (roundLength s.sb))
        rw [List.append_assoc, List.take_append_drop] at hwhole
        exact hwhole

/-- The copy ends, for every stream buffer, and nothing is lost. -/
theorem insertStreambuf_spec (hfuel : sb.rest.length + 2 < fuel) :
    ∃ s', insertStreambuf fuel sb = some s' ∧ (again sb ++ sb.rest).Sublist s'.written := by
  obtain ⟨s', copy, hrun, hwritten, hcopy⟩ :=
    insertLoop_spec (s := ⟨sb, List.replicate sz 0, []⟩) hfuel
  refine ⟨s', hrun, ?_⟩
  rw [hwritten]
  exact hcopy

theorem rest_le_roundLength_iff (hstart : sb.gptr = 0) : sb.rest.length ≤ roundLength sb ↔
    sb.egptr = 0 ∨ sb.contents.length ≤ wholeReads sb.egptr := by
  have hegptr := sb.sgetc_egptr
  have hle := le_wholeReads sb.contents.length
  rw [sb.length_rest, hstart]
  unfold roundLength available
  rw [again_eq_nil_iff.mpr (.inl hstart), hegptr, hstart, List.length_nil]
  split
  · next hlt =>
    rw [Nat.zero_add, Nat.sub_zero, Nat.sub_zero, Nat.sub_zero]
    exact ⟨.inr, fun h => h.resolve_left (Nat.ne_of_gt hlt)⟩
  · next hlt =>
    rw [Nat.zero_add, Nat.sub_zero, Nat.sub_zero]
    exact ⟨fun _ => .inl (Nat.eq_zero_of_not_pos hlt), fun _ => hle⟩

/-- The first round, and what is left after it. -/
theorem insertStreambuf_round (hrest : sb.rest ≠ []) (hfuel : sb.rest.length + 1 < fuel) :
    ∃ s₁, insertStreambuf (fuel + 1) sb = insertLoop fuel s₁ ∧
      s₁.written = again sb ++ sb.rest.take (roundLength sb) ∧
      s₁.sb.rest = sb.rest.drop (roundLength sb) ∧ s₁.sb.gptr ≠ 0 :=
  insertLoop_round (s := ⟨sb, List.replicate sz 0, []⟩) hrest hfuel

/-- A round that starts behind the start writes a character again, and a second round does. -/
theorem one_round_of_written (hrest : sb.rest ≠ []) (hfuel : sb.rest.length + 2 < fuel)
    (hcopy : (insertStreambuf (fuel + 1) sb).map Insertion.written = some sb.rest) :
    sb.gptr = 0 ∧ sb.rest.length ≤ roundLength sb := by
  obtain ⟨s₁, hround, hwritten₁, hrest₁, hgptr₁⟩ :=
    insertStreambuf_round hrest (Nat.lt_of_succ_lt hfuel)
  have hfuel₁ : s₁.sb.rest.length + 2 < fuel := by
    rw [hrest₁, List.length_drop]
    omega
  obtain ⟨s', copy, hrun, hwritten, hlater⟩ := insertLoop_spec hfuel₁
  rw [hround, hrun, Option.map_some, Option.some.injEq, hwritten, hwritten₁] at hcopy
  -- what is written is no longer than the rest, so neither round wrote a character again
  have hsum := congrArg List.length hcopy
  have hle := hlater.length_le
  rw [List.length_append, List.length_append, List.length_take] at hsum
  rw [List.length_append, hrest₁, List.length_drop] at hle
  have hfirst : again sb = [] := List.eq_nil_of_length_eq_zero (by omega)
  have hsecond : again s₁.sb = [] := List.eq_nil_of_length_eq_zero (by omega)
  have hend : s₁.sb.rest = [] := (again_eq_nil_iff.mp hsecond).resolve_left hgptr₁
  rw [hrest₁, List.drop_eq_nil_iff] at hend
  exact ⟨(again_eq_nil_iff.mp hfirst).resolve_right hrest, hend⟩

/-- What is written when the first round reaches the end. -/
theorem written_of_one_round (hrest : sb.rest ≠ []) (hfuel : sb.rest.length + 2 < fuel)
    (hend : sb.rest.length ≤ roundLength sb) :
    (insertStreambuf (fuel + 1) sb).map Insertion.written = some (again sb ++ sb.rest) := by
  obtain ⟨s₁, hround, hwritten₁, hrest₁, -⟩ :=
    insertStreambuf_round hrest (Nat.lt_of_succ_lt hfuel)
  rw [List.drop_eq_nil_of_le hend] at hrest₁
  rw [List.take_of_length_le hend] at hwritten₁
  obtain ⟨n, rfl⟩ := Nat.exists_eq_succ_of_ne_zero (Nat.ne_zero_of_lt hfuel)
  rw [hround, insertLoop_of_nil hrest₁, ← hwritten₁]
  rfl

/-- The stream buffers of which exactly the rest is written. -/
theorem writesRest_iff (sb : StringBuf UInt8) : WritesRest sb ↔ InOneRound sb := by
  by_cases hrest : sb.rest = []
  · refine ⟨fun _ => .inl hrest, fun _ => ⟨1, fun fuel hfuel => ?_⟩⟩
    obtain ⟨n, rfl⟩ := Nat.exists_eq_add_of_le' hfuel
    rw [insertStreambuf, insertLoop_of_nil hrest, hrest]
    rfl
  · constructor
    · intro ⟨enough, hwrites⟩
      have hcopy := hwrites (max enough (sb.rest.length + 3) + 1) (by omega)
      obtain ⟨hstart, hend⟩ := one_round_of_written hrest (by omega) hcopy
      exact .inr ⟨hstart, (rest_le_roundLength_iff hstart).mp hend⟩
    · intro hone
      obtain ⟨hstart, hreach⟩ := hone.resolve_left hrest
      refine ⟨sb.rest.length + 4, fun fuel hfuel => ?_⟩
      obtain ⟨n, rfl⟩ := Nat.exists_eq_add_of_le' hfuel
      have hend := (rest_le_roundLength_iff hstart).mpr hreach
      have henough : sb.rest.length + 2 < n + sb.rest.length + 3 := by omega
      have hcopy := written_of_one_round hrest henough hend
      rw [again_eq_nil_iff.mpr (.inl hstart), List.nil_append] at hcopy
      exact hcopy

/-- One of two characters has been read. -/
def secondOfTwo : StringBuf UInt8 := (StringBuf.ofContents [97, 98]).sbumpc.2

/-- The other one is written twice. -/
theorem not_writesRest : (insertStreambuf 5 secondOfTwo).map Insertion.written = some [98, 98] ∧
    secondOfTwo.rest = [98] ∧ ¬WritesRest secondOfTwo := by
  refine ⟨by decide +kernel, by decide +kernel, ?_⟩
  intro ⟨enough, hwrites⟩
  have hfuel : secondOfTwo.rest.length + 2 < max enough 4 := lt_max_of_lt_right (by decide +kernel)
  obtain ⟨s', hrun, hcopy⟩ := insertStreambuf_spec hfuel
  have hwhole := hwrites (max enough 4) (le_max_left enough 4)
  rw [hrun, Option.map_some, Option.some.injEq] at hwhole
  rw [hwhole] at hcopy
  have htwice : secondOfTwo.rest.length < (again secondOfTwo ++ secondOfTwo.rest).length := by
    decide +kernel
  exact absurd hcopy.length_le (not_le.mpr htwice)

end Anon.Pipe
