import Anon.Mcdc.Reply

/-!
# When the replies of memcached are read safely

* `ReadsBehind`: a read begins where an `int` can no longer count.
* `readLoop_spec`: what a loop reads, in any chunks.
* `readReply_spec`: the whole reply, or why it is not read.
* `replies_safe_iff`: when the callbacks throw or accept as they should.
-/

namespace Anon.Mcdc

variable {size total pos n : ℕ} {chunks rest : List Bytes} {reply bytes : Bytes}

/-! ## The loop -/

/-- Of `total` bytes, of which `pos` were read, a read begins at the byte 2^31 or behind it. -/
def ReadsBehind (total pos : ℕ) (chunks : List Bytes) : Prop :=
  ∃ k ≤ chunks.length, 2 ^ 31 ≤ pos + (chunks.take k).flatten.length ∧
    pos + (chunks.take k).flatten.length < total

instance (total pos : ℕ) (chunks : List Bytes) : Decidable (ReadsBehind total pos chunks) :=
  decidable_of_iff (∃ k ∈ List.range (chunks.length + 1),
    2 ^ 31 ≤ pos + (chunks.take k).flatten.length ∧
      pos + (chunks.take k).flatten.length < total) (by
    simp only [ReadsBehind, List.mem_range, Nat.lt_succ_iff])

/-- Nothing is left to read. -/
theorem not_readsBehind (h : total ≤ pos) : ¬ReadsBehind total pos chunks := by
  rintro ⟨k, -, -, hlt⟩
  omega

theorem readsBehind_of_le (hlow : 2 ^ 31 ≤ pos) (hlt : pos < total) :
    ReadsBehind total pos chunks :=
  ⟨0, Nat.zero_le _, by simpa using hlow, by simpa using hlt⟩

/-- A chunk, and the ones behind it. -/
theorem readsBehind_cons {c : Bytes} (hpos : pos < 2 ^ 31) :
    ReadsBehind total pos (c :: chunks) ↔ ReadsBehind total (pos + c.length) chunks := by
  constructor
  · rintro ⟨k, hk, hlow, hlt⟩
    match k with
    | 0 => simp at hlow; omega
    | k + 1 =>
      rw [List.take_succ_cons, List.flatten_cons, List.length_append, ← Nat.add_assoc] at hlow hlt
      exact ⟨k, Nat.le_of_succ_le_succ hk, hlow, hlt⟩
  · rintro ⟨k, hk, hlow, hlt⟩
    refine ⟨k + 1, Nat.succ_le_succ hk, ?_⟩
    rw [List.take_succ_cons, List.flatten_cons, List.length_append, ← Nat.add_assoc]
    exact ⟨hlow, hlt⟩

/-- A read does not change where the later ones may begin, unless it ends inside a chunk. -/
theorem readsBehind_read (h : read chunks n = some (bytes, rest)) (hpos : pos < 2 ^ 31)
    (hend : pos + n < 2 ^ 31 ∨ total ≤ pos + n) :
    ReadsBehind total pos chunks ↔ ReadsBehind total (pos + bytes.length) rest := by
  induction chunks with
  | nil => exact absurd h (by simp [read])
  | cons c chunks ih =>
    rw [read] at h
    rw [readsBehind_cons hpos]
    split at h
    · next hnil => rw [hnil, List.length_nil, Nat.add_zero, ih h]
    · split at h
      · obtain ⟨rfl, rfl⟩ := Prod.mk.inj (Option.some.inj h)
        exact Iff.rfl
      -- the rest of the chunk stays
      · next hlt =>
        obtain ⟨rfl, rfl⟩ := Prod.mk.inj (Option.some.inj h)
        have hlen : (c.take n).length = n := by
          rw [List.length_take]
          omega
        have hdrop : pos + n + (c.drop n).length = pos + c.length := by
          rw [List.length_drop]
          omega
        rw [hlen]
        obtain hlow | hle := hend
        · rw [readsBehind_cons hlow, hdrop]
        · have hnone : ¬ReadsBehind total (pos + c.length) chunks := not_readsBehind (by omega)
          exact iff_of_false hnone (not_readsBehind hle)

/-- `bytes_read`, as an `int` and as the unsigned number that it is compared as. -/
theorem bmod_bounds (hpos : pos < 2 ^ 32) : (Int.bmod pos (2 ^ 32) % 2 ^ 32).toNat = pos ∧
    (pos < 2 ^ 31 → Int.bmod pos (2 ^ 32) = pos) ∧ (2 ^ 31 ≤ pos → Int.bmod pos (2 ^ 32) < 0) := by
  have hemod : Int.bmod pos (2 ^ 32) % 2 ^ 32 = (pos : ℤ) % 2 ^ 32 := Int.bmod_emod
  refine ⟨by omega, fun hlow => ?_, fun hhigh => ?_⟩
  · rw [Int.bmod_def]
    split
    · omega
    · omega
  · rw [Int.bmod_def]
    split
    · omega
    · omega

theorem flatten_of_read_eq_none (h : read chunks n = none) : chunks.flatten = [] := by
  induction chunks with
  | nil => rfl
  | cons c chunks ih =>
    rw [read] at h
    split at h
    · next hnil => rw [List.flatten_cons, hnil, ih h, List.append_nil]
    · split at h
      · exact absurd h (by simp)
      · exact absurd h (by simp)

/-- One iteration. -/
theorem readLoop_step (hsize : total ≤ size) (hlow : reply.length < 2 ^ 31)
    (hlt : reply.length < total) :
    (read chunks (total - reply.length) = none →
      readLoop size total reply (Int.bmod reply.length (2 ^ 32)) chunks =
        .error (.io (ascii "other end probably closed"))) ∧
    ∀ bytes rest, read chunks (total - reply.length) = some (bytes, rest) →
      readLoop size total reply (Int.bmod reply.length (2 ^ 32)) chunks =
        readLoop size total (reply ++ bytes) (Int.bmod (reply ++ bytes).length (2 ^ 32)) rest := by
  obtain ⟨hunsigned, hint, -⟩ := bmod_bounds (hlow.trans (by norm_num))
  have hbytes := hint hlow
  have hrange : ¬(Int.bmod reply.length (2 ^ 32) < 0 ∨
      (size : ℤ) < Int.bmod reply.length (2 ^ 32) + (total - reply.length : ℕ)) := by
    omega
  rw [readLoop, hunsigned, if_pos hlt, if_neg hrange]
  constructor
  · intro hread
    split
    · rfl
    · next hsome =>
      rw [hread] at hsome
      exact absurd hsome (by simp)
  · intro bytes rest hread
    split
    · next hnone =>
      rw [hread] at hnone
      exact absurd hnone (by simp)
    · next bytes' rest' hsome =>
      rw [hread] at hsome
      obtain ⟨rfl, rfl⟩ := Prod.mk.inj (Option.some.inj hsome)
      rw [Int.bmod_add_bmod, List.length_append, Nat.cast_add]

/-- What a loop does about the bytes that arrive. -/
structure Reads (size total : ℕ) (reply : Bytes) (chunks : List Bytes) : Prop where
  behind : ReadsBehind total reply.length chunks →
    readLoop size total reply (Int.bmod reply.length (2 ^ 32)) chunks = .error .outOfBounds
  short : ¬ReadsBehind total reply.length chunks → reply.length + chunks.flatten.length < total →
    ∃ what, readLoop size total reply (Int.bmod reply.length (2 ^ 32)) chunks = .error (.io what)
  whole : ¬ReadsBehind total reply.length chunks → total ≤ reply.length + chunks.flatten.length →
    ∃ rest, readLoop size total reply (Int.bmod reply.length (2 ^ 32)) chunks =
        .ok (reply ++ chunks.flatten.take (total - reply.length), Int.bmod total (2 ^ 32), rest) ∧
      rest.flatten = chunks.flatten.drop (total - reply.length) ∧
      (total < 2 ^ 31 → ∀ total',
        ReadsBehind total' total rest ↔ ReadsBehind total' reply.length chunks)

/-- Nothing arrives. -/
theorem reads_of_none (hsize : total ≤ size) (hlow : reply.length < 2 ^ 31)
    (hlt : reply.length < total) (hread : read chunks (total - reply.length) = none) :
    Reads size total reply chunks := by
  have hnil := flatten_of_read_eq_none hread
  have herror := (readLoop_step hsize hlow hlt).1 hread
  refine ⟨fun hbehind => ?_, fun _ _ => ⟨_, herror⟩, fun _ hwhole => ?_⟩
  · obtain ⟨k, -, hk, -⟩ := hbehind
    have hprefix : (chunks.take k).flatten.length ≤ chunks.flatten.length :=
      (List.take_prefix k chunks).flatten.length_le
    rw [hnil, List.length_nil] at hprefix
    omega
  · rw [hnil, List.length_nil] at hwhole
    omega

/-- Some bytes arrive, and the loop goes on. -/
theorem Reads.of_read (hsize : total ≤ size) (hlow : reply.length < 2 ^ 31)
    (hlt : reply.length < total) (hread : read chunks (total - reply.length) = some (bytes, rest))
    (h : Reads size total (reply ++ bytes) rest) : Reads size total reply chunks := by
  obtain ⟨hlen, -, hflatten⟩ := read_eq_some hread
  have hstep := (readLoop_step hsize hlow hlt).2 bytes rest hread
  have hsame : ReadsBehind total reply.length chunks ↔
      ReadsBehind total (reply ++ bytes).length rest := by
    rw [List.length_append]
    exact readsBehind_read hread hlow (.inr (by omega))
  have hrest : bytes ++ rest.flatten.take (total - (reply ++ bytes).length) =
      chunks.flatten.take (total - reply.length) := by
    rw [hflatten, List.take_append, List.take_of_length_le hlen, List.length_append,
      Nat.sub_add_eq]
  have hcount : reply.length + chunks.flatten.length =
      (reply ++ bytes).length + rest.flatten.length := by
    rw [hflatten, List.length_append, List.length_append]
    omega
  refine ⟨fun hbehind => ?_, fun hno hshort => ?_, fun hno hwhole => ?_⟩
  · rw [hstep]
    exact h.behind (hsame.mp hbehind)
  · rw [hstep]
    rw [hcount] at hshort
    exact h.short (fun hbehind => hno (hsame.mpr hbehind)) hshort
  · rw [hcount] at hwhole
    obtain ⟨rest', hok, hdrop, hlater⟩ :=
      h.whole (fun hbehind => hno (hsame.mpr hbehind)) hwhole
    refine ⟨rest', ?_, ?_, fun hmax total' => ?_⟩
    · rw [hstep, hok, List.append_assoc, hrest]
    · rw [hdrop, hflatten, List.drop_append, List.drop_of_length_le hlen, List.length_append,
        Nat.sub_add_eq, List.nil_append]
    · rw [hlater hmax total', readsBehind_read hread hlow (.inl (by omega)), List.length_append]

/-- By induction on what is still to arrive. -/
theorem readLoop_spec (hsize : total ≤ size) (hmax : total < 2 ^ 32) (hle : reply.length ≤ total) :
    Reads size total reply chunks := by
  induction hm : chunks.flatten.length using Nat.strongRecOn generalizing reply chunks with
  | ind m ih =>
    obtain ⟨hunsigned, -, hhigh⟩ := bmod_bounds (hle.trans_lt hmax)
    by_cases hmore : reply.length < total
    · by_cases hbehind : 2 ^ 31 ≤ reply.length
      -- the index is negative
      · have hreads : ReadsBehind total reply.length chunks := readsBehind_of_le hbehind hmore
        have herror : readLoop size total reply (Int.bmod reply.length (2 ^ 32)) chunks =
            .error .outOfBounds := by
          rw [readLoop, if_pos (by omega), if_pos (.inl (hhigh hbehind))]
        exact ⟨fun _ => herror, fun hno => absurd hreads hno, fun hno => absurd hreads hno⟩
      · have hlow := not_le.mp hbehind
        cases hread : read chunks (total - reply.length) with
        | none => exact reads_of_none hsize hlow hmore hread
        | some x =>
          obtain ⟨hlen, hpos, hflatten⟩ := read_eq_some hread
          apply Reads.of_read hsize hlow hmore hread
          have hshorter : x.2.flatten.length < m := by
            rw [hflatten, List.length_append] at hm
            have hpos := hpos (by omega)
            omega
          apply ih x.2.flatten.length hshorter _ rfl
          rw [List.length_append]
          omega
    -- everything is there
    · have htotal : reply.length = total := le_antisymm hle (not_lt.mp hmore)
      have hno : ¬ReadsBehind total reply.length chunks := not_readsBehind htotal.ge
      refine ⟨fun h => absurd h hno, fun _ hshort => absurd hshort (by omega), fun _ _ => ?_⟩
      refine ⟨chunks, ?_, ?_, fun _ total' => by rw [htotal]⟩
      · rw [readLoop, hunsigned, if_neg hmore, htotal, Nat.sub_self, List.take_zero,
          List.append_nil]
      · rw [htotal, Nat.sub_self, List.drop_zero]

/-! ## The reply -/

/-- The length of the body, which the header announces. -/
def bodySize (s : Bytes) : ℕ := (getBeUint32 s 8).getD 0

/-- The header and the body fit an unsigned length, and no read begins too far behind. -/
def Fits (chunks : List Bytes) : Prop :=
  24 + bodySize chunks.flatten < 2 ^ 32 ∧ ¬ReadsBehind (24 + bodySize chunks.flatten) 0 chunks

instance (chunks : List Bytes) : Decidable (Fits chunks) := inferInstanceAs (Decidable (_ ∧ _))

/-- A field in the first bytes. -/
theorem getBeUint32_take {s : Bytes} {i : ℕ} (hi : i + 4 ≤ n) :
    getBeUint32 (s.take n) i = getBeUint32 s i := by
  have h0 (j : ℕ) (hj : j < n) : (s.take n)[j]? = s[j]? := List.getElem?_take_of_lt hj
  simp only [getBeUint32, getBeUint16, h0 i (by omega), h0 (i + 1) (by omega),
    h0 (i + 2) (by omega), h0 (i + 2 + 1) (by omega)]

theorem getBeUint32_header {s : Bytes} (hs : 24 ≤ s.length) :
    getBeUint32 s 8 = some (bodySize s) := by
  have hread := isSome_getBeUint32 (i := 8) (by omega : 8 + 4 ≤ s.length)
  obtain ⟨n, hn⟩ := Option.isSome_iff_exists.mp hread
  rw [bodySize, hn]
  rfl

/-- A header arrives. -/
theorem readReply_of_header (hsize : 24 ≤ size) (hs : 24 ≤ chunks.flatten.length) :
    ∃ rest, rest.flatten = chunks.flatten.drop 24 ∧
      (∀ total, ReadsBehind total 24 rest ↔ ReadsBehind total 0 chunks) ∧
      readReply size chunks =
        if bodySize chunks.flatten > 0 then do
          failIf (2 ^ 32 ≤ 24 + bodySize chunks.flatten) .wraps
          let (reply, _, _) ← readLoop (24 + bodySize chunks.flatten)
            (24 + bodySize chunks.flatten) (chunks.flatten.take 24) (Int.bmod 24 (2 ^ 32)) rest
          return reply
        else .ok (chunks.flatten.take 24) := by
  have hfirst : Reads size 24 [] chunks := readLoop_spec hsize (by norm_num) (Nat.zero_le 24)
  have hno : ¬ReadsBehind 24 ([] : Bytes).length chunks := by
    rintro ⟨k, -, hlow, hlt⟩
    omega
  obtain ⟨rest, hok, hdrop, hlater⟩ := hfirst.whole hno (by rwa [List.length_nil, Nat.zero_add])
  refine ⟨rest, hdrop, hlater (by norm_num), ?_⟩
  have hheader : getBeUint32 (chunks.flatten.take 24) 8 = some (bodySize chunks.flatten) := by
    rw [getBeUint32_take (by norm_num), getBeUint32_header hs]
  have hloop : readLoop size 24 [] 0 chunks =
      .ok (chunks.flatten.take 24, Int.bmod 24 (2 ^ 32), rest) := hok
  unfold readReply
  rw [hloop, ok_bind]
  show (inside (getBeUint32 (chunks.flatten.take 24) 8) >>= _) = _
  rw [hheader]
  rfl

/-- What comes of the bytes that arrive. -/
structure Replies (size : ℕ) (chunks : List Bytes) : Prop where
  noHeader : chunks.flatten.length < 24 → ∃ what, readReply size chunks = .error (.io what)
  tooLong : 24 ≤ chunks.flatten.length → ¬Fits chunks →
    ∃ e, readReply size chunks = .error e ∧ e.thrown = false
  short : 24 ≤ chunks.flatten.length → Fits chunks →
    chunks.flatten.length < 24 + bodySize chunks.flatten →
    ∃ what, readReply size chunks = .error (.io what)
  whole : 24 ≤ chunks.flatten.length → Fits chunks →
    24 + bodySize chunks.flatten ≤ chunks.flatten.length →
    readReply size chunks = .ok (chunks.flatten.take (24 + bodySize chunks.flatten))

theorem noHeader (hsize : 24 ≤ size) (hs : chunks.flatten.length < 24) :
    ∃ what, readReply size chunks = .error (.io what) := by
  have hfirst : Reads size 24 [] chunks := readLoop_spec hsize (by norm_num) (Nat.zero_le 24)
  have hno : ¬ReadsBehind 24 ([] : Bytes).length chunks := by
    rintro ⟨k, -, hlow, hlt⟩
    omega
  obtain ⟨what, herror⟩ := hfirst.short hno (by rwa [List.length_nil, Nat.zero_add])
  refine ⟨what, ?_⟩
  have hloop : readLoop size 24 [] 0 chunks = .error (.io what) := herror
  unfold readReply
  rw [hloop]
  rfl

theorem readReply_spec (hsize : 24 ≤ size) (chunks : List Bytes) : Replies size chunks := by
  by_cases hs : 24 ≤ chunks.flatten.length
  · obtain ⟨rest, hdrop, hbehind, hreply⟩ := readReply_of_header hsize hs
    have htake : (chunks.flatten.take 24).length = 24 := by
      rw [List.length_take]
      omega
    by_cases hbody : bodySize chunks.flatten > 0
    · rw [if_pos hbody] at hreply
      by_cases hwraps : 2 ^ 32 ≤ 24 + bodySize chunks.flatten
      -- the sum of the lengths
      · have herror : readReply size chunks = .error .wraps := by
          rw [hreply, failIf, if_pos hwraps]
          rfl
        have hno : ¬Fits chunks := fun h => absurd h.1 (not_lt.mpr hwraps)
        exact ⟨fun h => absurd hs (not_le.mpr h), fun _ _ => ⟨_, herror, rfl⟩,
          fun _ h => absurd h hno, fun _ h => absurd h hno⟩
      · have hloop : Reads (24 + bodySize chunks.flatten) (24 + bodySize chunks.flatten)
            (chunks.flatten.take 24) rest :=
          readLoop_spec le_rfl (not_le.mp hwraps) (by omega)
        have hfits : Fits chunks ↔ ¬ReadsBehind (24 + bodySize chunks.flatten)
            (chunks.flatten.take 24).length rest := by
          rw [htake, hbehind]
          exact and_iff_right (not_le.mp hwraps)
        have hrest : (chunks.flatten.take 24).length + rest.flatten.length =
            chunks.flatten.length := by
          rw [hdrop, htake, List.length_drop]
          omega
        rw [failIf, if_neg hwraps, ok_bind] at hreply
        have hbytes : Int.bmod (chunks.flatten.take 24).length (2 ^ 32) = Int.bmod 24 (2 ^ 32) := by
          rw [htake]
          rfl
        obtain ⟨htoofar, hshort, hwhole⟩ := hloop
        rw [hbytes] at htoofar hshort hwhole
        refine ⟨fun h => absurd hs (not_le.mpr h), fun _ hno => ⟨.outOfBounds, ?_, rfl⟩,
          fun _ hfit hless => ?_, fun _ hfit hmore => ?_⟩
        · rw [hreply, htoofar (by_contra fun h => hno (hfits.mpr h))]
          rfl
        · obtain ⟨what, herror⟩ := hshort (hfits.mp hfit) (by omega)
          refine ⟨what, ?_⟩
          rw [hreply, herror]
          rfl
        · obtain ⟨rest', hok, -, -⟩ := hwhole (hfits.mp hfit) (by omega)
          have hall : chunks.flatten.take 24 ++ (rest.flatten.take
              (24 + bodySize chunks.flatten - (chunks.flatten.take 24).length)) =
              chunks.flatten.take (24 + bodySize chunks.flatten) := by
            rw [hdrop, htake, List.take_add, Nat.add_sub_cancel_left]
          rw [hreply, hok, hall]
          rfl
    -- no body
    · have hzero : bodySize chunks.flatten = 0 := by omega
      rw [if_neg hbody] at hreply
      have hfits : Fits chunks := by
        refine ⟨by omega, ?_⟩
        rintro ⟨k, -, hlow, hlt⟩
        omega
      refine ⟨fun h => absurd hs (not_le.mpr h), fun _ hno => absurd hfits hno,
        fun _ _ hless => ?_, fun _ _ _ => ?_⟩
      · omega
      · rw [hreply, hzero]
  · exact ⟨noHeader hsize, fun h => absurd h hs, fun h => absurd h hs, fun h => absurd h hs⟩

/-! ## The checks -/

/-- A computation throws. -/
def Throws {α : Type} (x : Except Failure α) : Prop := ∃ e, x = .error e ∧ e.thrown = true

theorem Throws.bind {α β : Type} {x : Except Failure α} (h : Throws x) (f : α → Except Failure β) :
    Throws (x >>= f) := by
  obtain ⟨e, rfl, he⟩ := h
  exact ⟨e, rfl, he⟩

theorem throws_failIf {c : Prop} [Decidable c] {e : Failure} (hc : c) (he : e.thrown = true) :
    Throws (failIf c e : Except Failure Unit) := by
  rw [failIf, if_pos hc]
  exact ⟨e, rfl, he⟩

/-- A guard that does not end the computation. -/
theorem failIf_bind {α : Type} {c : Prop} [Decidable c] {e : Failure} (hc : ¬c)
    (f : Unit → Except Failure α) : (failIf c e >>= f) = f () := by
  rw [failIf, if_neg hc, ok_bind]

/-- A field that was received. -/
theorem inside_bind {α β : Type} {x : Option α} {a : α} (hx : x = some a)
    (f : α → Except Failure β) : (inside x >>= f) = f a := by
  rw [hx]
  rfl

theorem throws_statusCheck {status : ℕ} (h : status ≠ 0) : Throws (statusCheck status) := by
  unfold statusCheck
  split
  · exact absurd rfl h
  all_goals exact ⟨_, rfl, rfl⟩

/-- The header is that of an answer with a status of success. -/
def HeadOk (s : Bytes) : Prop := s[0]? = some 0x81 ∧ getBeUint16 s 6 = some 0

instance (s : Bytes) : Decidable (HeadOk s) := inferInstanceAs (Decidable (_ ∧ _))

variable {s : Bytes}

theorem headChecks_spec (hs : 24 ≤ s.length) :
    (HeadOk s → headChecks s = .ok ()) ∧ (¬HeadOk s → Throws (headChecks s)) := by
  have hmagic : s[0]? = some s[0] := List.getElem?_eq_getElem (by omega)
  obtain ⟨status, hstatus⟩ := Option.isSome_iff_exists.mp
    (isSome_getBeUint16 (by omega : 6 + 2 ≤ s.length))
  unfold headChecks HeadOk
  rw [inside_bind hmagic, hstatus, hmagic, Option.some.injEq, Option.some.injEq]
  by_cases h0 : s[0] = 0x81
  · rw [failIf_bind (not_not_intro h0)]
    show (_ → statusCheck status = .ok ()) ∧ (_ → Throws (statusCheck status))
    by_cases hzero : status = 0
    · rw [hzero]
      exact ⟨fun _ => rfl, fun h => absurd ⟨h0, rfl⟩ h⟩
    · exact ⟨fun h => absurd h.2 hzero, fun _ => throws_statusCheck hzero⟩
  · exact ⟨fun h => absurd h.1 h0, fun _ => (throws_failIf h0 rfl).bind _⟩

theorem dataTypeCheck_spec (hs : 24 ≤ s.length) :
    (s[5]? = some 0 → dataTypeCheck s = .ok ()) ∧
      (s[5]? ≠ some 0 → Throws (dataTypeCheck s)) := by
  have htype : s[5]? = some s[5] := List.getElem?_eq_getElem (by omega)
  unfold dataTypeCheck
  rw [inside_bind htype, htype]
  constructor
  · intro h
    rw [failIf, if_neg (not_not_intro (Option.some.inj h))]
  · intro h
    exact throws_failIf (fun h5 => h (congrArg some h5)) rfl

/-- The header is one that `get` accepts. -/
def GetAccepts (s : Bytes) : Prop :=
  HeadOk s ∧ s[1]? = some 0 ∧ s[4]? = some 4 ∧ s[5]? = some 0

instance (s : Bytes) : Decidable (GetAccepts s) := inferInstanceAs (Decidable (_ ∧ _ ∧ _ ∧ _))

/-- Whatever the header is, the checks of `get` throw or come to the body. -/
theorem getChecks_spec (hs : 24 ≤ s.length) :
    (GetAccepts s → getChecks s = do
      failIf (bodySize s < 4) .wraps
      inside (readBytes s 28 (bodySize s - 4))) ∧
    (¬GetAccepts s → Throws (getChecks s)) := by
  have hopcode : s[1]? = some s[1] := List.getElem?_eq_getElem (by omega)
  have hextras : s[4]? = some s[4] := List.getElem?_eq_getElem (by omega)
  unfold getChecks GetAccepts
  by_cases hhead : HeadOk s
  · rw [(headChecks_spec hs).1 hhead, ok_bind, inside_bind hopcode, hopcode, Option.some.injEq]
    by_cases h1 : s[1] = 0
    · rw [failIf_bind (not_not_intro h1), inside_bind hextras, hextras, Option.some.injEq]
      by_cases h4 : s[4] = 4
      · rw [failIf_bind (not_not_intro h4)]
        by_cases h5 : s[5]? = some 0
        · rw [(dataTypeCheck_spec hs).1 h5, ok_bind, inside_bind (getBeUint32_header hs)]
          exact ⟨fun _ => rfl, fun h => absurd ⟨hhead, h1, h4, h5⟩ h⟩
        · exact ⟨fun h => absurd h.2.2.2 h5, fun _ => ((dataTypeCheck_spec hs).2 h5).bind _⟩
      · exact ⟨fun h => absurd h.2.2.1 h4, fun _ => (throws_failIf h4 rfl).bind _⟩
    · exact ⟨fun h => absurd h.2.1 h1, fun _ => (throws_failIf h1 rfl).bind _⟩
  · exact ⟨fun h => absurd h.1 hhead, fun _ => ((headChecks_spec hs).2 hhead).bind _⟩

/-- Whatever the header is, the checks of `set` throw or accept. -/
theorem setChecks_spec (hs : 24 ≤ s.length) : setChecks s = .ok () ∨ Throws (setChecks s) := by
  have hopcode : s[1]? = some s[1] := List.getElem?_eq_getElem (by omega)
  have hextras : s[4]? = some s[4] := List.getElem?_eq_getElem (by omega)
  have hlast (i : ℕ) (hi : i < 24) : s[i]? = some s[i] := List.getElem?_eq_getElem (by omega)
  obtain ⟨keyLength, hkey⟩ := Option.isSome_iff_exists.mp
    (isSome_getBeUint16 (by omega : 2 + 2 ≤ s.length))
  obtain ⟨printed, hprinted⟩ : ∃ n, hostInt s 8 = some n := by
    unfold hostInt
    rw [hlast 8 (by norm_num), hlast 9 (by norm_num), hlast 10 (by norm_num),
      hlast 11 (by norm_num)]
    exact ⟨_, rfl⟩
  unfold setChecks
  by_cases hhead : HeadOk s
  · rw [(headChecks_spec hs).1 hhead, ok_bind, inside_bind hopcode]
    by_cases h1 : s[1] ≠ 1
    · exact .inr ((throws_failIf h1 rfl).bind _)
    · rw [failIf_bind h1, inside_bind hkey]
      by_cases h2 : keyLength ≠ 0
      · exact .inr ((throws_failIf h2 rfl).bind _)
      · rw [failIf_bind h2, inside_bind hextras]
        by_cases h4 : s[4] ≠ 0
        · exact .inr ((throws_failIf h4 rfl).bind _)
        · rw [failIf_bind h4]
          by_cases h5 : s[5]? = some 0
          · rw [(dataTypeCheck_spec hs).1 h5, ok_bind, inside_bind (getBeUint32_header hs),
              inside_bind hprinted]
            by_cases h8 : bodySize s ≠ 0
            · exact .inr (throws_failIf h8 rfl)
            · left
              rw [failIf, if_neg h8]
          · exact .inr (((dataTypeCheck_spec hs).2 h5).bind _)
  · exact .inr (((headChecks_spec hs).2 hhead).bind _)

/-! ## The callbacks -/

/-- The body of a reply. -/
def body (s : Bytes) : Bytes := (s.drop 24).take (bodySize s)

/-- A computation throws, or accepts a value as `p` says. -/
def ThrowsOr {α : Type} (p : α → Prop) : Except Failure α → Prop
  | .ok a => p a
  | .error e => e.thrown = true

instance {α : Type} (p : α → Prop) [∀ a, Decidable (p a)] (x : Except Failure α) :
    Decidable (ThrowsOr p x) :=
  match x with
  | .ok a => inferInstanceAs (Decidable (p a))
  | .error e => inferInstanceAs (Decidable (e.thrown = true))

/-- `get` throws, or accepts with what stands behind the extras in the body. -/
def GetSafe (size : ℕ) (chunks : List Bytes) : Prop :=
  ThrowsOr (fun ret => ret = (body chunks.flatten).drop 4) (getReply size chunks)

/-- `set` throws or accepts. -/
def SetSafe (size : ℕ) (chunks : List Bytes) : Prop :=
  ThrowsOr (fun _ => True) (setReply size chunks)

instance (size : ℕ) (chunks : List Bytes) : Decidable (GetSafe size chunks) :=
  inferInstanceAs (Decidable (ThrowsOr _ _))

instance (size : ℕ) (chunks : List Bytes) : Decidable (SetSafe size chunks) :=
  inferInstanceAs (Decidable (ThrowsOr _ _))

/-- The reply of `get` is too short for a header, or it fits, and it is cut off, not accepted or
has a body with room for the extras. -/
def GetCondition (chunks : List Bytes) : Prop :=
  chunks.flatten.length < 24 ∨ Fits chunks ∧
    (chunks.flatten.length < 24 + bodySize chunks.flatten ∨ ¬GetAccepts chunks.flatten ∨
      4 ≤ bodySize chunks.flatten)

/-- The reply of `set` is too short for a header, or it fits. -/
def SetCondition (chunks : List Bytes) : Prop := chunks.flatten.length < 24 ∨ Fits chunks

instance (chunks : List Bytes) : Decidable (GetCondition chunks) :=
  inferInstanceAs (Decidable (_ ∨ _ ∧ _))

instance (chunks : List Bytes) : Decidable (SetCondition chunks) :=
  inferInstanceAs (Decidable (_ ∨ _))

/-- The header is looked at, and nothing behind it. -/
theorem header_take (hn : 24 ≤ n) :
    bodySize (s.take n) = bodySize s ∧ (GetAccepts (s.take n) ↔ GetAccepts s) := by
  have hbyte (i : ℕ) (hi : i < 24) : (s.take n)[i]? = s[i]? := List.getElem?_take_of_lt (by omega)
  constructor
  · unfold bodySize
    rw [getBeUint32_take (by omega)]
  · unfold GetAccepts HeadOk getBeUint16
    rw [hbyte 0 (by norm_num), hbyte 1 (by norm_num), hbyte 4 (by norm_num), hbyte 5 (by norm_num),
      hbyte 6 (by norm_num), hbyte 7 (by norm_num)]

theorem Throws.throwsOr {α : Type} {x : Except Failure α} (h : Throws x) (p : α → Prop) :
    ThrowsOr p x := by
  obtain ⟨e, rfl, hthrown⟩ := h
  exact hthrown

/-- A computation that stops elsewhere. -/
theorem not_throwsOr {α : Type} {x : Except Failure α} {e : Failure} (hx : x = .error e)
    (he : e.thrown = false) (p : α → Prop) : ¬ThrowsOr p x := by
  rw [hx]
  show ¬e.thrown = true
  rw [he]
  exact Bool.false_ne_true

/-- The substring that `get` takes is the body behind the extras. -/
theorem substring_eq (hbody : 4 ≤ bodySize s) (hwhole : 24 + bodySize s ≤ s.length) :
    readBytes (s.take (24 + bodySize s)) 28 (bodySize s - 4) = some ((body s).drop 4) := by
  rw [readBytes_eq_some]
  constructor
  · rw [List.length_take]
    omega
  · rw [body, List.drop_take, List.drop_take, List.drop_drop, List.take_take]
    congr 1
    omega

/-- The whole reply is there. -/
theorem getReply_of_whole (hwhole : 24 + bodySize s ≤ s.length)
    (hread : readReply size chunks = .ok (s.take (24 + bodySize s))) :
    (GetAccepts s → getReply size chunks = do
      failIf (bodySize s < 4) .wraps
      inside (readBytes (s.take (24 + bodySize s)) 28 (bodySize s - 4))) ∧
    (¬GetAccepts s → Throws (getReply size chunks)) := by
  have hget : getReply size chunks = getChecks (s.take (24 + bodySize s)) := by
    unfold getReply
    rw [hread, ok_bind]
  have hlen : 24 ≤ (s.take (24 + bodySize s)).length := by
    rw [List.length_take]
    omega
  have hheader : bodySize (s.take (24 + bodySize s)) = bodySize s ∧
      (GetAccepts (s.take (24 + bodySize s)) ↔ GetAccepts s) := header_take (Nat.le_add_right 24 _)
  have hchecks := getChecks_spec hlen
  rw [hheader.1, hheader.2] at hchecks
  rw [hget]
  exact hchecks

theorem getSafe_iff (hsize : 24 ≤ size) : GetSafe size chunks ↔ GetCondition chunks := by
  have hreply := readReply_spec hsize chunks
  by_cases hs : 24 ≤ chunks.flatten.length
  · by_cases hfits : Fits chunks
    · by_cases hwhole : 24 + bodySize chunks.flatten ≤ chunks.flatten.length
      · obtain ⟨hchecks, hthrows⟩ := getReply_of_whole hwhole (hreply.whole hs hfits hwhole)
        by_cases haccept : GetAccepts chunks.flatten
        · have hcondition : GetCondition chunks ↔ 4 ≤ bodySize chunks.flatten := by
            unfold GetCondition
            constructor
            · rintro (h | ⟨-, h | h | h⟩)
              · omega
              · omega
              · exact absurd haccept h
              · exact h
            · exact fun h => .inr ⟨hfits, .inr (.inr h)⟩
          rw [hcondition]
          unfold GetSafe
          rw [hchecks haccept]
          by_cases hbody : 4 ≤ bodySize chunks.flatten
          · rw [failIf_bind (not_lt.mpr hbody), substring_eq hbody hwhole]
            exact iff_of_true rfl hbody
          -- the difference underflows
          · rw [failIf, if_pos (not_le.mp hbody)]
            exact iff_of_false (not_throwsOr rfl rfl _) hbody
        · exact iff_of_true ((hthrows haccept).throwsOr _) (.inr ⟨hfits, .inr (.inl haccept)⟩)
      · obtain ⟨what, herror⟩ := hreply.short hs hfits (not_le.mp hwhole)
        have hthrows : Throws (getReply size chunks) := Throws.bind ⟨_, herror, rfl⟩ _
        exact iff_of_true (hthrows.throwsOr _) (.inr ⟨hfits, .inl (not_le.mp hwhole)⟩)
    · obtain ⟨e, herror, hfault⟩ := hreply.tooLong hs hfits
      have hstops : getReply size chunks = .error e := by
        unfold getReply
        rw [herror]
        rfl
      apply iff_of_false (not_throwsOr hstops hfault _)
      rintro (h | h)
      · omega
      · exact hfits h.1
  · obtain ⟨what, herror⟩ := hreply.noHeader (not_le.mp hs)
    have hthrows : Throws (getReply size chunks) := Throws.bind ⟨_, herror, rfl⟩ _
    exact iff_of_true (hthrows.throwsOr _) (.inl (not_le.mp hs))

theorem setSafe_iff (hsize : 24 ≤ size) : SetSafe size chunks ↔ SetCondition chunks := by
  have hreply := readReply_spec hsize chunks
  by_cases hs : 24 ≤ chunks.flatten.length
  · by_cases hfits : Fits chunks
    · refine iff_of_true ?_ (.inr hfits)
      by_cases hwhole : 24 + bodySize chunks.flatten ≤ chunks.flatten.length
      · have hset : setReply size chunks =
            setChecks (chunks.flatten.take (24 + bodySize chunks.flatten)) := by
          unfold setReply
          rw [hreply.whole hs hfits hwhole, ok_bind]
        have hlen : 24 ≤ (chunks.flatten.take (24 + bodySize chunks.flatten)).length := by
          rw [List.length_take]
          omega
        obtain hok | hthrows := setChecks_spec hlen
        · unfold SetSafe
          rw [hset, hok]
          trivial
        · rw [← hset] at hthrows
          exact hthrows.throwsOr _
      · obtain ⟨what, herror⟩ := hreply.short hs hfits (not_le.mp hwhole)
        have hthrows : Throws (setReply size chunks) := Throws.bind ⟨_, herror, rfl⟩ _
        exact hthrows.throwsOr _
    · obtain ⟨e, herror, hfault⟩ := hreply.tooLong hs hfits
      have hstops : setReply size chunks = .error e := by
        unfold setReply
        rw [herror]
        rfl
      apply iff_of_false (not_throwsOr hstops hfault _)
      rintro (h | h)
      · omega
      · exact hfits h
  · obtain ⟨what, herror⟩ := hreply.noHeader (not_le.mp hs)
    have hthrows : Throws (setReply size chunks) := Throws.bind ⟨_, herror, rfl⟩ _
    exact iff_of_true (hthrows.throwsOr _) (.inl (not_le.mp hs))

/-- When the callbacks read a reply safely, for every reply in any chunks. -/
theorem replies_safe_iff (hsize : 24 ≤ size) (chunks : List Bytes) :
    (GetSafe size chunks ↔ GetCondition chunks) ∧ (SetSafe size chunks ↔ SetCondition chunks) :=
  ⟨getSafe_iff hsize, setSafe_iff hsize⟩

/-- A value of three bytes, which arrives in three pieces. -/
theorem replies_safe_value : GetSafe 24 [[0x81, 0, 0, 0, 4], [0, 0, 0, 0, 0, 0, 7, 0, 0, 0, 0, 0,
    0, 0, 0, 0, 0, 0, 0, 1], [2, 3, 4, 97, 98, 99]] :=
  (replies_safe_iff le_rfl _).1.mpr (by decide +kernel)

/-- A reply to `get` that has extras and no body, and one to `set` with the longest body. -/
theorem not_replies_safe :
    ¬GetSafe 24 [[0x81, 0, 0, 0, 4, 0, 0, 0, 0, 0, 0, 0, 0, 0, 0, 0, 0, 0, 0, 0, 0, 0, 0, 0]] ∧
    ¬SetSafe 24
      [[0x81, 1, 0, 0, 0, 0, 0, 0, 255, 255, 255, 255, 0, 0, 0, 0, 0, 0, 0, 0, 0, 0, 0, 0]] := by
  decide +kernel

end Anon.Mcdc
