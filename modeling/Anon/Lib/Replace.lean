import Anon.Lib.CString

/-!
# Replacement of all occurrences of a text

* `substAll`: every occurrence of a pattern replaced, from the front to the back. What has been put
  in is not looked at again.
* `substAll_of_strstr`: the same by searches for the next occurrence.
* `substAll_append`: a text without the first character of the pattern in front.
* `length_substAll_eq_iff`: a replacement that is shorter than the pattern changes the length of
  every text with the pattern in it.
-/

namespace Anon

variable {pat rep front s : Bytes} {c : UInt8}

/-- Every occurrence of `pat` replaced by `rep`. -/
def substAll (pat rep : Bytes) : Bytes → Bytes
  | [] => []
  | c :: s =>
    if pat <+: c :: s then rep ++ substAll pat rep (s.drop (pat.length - 1))
    else c :: substAll pat rep s
termination_by s => s.length
decreasing_by
  · rw [List.length_drop, List.length_cons]
    omega
  · exact Nat.lt_succ_self _

@[simp] theorem substAll_nil (pat rep : Bytes) : substAll pat rep [] = [] := by rw [substAll]

/-- The pattern at the front is replaced. -/
theorem substAll_pattern (hne : pat ≠ []) (rep s : Bytes) :
    substAll pat rep (pat ++ s) = rep ++ substAll pat rep s := by
  cases pat with
  | nil => exact absurd rfl hne
  | cons c tail =>
    have hprefix : c :: tail <+: c :: (tail ++ s) := List.prefix_append (c :: tail) s
    rw [List.cons_append, substAll, if_pos hprefix, List.length_cons, Nat.add_sub_cancel,
      List.drop_left]

theorem substAll_cons (h : ¬pat <+: c :: s) :
    substAll pat rep (c :: s) = c :: substAll pat rep s := by
  rw [substAll, if_neg h]

/-- No occurrence of the pattern begins in a text without its first character. -/
theorem substAll_append {tail : Bytes} (h : c ∉ front) (s : Bytes) :
    substAll (c :: tail) rep (front ++ s) = front ++ substAll (c :: tail) rep s := by
  induction front with
  | nil => rfl
  | cons a front ih =>
    rw [List.mem_cons, not_or] at h
    rw [List.cons_append, substAll_cons, ih h.2, List.cons_append]
    rw [List.cons_prefix_cons]
    exact fun hprefix => h.1 hprefix.1

/-- Induction over a text, with the pattern taken off the front as a whole. -/
theorem substAll_induction (hne : pat ≠ []) {motive : Bytes → Prop} (nil : motive [])
    (pattern : ∀ s, motive s → motive (pat ++ s))
    (cons : ∀ c s, ¬pat <+: c :: s → motive s → motive (c :: s)) (s : Bytes) : motive s := by
  induction hlen : s.length using Nat.strongRecOn generalizing s with
  | _ n ih =>
    by_cases hprefix : pat <+: s
    · obtain ⟨rest, hrest⟩ := hprefix
      have hpos : 0 < pat.length := List.length_pos_of_ne_nil hne
      have hlt : rest.length < n := by
        rw [← hlen, ← hrest, List.length_append]
        omega
      rw [← hrest]
      exact pattern rest (ih rest.length hlt rest rfl)
    · cases s with
      | nil => exact nil
      | cons c s =>
        have hlt : s.length < n := by
          rw [← hlen, List.length_cons]
          omega
        exact cons c s hprefix (ih s.length hlt s rfl)

/-- What is in the text afterwards was in it, or was put in. -/
theorem mem_substAll (hne : pat ≠ []) (h : c ∈ substAll pat rep s) : c ∈ rep ∨ c ∈ s := by
  induction s using substAll_induction hne with
  | nil => exact absurd h (by simp)
  | pattern s ih =>
    rw [substAll_pattern hne, List.mem_append] at h
    rcases h with h | h
    · exact Or.inl h
    · exact (ih h).imp_right (List.mem_append_right pat)
  | cons a s hprefix ih =>
    rw [substAll_cons hprefix, List.mem_cons] at h
    rcases h with rfl | h
    · exact Or.inr List.mem_cons_self
    · exact (ih h).imp_right (List.mem_cons_of_mem a)

/-! ## Lengths -/

theorem length_substAll_le (hshort : rep.length < pat.length) (s : Bytes) :
    (substAll pat rep s).length ≤ s.length := by
  have hne : pat ≠ [] := by
    rintro rfl
    exact absurd hshort (Nat.not_lt_zero _)
  induction s using substAll_induction hne with
  | nil => rw [substAll_nil]
  | pattern s ih =>
    rw [substAll_pattern hne, List.length_append, List.length_append]
    omega
  | cons c s hprefix ih =>
    rw [substAll_cons hprefix, List.length_cons, List.length_cons]
    omega

/-- The pattern is in the text exactly if the replacement makes it shorter. -/
theorem length_substAll_eq_iff (hshort : rep.length < pat.length) :
    (substAll pat rep s).length = s.length ↔ ¬pat <:+: s := by
  have hne : pat ≠ [] := by
    rintro rfl
    exact absurd hshort (Nat.not_lt_zero _)
  induction s using substAll_induction hne with
  | nil =>
    rw [substAll_nil]
    exact iff_of_true rfl fun h => hne (List.infix_nil.mp h)
  | pattern s ih =>
    have hle := length_substAll_le hshort s
    rw [substAll_pattern hne, List.length_append, List.length_append]
    apply iff_of_false
    · omega
    · exact fun h => h (List.prefix_append pat s).isInfix
  | cons c s hprefix ih =>
    have hrest : (substAll pat rep s).length = s.length ↔ ¬pat <:+: s := ih
    rw [substAll_cons hprefix, List.length_cons, List.length_cons, List.infix_cons_iff,
      or_iff_right hprefix, ← hrest]
    omega

/-- A text without the pattern stays as it is. -/
theorem substAll_of_not_infix (hne : pat ≠ []) (h : ¬pat <:+: s) : substAll pat rep s = s := by
  induction s using substAll_induction hne with
  | nil => rw [substAll_nil]
  | pattern s ih => exact absurd (List.prefix_append pat s).isInfix h
  | cons c s hprefix ih =>
    rw [substAll_cons hprefix, ih]
    intro hinfix
    exact h (List.infix_cons_iff.mpr (Or.inr hinfix))

theorem substAll_eq_self_iff (hshort : rep.length < pat.length) :
    substAll pat rep s = s ↔ ¬pat <:+: s := by
  have hne : pat ≠ [] := by
    rintro rfl
    exact absurd hshort (Nat.not_lt_zero _)
  constructor
  · intro h
    exact (length_substAll_eq_iff hshort).mp (congrArg List.length h)
  · exact substAll_of_not_infix hne

/-! ## Searches -/

/-- What a search for the next occurrence says of the replacement of all of them. -/
theorem substAll_of_strstr (hne : pat ≠ []) (s : Bytes) : substAll pat rep s =
    match strstr s pat with
    | none => s
    | some i => s.take i ++ rep ++ substAll pat rep (s.drop (i + pat.length)) := by
  induction s with
  | nil => rw [strstr_nil hne, substAll_nil]
  | cons c s ih =>
    rw [strstr_cons]
    by_cases hprefix : pat <+: c :: s
    · obtain ⟨rest, hrest⟩ := hprefix
      rw [if_pos ⟨rest, hrest⟩, ← hrest, substAll_pattern hne]
      show _ = List.take 0 (pat ++ rest) ++ rep ++
        substAll pat rep ((pat ++ rest).drop (0 + pat.length))
      rw [Nat.zero_add, List.drop_left, List.take_zero, List.nil_append]
    · rw [if_neg hprefix, substAll_cons hprefix, ih]
      cases strstr s pat with
      | none => rfl
      | some i =>
        show c :: (s.take i ++ rep ++ substAll pat rep (s.drop (i + pat.length))) =
          (c :: s).take (i + 1) ++ rep ++ substAll pat rep ((c :: s).drop (i + 1 + pat.length))
        rw [List.take_succ_cons, Nat.add_right_comm, List.drop_succ_cons]
        rfl

end Anon
