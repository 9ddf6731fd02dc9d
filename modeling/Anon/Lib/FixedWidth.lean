import Mathlib

/-!
# Codes of a fixed width

Every letter of an alphabet has a code word, and all code words have the same length. A text is
encoded letter by letter.

* `append_lt_append_iff`: the first halves decide, if they have the same length.
* `flatMap_lt_flatMap_iff`: a code that keeps the order of the letters keeps the lexicographic order
  of the texts.
-/

namespace Anon

variable {α β : Type*} [LinearOrder α] [LinearOrder β] {f : α → List β} {n : ℕ}
  {as bs cs ds : List β} {xs ys : List α}

theorem append_lt_append_iff (h : as.length = bs.length) :
    as ++ cs < bs ++ ds ↔ as < bs ∨ as = bs ∧ cs < ds := by
  induction as generalizing bs with
  | nil =>
    obtain rfl := List.eq_nil_of_length_eq_zero h.symm
    simp
  | cons a as ih =>
    cases bs with
    | nil => exact absurd h (Nat.succ_ne_zero _)
    | cons b bs =>
      rw [List.cons_append, List.cons_append, List.cons_lt_cons_iff, List.cons_lt_cons_iff,
        ih (Nat.succ.inj h), List.cons.injEq]
      tauto

/-- The order of the texts. -/
theorem flatMap_lt_flatMap_iff (hn : 0 < n) (hlen : ∀ a, (f a).length = n)
    (hf : ∀ a b, f a < f b ↔ a < b) : xs.flatMap f < ys.flatMap f ↔ xs < ys := by
  have hinj (a b : α) (hab : f a = f b) : a = b := by
    rcases lt_trichotomy a b with h | h | h
    · exact absurd ((hf a b).mpr h) (by rw [hab]; exact lt_irrefl _)
    · exact h
    · exact absurd ((hf b a).mpr h) (by rw [hab]; exact lt_irrefl _)
  induction xs generalizing ys with
  | nil =>
    cases ys with
    | nil => simp
    | cons y ys =>
      have hne : f y ≠ [] := List.ne_nil_of_length_pos (by rw [hlen]; exact hn)
      obtain ⟨b, bs, hb⟩ := List.exists_cons_of_ne_nil hne
      simp [hb]
  | cons x xs ih =>
    cases ys with
    | nil => simp
    | cons y ys =>
      have hrest : xs.flatMap f < ys.flatMap f ↔ xs < ys := ih
      rw [List.flatMap_cons, List.flatMap_cons,
        append_lt_append_iff ((hlen x).trans (hlen y).symm), hf, hrest, List.cons_lt_cons_iff]
      constructor
      · rintro (h | ⟨h, h'⟩)
        · exact Or.inl h
        · exact Or.inr ⟨hinj x y h, h'⟩
      · rintro (h | ⟨h, h'⟩)
        · exact Or.inl h
        · exact Or.inr ⟨by rw [h], h'⟩

end Anon
