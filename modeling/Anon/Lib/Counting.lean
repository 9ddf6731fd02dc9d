import Mathlib

/-!
# Counting parties

`count q f` adds up the integer weights `q` of where each party of a finite type stands.
Counter protocols (a lock word, a number of stopped threads) have invariants that equate a
shared counter with such a sum; a step moves one party, and `count_update` says what that
does to the sum.
-/

namespace Anon

variable {A P : Type*} [Fintype A]

/-- The sum over all parties of the weight of the place the party is at. -/
def count (q : P → ℤ) (f : A → P) : ℤ := ∑ a, q (f a)

variable {q : P → ℤ} {f : A → P}

omit [Fintype A] in
/-- What holds of every party still holds when one of them has moved to where it holds. -/
theorem forall_update [DecidableEq A] {R : A → P → Prop} (h : ∀ b, R b (f b)) {a : A} {p : P}
    (hp : R a p) (b : A) : R b (Function.update f a p b) := by
  by_cases hb : b = a
  · rw [hb, Function.update_self]
    exact hp
  · rw [Function.update_of_ne hb]
    exact h b

@[simp] theorem count_update [DecidableEq A] (a : A) (p : P) :
    count q (Function.update f a p) = count q f + (q p - q (f a)) := by
  have hrest : ∀ g : A → P, count q g = q (g a) + ∑ b ∈ Finset.univ.erase a, q (g b) :=
    fun g => (Finset.add_sum_erase _ _ (Finset.mem_univ a)).symm
  have hsame : ∑ b ∈ Finset.univ.erase a, q (Function.update f a p b)
      = ∑ b ∈ Finset.univ.erase a, q (f b) := by
    refine Finset.sum_congr rfl fun b hb => ?_
    rw [Function.update_of_ne (Finset.ne_of_mem_erase hb)]
  rw [hrest, hrest f, hsame, Function.update_self]
  omega

theorem count_congr {g : A → P} (h : ∀ a, q (g a) = q (f a)) : count q g = count q f :=
  Finset.sum_congr rfl fun a _ => h a

theorem count_nonneg (hq : ∀ p, 0 ≤ q p) : 0 ≤ count q f :=
  Finset.sum_nonneg fun a _ => hq (f a)

/-- A party's weight is part of the count. -/
theorem le_count (hq : ∀ p, 0 ≤ q p) (a : A) : q (f a) ≤ count q f :=
  Finset.single_le_sum (fun b _ => hq (f b)) (Finset.mem_univ a)

/-- Two parties' weights are both part of the count. -/
theorem add_le_count (hq : ∀ p, 0 ≤ q p) {a b : A} (hab : a ≠ b) :
    q (f a) + q (f b) ≤ count q f := by
  classical
  rw [count, ← Finset.add_sum_erase _ _ (Finset.mem_univ a)]
  have hb : b ∈ Finset.univ.erase a := Finset.mem_erase.mpr ⟨hab.symm, Finset.mem_univ b⟩
  have := Finset.single_le_sum (f := fun c => q (f c)) (fun c _ => hq (f c)) hb
  omega

/-- A count is at most one party's weight and a count that covers the others. -/
theorem count_le_of_others {Q : Type*} {r : Q → ℤ} {g : A → Q} (hr : ∀ p, 0 ≤ r p) (a : A)
    (h : ∀ b, b ≠ a → q (f b) ≤ r (g b)) : count q f ≤ q (f a) + count r g := by
  classical
  have hf : count q f = q (f a) + ∑ b ∈ Finset.univ.erase a, q (f b) :=
    (Finset.add_sum_erase _ _ (Finset.mem_univ a)).symm
  have hg : count r g = r (g a) + ∑ b ∈ Finset.univ.erase a, r (g b) :=
    (Finset.add_sum_erase _ _ (Finset.mem_univ a)).symm
  have hle : ∑ b ∈ Finset.univ.erase a, q (f b) ≤ ∑ b ∈ Finset.univ.erase a, r (g b) :=
    Finset.sum_le_sum fun b hb => h b (Finset.ne_of_mem_erase hb)
  have ha := hr (g a)
  omega

/-- The weight of a party that a smaller count leaves out fits into the whole count. -/
theorem add_count_le {Q : Type*} {r : Q → ℤ} {g : A → Q} {a : A}
    (hle : ∀ b, r (g b) ≤ q (f b)) (ha : r (g a) = 0) : q (f a) + count r g ≤ count q f := by
  classical
  have hf : count q f = q (f a) + ∑ b ∈ Finset.univ.erase a, q (f b) :=
    (Finset.add_sum_erase _ _ (Finset.mem_univ a)).symm
  have hg : count r g = r (g a) + ∑ b ∈ Finset.univ.erase a, r (g b) :=
    (Finset.add_sum_erase _ _ (Finset.mem_univ a)).symm
  have hsum : ∑ b ∈ Finset.univ.erase a, r (g b) ≤ ∑ b ∈ Finset.univ.erase a, q (f b) :=
    Finset.sum_le_sum fun b _ => hle b
  omega

/-- If the two fill it up, every other party has the same weight in both counts. -/
theorem eq_of_add_count_eq {Q : Type*} {r : Q → ℤ} {g : A → Q} {a b : A}
    (hle : ∀ b, r (g b) ≤ q (f b)) (ha : r (g a) = 0) (h : q (f a) + count r g = count q f)
    (hab : b ≠ a) : r (g b) = q (f b) := by
  classical
  have hf : count q f = q (f a) + ∑ b ∈ Finset.univ.erase a, q (f b) :=
    (Finset.add_sum_erase _ _ (Finset.mem_univ a)).symm
  have hg : count r g = r (g a) + ∑ b ∈ Finset.univ.erase a, r (g b) :=
    (Finset.add_sum_erase _ _ (Finset.mem_univ a)).symm
  have hsum : ∑ b ∈ Finset.univ.erase a, r (g b) = ∑ b ∈ Finset.univ.erase a, q (f b) := by
    omega
  exact (Finset.sum_eq_sum_iff_of_le fun b _ => hle b).mp hsum b
    (Finset.mem_erase.mpr ⟨hab, Finset.mem_univ b⟩)

/-- A count of zero has no weight anywhere. -/
theorem eq_zero_of_count_eq_zero (hq : ∀ p, 0 ≤ q p) (h : count q f = 0) (a : A) :
    q (f a) = 0 := by
  have h1 := le_count (f := f) hq a
  have h2 := hq (f a)
  omega

theorem count_eq_zero (h : ∀ a, q (f a) = 0) : count q f = 0 :=
  Finset.sum_eq_zero fun a _ => h a

/-- A nonzero count comes from some party. -/
theorem exists_of_count_ne_zero (h : count q f ≠ 0) : ∃ a, q (f a) ≠ 0 := by
  by_contra hno
  push Not at hno
  exact h (count_eq_zero hno)

/-- Weights of at most one whose count is at most one belong to a single party. -/
theorem eq_of_count_le_one (hq : ∀ p, 0 ≤ q p) (hc : count q f ≤ 1) {a b : A}
    (ha : 0 < q (f a)) (hb : 0 < q (f b)) : a = b := by
  by_contra hab
  have := add_le_count (f := f) hq hab
  omega

end Anon
