import Mathlib.Data.List.Basic
import Mathlib.Data.List.Nodup
import Mathlib.Logic.Function.Basic

/-!
# Segments of intrusive lists

An intrusive list keeps its link in the elements themselves: `next : α → Option α` is the
link field of every element and a list is entered through a head pointer.
`Seg next p xs q` says that following the links from the pointer `p` visits exactly the
elements `xs` and arrives at the pointer `q`; a whole list is `Seg next head xs none`.

The lemmas say how segments compose (`Seg.append`), which writes to a link leave a segment
alone (`Seg.update_of_notMem`), and what a write to the last link does (`Seg.setLast`).
-/

namespace Anon

variable {α : Type*}

/-- Following `next` from `p` visits `xs` and arrives at `q`. -/
def Seg (next : α → Option α) : Option α → List α → Option α → Prop
  | p, [], q => p = q
  | p, x :: xs, q => p = some x ∧ Seg next (next x) xs q

variable {next : α → Option α} {p q r : Option α} {x : α} {xs ys : List α}

@[simp] theorem seg_nil : Seg next p [] q ↔ p = q := Iff.rfl

@[simp] theorem seg_cons :
    Seg next p (x :: xs) q ↔ p = some x ∧ Seg next (next x) xs q := Iff.rfl

theorem Seg.append (h : Seg next p xs q) (h' : Seg next q ys r) :
    Seg next p (xs ++ ys) r := by
  induction xs generalizing p with
  | nil =>
    rw [seg_nil] at h
    rwa [List.nil_append, h]
  | cons x xs ih => exact ⟨h.1, ih h.2⟩

/-- A write to the link of an element outside the segment does not change the segment. -/
theorem Seg.update_of_notMem [DecidableEq α] {v : Option α} (h : Seg next p xs q)
    (hx : x ∉ xs) : Seg (Function.update next x v) p xs q := by
  induction xs generalizing p with
  | nil => exact h
  | cons y ys ih =>
    rw [List.mem_cons, not_or] at hx
    refine ⟨h.1, ?_⟩
    rw [Function.update_of_ne (Ne.symm hx.1)]
    exact ih h.2 hx.2

/-- Writing the link of the last element redirects the end of the segment. -/
theorem Seg.setLast [DecidableEq α] {v : Option α} (h : Seg next p xs q) (hnd : xs.Nodup)
    (hx : xs.getLast? = some x) : Seg (Function.update next x v) p xs v := by
  induction xs generalizing p with
  | nil => simp at hx
  | cons y ys ih =>
    refine ⟨h.1, ?_⟩
    cases ys with
    | nil =>
      have hyx : y = x := by simpa using hx
      rw [hyx, Function.update_self]
      exact rfl
    | cons z zs =>
      rw [List.nodup_cons] at hnd
      have hlast : (z :: zs).getLast? = some x := by simpa using hx
      have hyx : y ≠ x := by
        rintro rfl
        exact hnd.1 (List.mem_of_getLast? hlast)
      rw [Function.update_of_ne hyx]
      exact ih h.2 hnd.2 hlast

/-- The head pointer of a list is null exactly when the list is empty. -/
theorem Seg.head_eq_none_iff (h : Seg next p xs none) : p = none ↔ xs = [] := by
  cases xs with
  | nil => simpa using h
  | cons x xs => simp [h.1]

/-- An element is on the list entered at `p` when following the links reaches it. -/
def OnList (next : α → Option α) (p : Option α) (x : α) : Prop :=
  ∃ xs q, Seg next p (xs ++ [x]) q

theorem Seg.onList (h : Seg next p xs q) (hx : x ∈ xs) : OnList next p x := by
  obtain ⟨as, bs, rfl⟩ := List.append_of_mem hx
  refine ⟨as, next x, ?_⟩
  induction as generalizing p with
  | nil => exact ⟨h.1, rfl⟩
  | cons a as ih => exact ⟨h.1, ih h.2 (by simp)⟩

end Anon
