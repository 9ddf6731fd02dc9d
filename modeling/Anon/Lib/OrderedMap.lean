import Mathlib

/-!
# Ordered maps

An ordered map is the list of its entries in the order of their keys, each key once. `Sorted` is
the invariant, which `alter` keeps.

* `get`, `alter`, `erase`: look a key up, change or add its entry, and remove it.
* `floor`: the entry with the greatest key that is not greater than a given one, which the
  program finds one step before `upper_bound`.
-/

namespace Anon

/-- The entries of an ordered map from `K` to `V`, by key. -/
abbrev OrderedMap (K V : Type*) := List (K × V)

namespace OrderedMap

variable {K V : Type*} [LinearOrder K] {m : OrderedMap K V} {k k' : K} {v : V} {e : K × V}

/-- The value of the key `k`. -/
def get (k : K) : OrderedMap K V → Option V
  | [] => none
  | e :: m => if k < e.1 then none else if k = e.1 then some e.2 else get k m

/-- Give the key `k` the value that `f` makes of the one it has, if any. -/
def alter (k : K) (f : Option V → V) : OrderedMap K V → OrderedMap K V
  | [] => [(k, f none)]
  | e :: m =>
    if k < e.1 then (k, f none) :: e :: m
    else if k = e.1 then (k, f (some e.2)) :: m
    else e :: alter k f m

/-- Remove the entry of the key `k`. -/
def erase (k : K) (m : OrderedMap K V) : OrderedMap K V := m.filter fun e => e.1 ≠ k

/-- The entry in front of the first one with a key greater than `k`. -/
def floor (k : K) (m : OrderedMap K V) : Option (K × V) :=
  (m.takeWhile fun e => ¬k < e.1).getLast?

/-- The keys increase. -/
def Sorted (m : OrderedMap K V) : Prop := m.Pairwise fun e e' => e.1 < e'.1

theorem sorted_nil : Sorted ([] : OrderedMap K V) := List.Pairwise.nil

/-- The entries behind the first one have greater keys. -/
theorem Sorted.head_lt (h : Sorted (e :: m)) {e' : K × V} (he' : e' ∈ m) : e.1 < e'.1 :=
  (List.pairwise_cons.mp h).1 e' he'

theorem Sorted.tail (h : Sorted (e :: m)) : Sorted m := (List.pairwise_cons.mp h).2

/-- What looking a key up finds is an entry. -/
theorem mem_of_get_eq_some (h : get k m = some v) : (k, v) ∈ m := by
  induction m with
  | nil => exact absurd h (by simp [get])
  | cons e m ih =>
    rw [get] at h
    split at h
    · exact absurd h (by simp)
    · split at h
      · next heq =>
        rw [heq, ← Option.some.inj h]
        exact List.mem_cons_self
      · exact List.mem_cons_of_mem e (ih h)

/-- Looking a key up finds its entry. -/
theorem Sorted.get_eq_some_iff (h : Sorted m) : get k m = some v ↔ (k, v) ∈ m := by
  induction m with
  | nil => simp [get]
  | cons e m ih =>
    rw [get, List.mem_cons]
    split
    · next hlt =>
      constructor
      · intro hnone
        exact absurd hnone (by simp)
      · intro hmem
        obtain rfl | hmem := hmem
        · exact absurd hlt (lt_irrefl k)
        · exact absurd (hlt.trans (h.head_lt hmem)) (lt_irrefl k)
    · split
      · next heq =>
        subst heq
        constructor
        · intro hv
          exact .inl (by rw [← Option.some.inj hv])
        · intro hmem
          obtain hmem | hmem := hmem
          · rw [← hmem]
          · exact absurd (h.head_lt hmem) (lt_irrefl e.1)
      · next hne =>
        rw [ih h.tail]
        constructor
        · exact .inr
        · intro hmem
          refine hmem.resolve_left ?_
          rintro rfl
          exact hne rfl

/-- An entry of a changed map is the changed one or one that was there. -/
theorem eq_or_mem_of_mem_alter {f : Option V → V} (he : e ∈ alter k f m) :
    (∃ old, e = (k, f old)) ∨ e ∈ m := by
  induction m with
  | nil =>
    rw [alter, List.mem_singleton] at he
    exact .inl ⟨none, he⟩
  | cons e' m ih =>
    rw [alter] at he
    split at he
    · obtain rfl | he := List.mem_cons.mp he
      · exact .inl ⟨none, rfl⟩
      · exact .inr he
    · split at he
      · obtain rfl | he := List.mem_cons.mp he
        · exact .inl ⟨some e'.2, rfl⟩
        · exact .inr (List.mem_cons_of_mem e' he)
      · obtain rfl | he := List.mem_cons.mp he
        · exact .inr List.mem_cons_self
        · exact (ih he).imp_right (List.mem_cons_of_mem e')

/-- The keys of a changed map are the old ones and the changed one. -/
theorem mem_alter {f : Option V → V} (he : e ∈ alter k f m) : e.1 = k ∨ e ∈ m := by
  obtain ⟨old, rfl⟩ | he := eq_or_mem_of_mem_alter he
  · exact .inl rfl
  · exact .inr he

/-- A changed key is in the map. -/
theorem exists_mem_alter (k : K) (f : Option V → V) (m : OrderedMap K V) :
    ∃ old, (k, f old) ∈ alter k f m := by
  induction m with
  | nil => exact ⟨none, List.mem_cons_self⟩
  | cons e m ih =>
    rw [alter]
    split
    · exact ⟨none, List.mem_cons_self⟩
    · split
      · exact ⟨some e.2, List.mem_cons_self⟩
      · obtain ⟨old, hold⟩ := ih
        exact ⟨old, List.mem_cons_of_mem e hold⟩

/-- A new entry makes a map longer by one. -/
theorem length_alter_of_get_eq_none (h : get k m = none) (f : Option V → V) :
    (alter k f m).length = m.length + 1 := by
  induction m with
  | nil => rfl
  | cons e m ih =>
    rw [get] at h
    rw [alter]
    split at h
    · next hlt =>
      rw [if_pos hlt]
      rfl
    · next hlt =>
      split at h
      · exact absurd h (by simp)
      · next hne =>
        rw [if_neg hlt, if_neg hne, List.length_cons, List.length_cons, ih h]

theorem Sorted.alter (h : Sorted m) (k : K) (f : Option V → V) : Sorted (alter k f m) := by
  induction m with
  | nil => exact List.pairwise_singleton _ _
  | cons e m ih =>
    rw [OrderedMap.alter]
    split
    · next hlt =>
      refine List.pairwise_cons.mpr ⟨fun e' he' => ?_, h⟩
      obtain rfl | he' := List.mem_cons.mp he'
      · exact hlt
      · exact hlt.trans (h.head_lt he')
    · next hnlt =>
      split
      · next heq =>
        refine List.pairwise_cons.mpr ⟨fun e' he' => ?_, h.tail⟩
        show k < e'.1
        rw [heq]
        exact h.head_lt he'
      · next hne =>
        refine List.pairwise_cons.mpr ⟨fun e' he' => ?_, ih h.tail⟩
        obtain heq | he' := mem_alter he'
        · rw [heq]
          exact lt_of_le_of_ne (not_lt.mp hnlt) (Ne.symm hne)
        · exact h.head_lt he'

/-- Only the changed key has another value. -/
theorem Sorted.get_alter (h : Sorted m) (k k' : K) (f : Option V → V) :
    get k' (OrderedMap.alter k f m) = if k' = k then some (f (get k m)) else get k' m := by
  induction m with
  | nil =>
    by_cases hk : k' = k
    · simp [OrderedMap.alter, get, hk]
    · simp [OrderedMap.alter, get, hk]
  | cons e m ih =>
    rw [OrderedMap.alter]
    split
    · next hlt =>
      by_cases hk : k' = k
      · simp [get, hk, hlt]
      · rw [if_neg hk, get]
        split
        · next hlt' => rw [get, if_pos (hlt'.trans hlt)]
        · rfl
    · next hnlt =>
      split
      · next heq =>
        subst heq
        by_cases hk : k' = e.1
        · simp [get, hk]
        · rw [if_neg hk]
          simp only [get, if_neg hk]
      · next hne =>
        have hget : get k (e :: m) = get k m := by rw [get, if_neg hnlt, if_neg hne]
        rw [hget, get, ih h.tail]
        by_cases hk : k' = k
        · rw [hk, if_neg hnlt, if_neg hne, if_pos rfl, if_pos rfl]
        · simp only [if_neg hk]
          rw [get]

theorem Sorted.erase (h : Sorted m) (k : K) : Sorted (erase k m) := List.Pairwise.filter _ h

theorem mem_erase : e ∈ erase k m ↔ e ∈ m ∧ e.1 ≠ k := by
  rw [erase, List.mem_filter, decide_eq_true_eq]

/-- Up to the first greater key, every key is at most `k`, and behind it none is. -/
theorem Sorted.le_iff_mem_takeWhile (h : Sorted m) (he : e ∈ m) :
    e ∈ m.takeWhile (fun e => ¬k < e.1) ↔ e.1 ≤ k := by
  induction m with
  | nil => exact absurd he List.not_mem_nil
  | cons e0 m ih =>
    rw [List.takeWhile_cons]
    split
    · next hle =>
      have hle0 : e0.1 ≤ k := by simpa using hle
      obtain rfl | he := List.mem_cons.mp he
      · simp [hle0]
      · rw [List.mem_cons, ih h.tail he]
        constructor
        · intro hmem
          obtain rfl | hle := hmem
          · exact hle0
          · exact hle
        · exact .inr
    · next hlt =>
      have hlt0 : k < e0.1 := by simpa using hlt
      have hlt : k < e.1 := by
        obtain rfl | he := List.mem_cons.mp he
        · exact hlt0
        · exact hlt0.trans (h.head_lt he)
      simp [hlt]

/-- The entry that `floor` finds has the greatest key that is at most `k`. -/
theorem Sorted.floor_eq_some (h : Sorted m) (hfloor : floor k m = some e) :
    e ∈ m ∧ e.1 ≤ k ∧ ∀ e' ∈ m, e'.1 ≤ k → e'.1 ≤ e.1 := by
  obtain ⟨init, hinit⟩ := List.getLast?_eq_some_iff.mp hfloor
  have hsub : (m.takeWhile fun e => ¬k < e.1).Sublist m := (List.takeWhile_prefix _).sublist
  have hlast : e ∈ m.takeWhile fun e => ¬k < e.1 := by
    rw [hinit]
    exact List.mem_append_right init List.mem_cons_self
  have hmem := hsub.subset hlast
  refine ⟨hmem, (h.le_iff_mem_takeWhile hmem).mp hlast, fun e' he' hle' => ?_⟩
  have hbefore := (h.le_iff_mem_takeWhile he').mpr hle'
  have hsorted := h.sublist hsub
  rw [hinit] at hbefore hsorted
  obtain hbefore | hbefore := List.mem_append.mp hbefore
  · exact ((List.pairwise_append.mp hsorted).2.2 e' hbefore e List.mem_cons_self).le
  · rw [List.mem_singleton.mp hbefore]

/-- `floor` finds nothing where every key is greater. -/
theorem floor_eq_none (hfloor : floor k m = none) (h : Sorted m) (he : e ∈ m) : k < e.1 := by
  rw [floor, List.getLast?_eq_none_iff] at hfloor
  rw [← not_le, ← h.le_iff_mem_takeWhile he, hfloor]
  exact List.not_mem_nil

end OrderedMap

end Anon
