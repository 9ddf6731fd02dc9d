import Mathlib

/-!
# Multimaps

A multimap is the list of its entries in the order of their keys; entries with equal keys stand
in the order of their insertion. `Sorted` is the invariant, which `insert` keeps, and says that
the first entry has the least key.
-/

namespace Anon

/-- The entries of a multimap from `K` to `V`, by key. -/
abbrev Multimap (K V : Type*) := List (K × V)

namespace Multimap

variable {K V : Type*} [LinearOrder K] {m m' : Multimap K V} {k k' : K} {v v' : V}

/-- Insert an entry behind the entries with a key that is not greater. -/
def insert (k : K) (v : V) : Multimap K V → Multimap K V
  | [] => [(k, v)]
  | e :: m => if k < e.1 then (k, v) :: e :: m else e :: insert k v m

/-- The entries from the first one with the key `k` on. -/
def find (k : K) (m : Multimap K V) : Multimap K V := m.dropWhile fun e => e.1 ≠ k

/-- The entries before the first one with the key `k`. -/
def before (k : K) (m : Multimap K V) : Multimap K V := m.takeWhile fun e => e.1 ≠ k

/-- The keys do not decrease. -/
def Sorted (m : Multimap K V) : Prop := m.Pairwise fun e e' => e.1 ≤ e'.1

theorem before_append_find (k : K) (m : Multimap K V) : before k m ++ find k m = m :=
  List.takeWhile_append_dropWhile

theorem perm_insert (k : K) (v : V) (m : Multimap K V) : (insert k v m).Perm ((k, v) :: m) := by
  induction m with
  | nil => exact List.Perm.refl _
  | cons e m ih =>
    unfold insert
    split
    · exact List.Perm.refl _
    · exact (ih.cons e).trans (List.Perm.swap (k, v) e m)

theorem Sorted.insert (h : Sorted m) (k : K) (v : V) : Sorted (insert k v m) := by
  induction m with
  | nil => exact List.pairwise_singleton _ _
  | cons e m ih =>
    obtain ⟨hle, hm⟩ := List.pairwise_cons.mp h
    unfold Multimap.insert
    split
    · next hk =>
      refine List.pairwise_cons.mpr ⟨fun e' he' => ?_, h⟩
      obtain rfl | he' := List.mem_cons.mp he'
      · exact hk.le
      · exact hk.le.trans (hle e' he')
    · next hk =>
      refine List.pairwise_cons.mpr ⟨fun e' he' => ?_, ih hm⟩
      obtain rfl | he' := List.mem_cons.mp ((perm_insert k v m).mem_iff.mp he')
      · exact not_lt.mp hk
      · exact hle e' he'

/-- The first entry has the least key. -/
theorem Sorted.head_le {e : K × V} (h : Sorted (e :: m)) {e' : K × V} (he' : e' ∈ e :: m) :
    e.1 ≤ e'.1 := by
  obtain rfl | he' := List.mem_cons.mp he'
  · exact le_rfl
  · exact (List.pairwise_cons.mp h).1 e' he'

theorem Sorted.sublist (h : Sorted m) (hs : m'.Sublist m) : Sorted m' := List.Pairwise.sublist hs h

/-- An insertion that does not come first leaves the first entry in place. -/
theorem head?_insert (k : K) (v : V) (m : Multimap K V) :
    (insert k v m).head? = some (k, v) ∨ (insert k v m).head? = m.head? := by
  cases m with
  | nil => exact .inl rfl
  | cons e m =>
    unfold insert
    split
    · exact .inl rfl
    · exact .inr rfl

/-- The first entry with a key, if there is one, is where `find` stops. -/
theorem head?_find (k : K) (m : Multimap K V) :
    (find k m).head? = List.find? (fun e => decide (e.1 = k)) m := by
  induction m with
  | nil => rfl
  | cons e m ih =>
    by_cases he : e.1 = k
    · rw [find, List.dropWhile_cons_of_neg (by simpa using he),
        List.find?_cons_of_pos (by simpa using he)]
      rfl
    · rw [find, List.dropWhile_cons_of_pos (by simpa using he),
        List.find?_cons_of_neg (by simpa using he), ← ih]
      rfl

/-- An insertion goes behind the entries with its key. -/
theorem Sorted.filter_insert (h : Sorted m) (k k' : K) (v : V) :
    (Multimap.insert k' v m).filter (fun e => decide (e.1 = k)) =
      m.filter (fun e => decide (e.1 = k)) ++ if k' = k then [(k', v)] else [] := by
  induction m with
  | nil =>
    show List.filter _ [(k', v)] = _
    by_cases hk : k' = k <;> simp [hk]
  | cons e m ih =>
    obtain ⟨hle, hm⟩ := List.pairwise_cons.mp h
    unfold Multimap.insert
    split
    · next hlt =>
      by_cases hk : k' = k
      · -- none of the entries behind has the key
        have hnone : List.filter (fun e => decide (e.1 = k)) (e :: m) = [] := by
          apply List.filter_eq_nil_iff.mpr
          intro e' he' heq
          have hge : e.1 ≤ e'.1 := h.head_le he'
          rw [of_decide_eq_true heq, ← hk] at hge
          exact absurd hlt (not_lt.mpr hge)
        rw [List.filter_cons_of_pos (by simpa using hk), hnone, if_pos hk, List.nil_append]
      · rw [List.filter_cons_of_neg (by simpa using hk), if_neg hk, List.append_nil]
    · by_cases he : e.1 = k
      · rw [List.filter_cons_of_pos (by simpa using he),
          List.filter_cons_of_pos (by simpa using he), ih hm, List.cons_append]
      · rw [List.filter_cons_of_neg (by simpa using he),
          List.filter_cons_of_neg (by simpa using he), ih hm]

/-- The first entry with a key stays the first one. -/
theorem Sorted.head?_find_insert (h : Sorted m) (k k' : K) (v : V) :
    (find k (Multimap.insert k' v m)).head? =
      (find k m).head?.or (if k' = k then some (k', v) else none) := by
  rw [head?_find, head?_find, ← List.head?_filter, ← List.head?_filter, h.filter_insert,
    List.head?_append]
  split <;> rfl

end Multimap

end Anon
