import Anon.Lib.Segment

/-!
# Families of intrusive lists

When every element has one link and there are many heads, an element can be on one list at a
time. `Family next head home lists` says that the heads enter the disjoint lists `lists`, and
that `home x` is the list that `x` is on.

* `Family.push`, `Family.pop`, `Family.append`: an element enters at the front, leaves from the
  front, enters at the end.
* `Family.splice`: a whole list is put in front of another one.
* `walk`: following the links to the last element, as a loop does it.
-/

namespace Anon

variable {α ι : Type*}

/-- The lists entered at the heads are the finite lists `lists`, and `home` tells which of them
an element is on. -/
structure Family (next : α → Option α) (head : ι → Option α) (home : α → Option ι)
    (lists : ι → List α) : Prop where
  seg : ∀ i, Seg next (head i) (lists i) none
  nodup : ∀ i, (lists i).Nodup
  mem : ∀ i x, x ∈ lists i ↔ home x = some i

/-- Follow `n` links from `x`; the element reached if its own link is null. -/
def walk (next : α → Option α) : ℕ → α → Option α
  | 0, x =>
    match next x with
    | none => some x
    | some _ => none
  | n + 1, x => (next x).bind (walk next n)

variable {next : α → Option α} {head : ι → Option α} {home : α → Option ι}
  {lists : ι → List α} {i j : ι} {x l : α}

/-- The walk ends at the last element of the list. -/
theorem Seg.getLast_of_walk {xs : List α} {n : ℕ} (h : Seg next (some x) xs none)
    (hw : walk next n x = some l) : xs.getLast? = some l := by
  induction n generalizing x xs with
  | zero =>
    cases xs with
    | nil => exact absurd h (by simp)
    | cons y ys =>
      rw [seg_cons] at h
      obtain ⟨hxy, hys⟩ := h
      have hxy' : x = y := by simpa using hxy
      subst hxy'
      rw [walk] at hw
      split at hw
      · next hx =>
        rw [hx] at hys
        have hnil : ys = [] := hys.head_eq_none_iff.mp rfl
        simpa [hnil] using hw
      · exact absurd hw (by simp)
  | succ n ih =>
    cases xs with
    | nil => exact absurd h (by simp)
    | cons y ys =>
      rw [seg_cons] at h
      obtain ⟨hxy, hys⟩ := h
      have hxy' : x = y := by simpa using hxy
      subst hxy'
      rw [walk, Option.bind_eq_some_iff] at hw
      obtain ⟨z, hz, hw⟩ := hw
      rw [hz] at hys
      have hlast := ih hys hw
      cases ys with
      | nil => simp at hlast
      | cons w ws => simpa using hlast

theorem Seg.head_cons {p : Option α} {xs : List α} (h : Seg next p xs none) (hp : p = some x) :
    ∃ ys, xs = x :: ys := by
  cases xs with
  | nil =>
    rw [seg_nil, hp] at h
    exact absurd h (by simp)
  | cons y ys =>
    rw [seg_cons, hp] at h
    have hxy : x = y := by simpa using h.1
    exact ⟨ys, by rw [hxy]⟩

/-- An element found from the head of a segment is one of its elements. -/
theorem Seg.mem_of_onList {p : Option α} {xs : List α} (h : Seg next p xs none)
    (hx : OnList next p x) : x ∈ xs := by
  obtain ⟨as, q, has⟩ := hx
  induction as generalizing p xs with
  | nil =>
    obtain ⟨ys, rfl⟩ := h.head_cons has.1
    exact List.mem_cons_self
  | cons a as ih =>
    obtain ⟨ys, rfl⟩ := h.head_cons has.1
    exact List.mem_cons_of_mem _ (ih h.2 has.2)

namespace Family

theorem onList_iff (h : Family next head home lists) :
    OnList next (head i) x ↔ home x = some i := by
  rw [← h.mem i x]
  exact ⟨(h.seg i).mem_of_onList, (h.seg i).onList⟩

theorem notMem (h : Family next head home lists) (hx : home x = none) : x ∉ lists i := by
  intro hmem
  rw [h.mem, hx] at hmem
  exact absurd hmem (by simp)

/-- The lists are what the links make of the heads, so only the values of `home` matter. -/
theorem congr {home' : α → Option ι} (h : Family next head home lists)
    (hh : ∀ x, home' x = home x) : Family next head home' lists :=
  ⟨h.seg, h.nodup, fun i x => by rw [hh x]; exact h.mem i x⟩

variable [DecidableEq α] [DecidableEq ι]

/-- `x->next = head; head = x` -/
theorem push (h : Family next head home lists) (hx : home x = none) :
    Family (Function.update next x (head i)) (Function.update head i (some x))
      (Function.update home x (some i)) (Function.update lists i (x :: lists i)) := by
  have hseg : ∀ j, Seg (Function.update next x (head i)) (head j) (lists j) none :=
    fun j => (h.seg j).update_of_notMem (h.notMem hx)
  constructor
  · intro j
    by_cases hj : j = i
    · subst hj
      rw [Function.update_self, Function.update_self]
      refine ⟨rfl, ?_⟩
      rw [Function.update_self]
      exact hseg j
    · rw [Function.update_of_ne hj, Function.update_of_ne hj]
      exact hseg j
  · intro j
    by_cases hj : j = i
    · subst hj
      rw [Function.update_self]
      exact List.nodup_cons.mpr ⟨h.notMem hx, h.nodup j⟩
    · rw [Function.update_of_ne hj]
      exact h.nodup j
  · intro j y
    by_cases hj : j = i
    · subst hj
      rw [Function.update_self, List.mem_cons, h.mem]
      by_cases hy : y = x
      · simp [hy]
      · simp [hy]
    · rw [Function.update_of_ne hj, h.mem]
      by_cases hy : y = x
      · simp [hy, hx, Ne.symm hj]
      · simp [hy]

/-- `head = head->next` -/
theorem pop (h : Family next head home lists) (hi : head i = some x) :
    Family next (Function.update head i (next x)) (Function.update home x none)
      (Function.update lists i (lists i).tail) := by
  obtain ⟨ys, hys⟩ := (h.seg i).head_cons hi
  have hseg := h.seg i
  have hnd := h.nodup i
  rw [hys, seg_cons] at hseg
  rw [hys, List.nodup_cons] at hnd
  rw [hys, List.tail_cons]
  constructor
  · intro j
    by_cases hj : j = i
    · subst hj
      rw [Function.update_self, Function.update_self]
      exact hseg.2
    · rw [Function.update_of_ne hj, Function.update_of_ne hj]
      exact h.seg j
  · intro j
    by_cases hj : j = i
    · subst hj
      rw [Function.update_self]
      exact hnd.2
    · rw [Function.update_of_ne hj]
      exact h.nodup j
  · intro j y
    have hxi : home x = some i := (h.mem i x).mp (by rw [hys]; exact List.mem_cons_self)
    by_cases hy : y = x
    · subst hy
      rw [Function.update_self]
      by_cases hj : j = i
      · subst hj
        simpa using hnd.1
      · rw [Function.update_of_ne hj, h.mem, hxi]
        simp [Ne.symm hj]
    · rw [Function.update_of_ne hy]
      by_cases hj : j = i
      · subst hj
        rw [Function.update_self, ← h.mem, hys, List.mem_cons]
        simp [hy]
      · rw [Function.update_of_ne hj]
        exact h.mem j y

omit [DecidableEq ι] in
/-- A write to the link of an element that is on no list. -/
theorem setNext {v : Option α} (h : Family next head home lists) (hx : home x = none) :
    Family (Function.update next x v) head home lists :=
  ⟨fun i => (h.seg i).update_of_notMem (h.notMem hx), h.nodup, h.mem⟩

/-- `last->next = x` where `x->next` is null -/
theorem append (h : Family next head home lists) (hx : home x = none) (hnx : next x = none)
    (hl : (lists i).getLast? = some l) :
    Family (Function.update next l (some x)) head
      (Function.update home x (some i)) (Function.update lists i (lists i ++ [x])) := by
  have hli : home l = some i := (h.mem i l).mp (List.mem_of_getLast? hl)
  have hlx : l ≠ x := by
    rintro rfl
    rw [hx] at hli
    exact absurd hli (by simp)
  constructor
  · intro j
    by_cases hj : j = i
    · subst hj
      rw [Function.update_self]
      apply ((h.seg j).setLast (h.nodup j) hl).append
      refine ⟨rfl, ?_⟩
      rw [Function.update_of_ne (Ne.symm hlx), hnx]
      exact rfl
    · rw [Function.update_of_ne hj]
      apply (h.seg j).update_of_notMem
      intro hlj
      rw [h.mem, hli] at hlj
      exact hj (by simpa using hlj.symm)
  · intro j
    by_cases hj : j = i
    · subst hj
      rw [Function.update_self]
      apply List.Nodup.append (h.nodup j) (List.nodup_singleton x)
      simpa using h.notMem hx
    · rw [Function.update_of_ne hj]
      exact h.nodup j
  · intro j y
    by_cases hj : j = i
    · subst hj
      rw [Function.update_self, List.mem_append, h.mem, List.mem_singleton]
      by_cases hy : y = x
      · simp [hy]
      · simp [hy]
    · rw [Function.update_of_ne hj, h.mem]
      by_cases hy : y = x
      · simp [hy, hx, Ne.symm hj]
      · simp [hy]

/-- `last->next = head'; head' = head; head = 0` -/
theorem splice (h : Family next head home lists) (hij : i ≠ j)
    (hl : (lists i).getLast? = some l) :
    Family (Function.update next l (head j))
      (Function.update (Function.update head j (head i)) i none)
      (fun x => if home x = some i then some j else home x)
      (Function.update (Function.update lists j (lists i ++ lists j)) i []) := by
  have hli : home l = some i := (h.mem i l).mp (List.mem_of_getLast? hl)
  have hother : ∀ k, k ≠ i → l ∉ lists k := by
    intro k hk hlk
    rw [h.mem, hli] at hlk
    exact hk (by simpa using hlk.symm)
  have hdisj : List.Disjoint (lists i) (lists j) := by
    intro x hxi hxj
    rw [h.mem] at hxi hxj
    exact hij (Option.some.inj (hxi.symm.trans hxj))
  constructor
  · intro k
    by_cases hki : k = i
    · subst hki
      simp
    · rw [Function.update_of_ne hki, Function.update_of_ne hki]
      by_cases hkj : k = j
      · subst hkj
        rw [Function.update_self, Function.update_self]
        apply ((h.seg i).setLast (h.nodup i) hl).append
        exact (h.seg k).update_of_notMem (hother k hki)
      · rw [Function.update_of_ne hkj, Function.update_of_ne hkj]
        exact (h.seg k).update_of_notMem (hother k hki)
  · intro k
    by_cases hki : k = i
    · subst hki
      simp
    · rw [Function.update_of_ne hki]
      by_cases hkj : k = j
      · subst hkj
        rw [Function.update_self]
        exact List.Nodup.append (h.nodup i) (h.nodup k) hdisj
      · rw [Function.update_of_ne hkj]
        exact h.nodup k
  · intro k y
    by_cases hki : k = i
    · subst hki
      by_cases hy : home y = some k
      · simp [hy, Ne.symm hij]
      · simp [hy]
    · rw [Function.update_of_ne hki]
      by_cases hkj : k = j
      · subst hkj
        rw [Function.update_self, List.mem_append, h.mem, h.mem]
        by_cases hy : home y = some i <;> simp [hy]
      · rw [Function.update_of_ne hkj, h.mem]
        by_cases hy : home y = some i
        · simp [hy, Ne.symm hki, Ne.symm hkj]
        · simp [hy]

end Family

end Anon
