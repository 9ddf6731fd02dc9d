import Mathlib.Data.List.Perm.Basic
import Mathlib.Data.List.Nodup
import Mathlib.Data.Set.Insert

/-!
# Exclusive places

Every place of a system holds some elements, and no element is at two places. A step takes an
element from one place to another one, lets go of it, or brings in a new one; `held` and `held'` are
what the places hold before and after the step.

* `Exclusive.move`, `Exclusive.release`, `Exclusive.add`: these steps keep that.
* `Distributed.move`, `Distributed.add`: no element of a set gets lost, either.
* `transfer`, `discard`: a step to the end of another list, and one out of a list.
-/

namespace Anon

variable {ι α : Type*}

/-- No element is at two places, or twice at one. -/
structure Exclusive (held : ι → List α) : Prop where
  nodup : ∀ i, (held i).Nodup
  unique : ∀ i j x, x ∈ held i → x ∈ held j → i = j

/-- The places hold the elements of a set, each of them once. -/
structure Distributed (held : ι → List α) (S : Set α) : Prop extends Exclusive held where
  mem_iff : ∀ x, (∃ k, x ∈ held k) ↔ x ∈ S

variable {held held' : ι → List α} {i j k : ι} {x y : α} {S : Set α}

theorem Distributed.notMem (h : Distributed held S) (hx : x ∉ S) (k : ι) : x ∉ held k :=
  fun hk => hx ((h.mem_iff x).mp ⟨k, hk⟩)

/-- The order at a place does not matter. -/
theorem Distributed.congr (h : Distributed held S) (hperm : ∀ k, (held' k).Perm (held k)) :
    Distributed held' S := by
  refine ⟨⟨fun k => (hperm k).nodup_iff.mpr (h.nodup k), fun k l x hk hl => ?_⟩, fun x => ?_⟩
  · exact h.unique k l x ((hperm k).mem_iff.mp hk) ((hperm l).mem_iff.mp hl)
  · rw [← h.mem_iff x]
    exact exists_congr fun k => (hperm k).mem_iff

/-- Where elements were before an element has left a place. -/
theorem mem_of_release (hi : (held i).Perm (x :: held' i)) (hrest : ∀ k, k ≠ i → held' k = held k)
    (hy : y ∈ held' k) : y ∈ held k := by
  by_cases hk : k = i
  · subst hk
    exact hi.mem_iff.mpr (List.mem_cons_of_mem _ hy)
  · rwa [← hrest k hk]

theorem Exclusive.release (h : Exclusive held) (hi : (held i).Perm (x :: held' i))
    (hrest : ∀ k, k ≠ i → held' k = held k) : Exclusive held' := by
  constructor
  · intro k
    by_cases hk : k = i
    · subst hk
      exact (List.nodup_cons.mp (hi.nodup_iff.mp (h.nodup k))).2
    · rw [hrest k hk]
      exact h.nodup k
  · exact fun k l y hk hl =>
      h.unique k l y (mem_of_release hi hrest hk) (mem_of_release hi hrest hl)

theorem Exclusive.notMem_of_release (h : Exclusive held) (hi : (held i).Perm (x :: held' i))
    (hrest : ∀ k, k ≠ i → held' k = held k) (k : ι) : x ∉ held' k := by
  have hxi : x ∈ held i := hi.mem_iff.mpr List.mem_cons_self
  intro hx
  by_cases hk : k = i
  · subst hk
    exact (List.nodup_cons.mp (hi.nodup_iff.mp (h.nodup k))).1 hx
  · exact hk (h.unique k i x (mem_of_release hi hrest hx) hxi)

/-- Where elements were before an element has come to a place. -/
theorem mem_of_add (hj : (held' j).Perm (x :: held j)) (hrest : ∀ k, k ≠ j → held' k = held k)
    (hy : y ∈ held' k) : y = x ∧ k = j ∨ y ∈ held k := by
  by_cases hk : k = j
  · subst hk
    exact (List.mem_cons.mp (hj.mem_iff.mp hy)).imp_left fun hyx => ⟨hyx, rfl⟩
  · right
    rwa [← hrest k hk]

/-- The element is new, or has just left another place. -/
theorem Exclusive.add (h : Exclusive held) (hx : ∀ k, x ∉ held k)
    (hj : (held' j).Perm (x :: held j)) (hrest : ∀ k, k ≠ j → held' k = held k) :
    Exclusive held' := by
  constructor
  · intro k
    by_cases hk : k = j
    · subst hk
      exact hj.nodup_iff.mpr (List.nodup_cons.mpr ⟨hx k, h.nodup k⟩)
    · rw [hrest k hk]
      exact h.nodup k
  · intro k l y hk hl
    rcases mem_of_add hj hrest hk with ⟨rfl, rfl⟩ | hk
    · rcases mem_of_add hj hrest hl with ⟨-, rfl⟩ | hl
      · rfl
      · exact absurd hl (hx l)
    · rcases mem_of_add hj hrest hl with ⟨rfl, rfl⟩ | hl
      · exact absurd hk (hx k)
      · exact h.unique k l y hk hl

theorem Distributed.add (h : Distributed held S) (hx : x ∉ S)
    (hj : (held' j).Perm (x :: held j)) (hrest : ∀ k, k ≠ j → held' k = held k) :
    Distributed held' (insert x S) := by
  refine ⟨h.toExclusive.add (h.notMem hx) hj hrest, fun y => ⟨?_, ?_⟩⟩
  · rintro ⟨k, hk⟩
    rcases mem_of_add hj hrest hk with ⟨rfl, -⟩ | hk
    · exact Set.mem_insert _ _
    · exact Set.mem_insert_of_mem _ ((h.mem_iff y).mp ⟨k, hk⟩)
  · rintro (rfl | hy)
    · exact ⟨j, hj.mem_iff.mpr List.mem_cons_self⟩
    · obtain ⟨k, hk⟩ := (h.mem_iff y).mpr hy
      refine ⟨k, ?_⟩
      by_cases hkj : k = j
      · subst hkj
        exact hj.mem_iff.mpr (List.mem_cons_of_mem _ hk)
      · rwa [hrest k hkj]

theorem Distributed.release (h : Distributed held S) (hi : (held i).Perm (x :: held' i))
    (hrest : ∀ k, k ≠ i → held' k = held k) : Distributed held' (S \ {x}) := by
  refine ⟨h.toExclusive.release hi hrest, fun y => ⟨?_, ?_⟩⟩
  · rintro ⟨k, hk⟩
    refine ⟨(h.mem_iff y).mp ⟨k, mem_of_release hi hrest hk⟩, ?_⟩
    rintro rfl
    exact h.toExclusive.notMem_of_release hi hrest k hk
  · rintro ⟨hy, hyx⟩
    obtain ⟨k, hk⟩ := (h.mem_iff y).mpr hy
    refine ⟨k, ?_⟩
    by_cases hki : k = i
    · subst hki
      exact (List.mem_cons.mp (hi.mem_iff.mp hk)).resolve_left hyx
    · rwa [hrest k hki]

section Move

variable (hij : i ≠ j) (hi : (held i).Perm (x :: held' i)) (hj : (held' j).Perm (x :: held j))
  (hrest : ∀ k, k ≠ i → k ≠ j → held' k = held k)

include hij hi hj hrest

theorem Exclusive.move (h : Exclusive held) : Exclusive held' := by
  classical
  -- between the places, the element is nowhere
  have hi' : (held i).Perm (x :: Function.update held i (held' i) i) := by
    rwa [Function.update_self]
  have hrest' (k : ι) (hk : k ≠ i) : Function.update held i (held' i) k = held k :=
    Function.update_of_ne hk _ _
  have hj' : (held' j).Perm (x :: Function.update held i (held' i) j) := by
    rwa [Function.update_of_ne hij.symm]
  refine (h.release hi' hrest').add (h.notMem_of_release hi' hrest') hj' ?_
  intro k hk
  by_cases hki : k = i
  · subst hki
    rw [Function.update_self]
  · rw [Function.update_of_ne hki]
    exact hrest k hki hk

omit hij in
theorem exists_mem_move_iff : (∃ k, y ∈ held' k) ↔ ∃ k, y ∈ held k := by
  constructor
  · rintro ⟨k, hk⟩
    by_cases hkj : k = j
    · subst hkj
      rcases List.mem_cons.mp (hj.mem_iff.mp hk) with rfl | hk
      · exact ⟨i, hi.mem_iff.mpr List.mem_cons_self⟩
      · exact ⟨k, hk⟩
    · by_cases hki : k = i
      · subst hki
        exact ⟨k, hi.mem_iff.mpr (List.mem_cons_of_mem _ hk)⟩
      · exact ⟨k, by rwa [← hrest k hki hkj]⟩
  · rintro ⟨k, hk⟩
    by_cases hki : k = i
    · subst hki
      rcases List.mem_cons.mp (hi.mem_iff.mp hk) with rfl | hk
      · exact ⟨j, hj.mem_iff.mpr List.mem_cons_self⟩
      · exact ⟨k, hk⟩
    · by_cases hkj : k = j
      · subst hkj
        exact ⟨k, hj.mem_iff.mpr (List.mem_cons_of_mem _ hk)⟩
      · exact ⟨k, by rwa [hrest k hki hkj]⟩

theorem Distributed.move (h : Distributed held S) : Distributed held' S :=
  ⟨h.toExclusive.move hij hi hj hrest,
    fun x => (exists_mem_move_iff hi hj hrest).trans (h.mem_iff x)⟩

end Move

section Transfer

variable [DecidableEq ι] [DecidableEq α]

/-- An element goes to the end of another list. -/
def transfer (held : ι → List α) (x : α) (i j : ι) : ι → List α :=
  Function.update (Function.update held i ((held i).erase x)) j (held j ++ [x])

theorem transfer_source (hij : i ≠ j) : transfer held x i j i = (held i).erase x := by
  rw [transfer, Function.update_of_ne hij, Function.update_self]

theorem transfer_source_cons (hij : i ≠ j) {xs : List α} (hi : held i = x :: xs) :
    transfer held x i j i = xs := by
  rw [transfer_source hij, hi, List.erase_cons_head]

theorem transfer_target : transfer held x i j j = held j ++ [x] := Function.update_self _ _ _

theorem transfer_of_ne (hi : k ≠ i) (hj : k ≠ j) : transfer held x i j k = held k := by
  rw [transfer, Function.update_of_ne hj, Function.update_of_ne hi]

theorem Distributed.transfer (h : Distributed held S) (hij : i ≠ j) (hx : x ∈ held i) :
    Distributed (transfer held x i j) S := by
  apply h.move hij
  · rw [transfer_source hij]
    exact List.perm_cons_erase hx
  · rw [transfer_target]
    exact List.perm_append_singleton x (held j)
  · exact fun k hi hj => transfer_of_ne hi hj

omit [DecidableEq α] in
theorem Distributed.append (h : Distributed held S) (hx : x ∉ S) :
    Distributed (Function.update held j (held j ++ [x])) (insert x S) := by
  apply h.add hx
  · rw [Function.update_self]
    exact List.perm_append_singleton x (held j)
  · exact fun k hk => Function.update_of_ne hk _ _

/-- An element leaves a list. -/
def discard (held : ι → List α) (x : α) (i : ι) : ι → List α :=
  Function.update held i ((held i).erase x)

theorem discard_self : discard held x i i = (held i).erase x := Function.update_self _ _ _

theorem mem_discard_of_ne (hyx : y ≠ x) : y ∈ discard held x i i ↔ y ∈ held i := by
  rw [discard_self, List.mem_erase_of_ne hyx]

theorem Distributed.discard (h : Distributed held S) (hx : x ∈ held i) :
    Distributed (discard held x i) (S \ {x}) := by
  apply h.release
  · rw [discard_self]
    exact List.perm_cons_erase hx
  · exact fun k hk => Function.update_of_ne hk _ _

end Transfer

end Anon
