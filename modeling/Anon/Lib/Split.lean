import Mathlib.Data.List.TakeWhile
import Mathlib.Order.Basic

/-!
# Texts with separators

A scan over the items of a text goes from the start of one item to the start of the next one,
behind the next separator. It compares with the text split at the separator.

* `split_induction`: a text is one item, or an item, a separator and a text.
* `starts`: the rest of the text, at the start of each item.
* `splitOn_eq_map_starts`: the items are what is in front of the next separator.
* `find?_and_of_pairwise`: a search that goes on only as long as enough of the text is left.
* `find?_starts_eq_some`: what is in front of the item that a search finds.
* `intercalate_append`: items put together again.
-/

namespace Anon

section Split

variable {α : Type*} [DecidableEq α] {sep : α} {part rest s t : List α}

/-- A text is one item, or there is a separator behind its first item. -/
theorem split_cases (sep : α) (s : List α) :
    sep ∉ s ∨ ∃ part rest, sep ∉ part ∧ s = part ++ sep :: rest := by
  by_cases h : sep ∈ s
  · right
    obtain ⟨part, rest, hs, hpart⟩ := List.eq_append_cons_of_mem h
    exact ⟨part, rest, hpart, hs⟩
  · exact Or.inl h

/-- Induction over the items of a text, from the last one to the first. -/
theorem split_induction (sep : α) {motive : List α → Prop}
    (last : ∀ part, sep ∉ part → motive part)
    (more : ∀ part rest, sep ∉ part → motive rest → motive (part ++ sep :: rest)) (s : List α) :
    motive s := by
  induction hlen : s.length using Nat.strongRecOn generalizing s with
  | _ n ih =>
    obtain h | ⟨part, rest, hpart, hs⟩ := split_cases sep s
    · exact last s h
    · rw [hs]
      apply more part rest hpart
      have hlt : rest.length < n := by
        rw [← hlen, hs, List.length_append, List.length_cons]
        omega
      exact ih rest.length hlt rest rfl

/-! ## Items and their starts -/

/-- The item at the front of a text. -/
def firstItem (sep : α) (s : List α) : List α := s.takeWhile fun c => c ≠ sep

theorem forall_ne_of_notMem (h : sep ∉ part) : ∀ c ∈ part, decide (c ≠ sep) = true := by
  intro c hc
  apply decide_eq_true
  intro heq
  exact h (heq ▸ hc)

theorem firstItem_of_notMem (h : sep ∉ part) : firstItem sep part = part := by
  rw [firstItem, List.takeWhile_eq_self_iff]
  exact forall_ne_of_notMem h

theorem firstItem_append (h : sep ∉ part) (s : List α) :
    firstItem sep (part ++ s) = part ++ firstItem sep s := by
  rw [firstItem, List.takeWhile_append_of_pos (forall_ne_of_notMem h), firstItem]

theorem firstItem_append_cons (h : sep ∉ part) (rest : List α) :
    firstItem sep (part ++ sep :: rest) = part := by
  rw [firstItem_append h, firstItem, List.takeWhile_cons_of_neg (by simp), List.append_nil]

/-- What is left behind an item: the separator and what follows. -/
theorem dropWhile_append_cons (h : sep ∉ part) (rest : List α) :
    (part ++ sep :: rest).dropWhile (fun c => c ≠ sep) = sep :: rest := by
  rw [List.dropWhile_append_of_pos (forall_ne_of_notMem h), List.dropWhile_cons_of_neg (by simp)]

theorem dropWhile_of_notMem (h : sep ∉ part) : part.dropWhile (fun c => c ≠ sep) = [] :=
  List.dropWhile_eq_nil_iff.mpr (forall_ne_of_notMem h)

/-- What is behind each separator of a text. -/
def behind (sep : α) : List α → List (List α)
  | [] => []
  | c :: s => if c = sep then s :: behind sep s else behind sep s

/-- The rest of a text, at the start of each of its items. -/
def starts (sep : α) (s : List α) : List (List α) := s :: behind sep s

theorem starts_of_notMem (h : sep ∉ part) : starts sep part = [part] := by
  have hnone : behind sep part = [] := by
    induction part with
    | nil => rfl
    | cons c part ih =>
      rw [List.mem_cons, not_or] at h
      rw [behind, if_neg (Ne.symm h.1)]
      exact ih h.2
  rw [starts, hnone]

theorem starts_append_cons (h : sep ∉ part) (rest : List α) :
    starts sep (part ++ sep :: rest) = (part ++ sep :: rest) :: starts sep rest := by
  have hbehind : behind sep (part ++ sep :: rest) = starts sep rest := by
    induction part with
    | nil => rw [List.nil_append, behind, if_pos rfl, starts]
    | cons c part ih =>
      rw [List.mem_cons, not_or] at h
      rw [List.cons_append, behind, if_neg (Ne.symm h.1)]
      exact ih h.2
  rw [starts, hbehind]

/-- The items are what is in front of the next separator, at each start. -/
theorem splitOn_eq_map_starts (sep : α) (s : List α) :
    s.splitOn sep = (starts sep s).map (firstItem sep) := by
  induction s using split_induction sep with
  | last part h =>
    rw [List.splitOn_eq_singleton h, starts_of_notMem h, List.map_singleton, firstItem_of_notMem h]
  | more part rest h ih =>
    rw [List.splitOn_append_cons_self_of_not_mem h, starts_append_cons h, List.map_cons,
      firstItem_append_cons h, ih]

theorem length_le_of_mem_starts (h : t ∈ starts sep s) : t.length ≤ s.length := by
  induction s using split_induction sep with
  | last part hpart =>
    rw [starts_of_notMem hpart, List.mem_singleton] at h
    rw [h]
  | more part rest hpart ih =>
    rw [starts_append_cons hpart, List.mem_cons] at h
    rcases h with rfl | h
    · exact Nat.le_refl _
    · have hle := ih h
      rw [List.length_append, List.length_cons]
      omega

/-- From one start to the next one, the rest of the text gets shorter. -/
theorem pairwise_starts (sep : α) (s : List α) :
    (starts sep s).Pairwise fun t t' => t'.length < t.length := by
  induction s using split_induction sep with
  | last part h =>
    rw [starts_of_notMem h]
    exact List.pairwise_singleton _ _
  | more part rest h ih =>
    rw [starts_append_cons h, List.pairwise_cons]
    refine ⟨?_, ih⟩
    intro t ht
    have hle := length_le_of_mem_starts ht
    rw [List.length_append, List.length_cons]
    omega

/-- Where a search over the items stops: in front of it are whole items, none of which it was
looking for. -/
theorem find?_starts_eq_some {n : List α → Bool}
    (h : (starts sep s).find? (fun t => n (firstItem sep t)) = some t) :
    ∃ before : List (List α), s = (before.map (· ++ [sep])).flatten ++ t ∧
      s.splitOn sep = before ++ t.splitOn sep ∧ (∀ b ∈ before, n b = false) ∧
        n (firstItem sep t) = true := by
  induction s using split_induction sep with
  | last part hpart =>
    rw [starts_of_notMem hpart] at h
    have hmem := List.mem_of_find?_eq_some h
    have hfound := List.find?_some (p := fun t => n (firstItem sep t)) h
    rw [List.mem_singleton] at hmem
    refine ⟨[], ?_, ?_, fun b hb => absurd hb List.not_mem_nil, hfound⟩
    · rw [hmem]
      rfl
    · rw [hmem]
      rfl
  | more part rest hpart ih =>
    rw [starts_append_cons hpart, List.find?_cons, firstItem_append_cons hpart] at h
    cases hn : n part with
    | true =>
      rw [hn] at h
      have ht := Option.some.inj h
      refine ⟨[], ?_, ?_, fun b hb => absurd hb List.not_mem_nil, ?_⟩
      · rw [← ht]
        rfl
      · rw [← ht]
        rfl
      · rw [← ht, firstItem_append_cons hpart, hn]
    | false =>
      rw [hn] at h
      obtain ⟨before, hs, hitems, hbefore, hfound⟩ := ih h
      refine ⟨part :: before, ?_, ?_, ?_, hfound⟩
      · rw [List.map_cons, List.flatten_cons, List.append_assoc, ← hs]
        simp only [List.append_assoc, List.singleton_append]
      · rw [List.splitOn_append_cons_self_of_not_mem hpart, hitems, List.cons_append]
      · intro b hb
        rcases List.mem_cons.mp hb with rfl | hb
        · exact hn
        · exact hbefore b hb

omit [DecidableEq α] in
/-- Items in front of other items, put together with separators. -/
theorem intercalate_append {items : List (List α)} (h : items ≠ []) (before : List (List α)) :
    [sep].intercalate (before ++ items) =
      (before.map (· ++ [sep])).flatten ++ [sep].intercalate items := by
  induction before with
  | nil => rfl
  | cons part before ih =>
    have hne : before ++ items ≠ [] := by
      intro hnil
      exact h (List.append_eq_nil_iff.mp hnil).2
    rw [List.cons_append, List.intercalate_cons_of_ne_nil hne, ih, List.map_cons,
      List.flatten_cons, List.append_assoc, List.append_assoc, List.append_assoc]

end Split

/-! ## Searches that end early -/

/-- If what makes a search end keeps holding, the search finds the first hit, unless it has ended
by then. -/
theorem find?_and_of_pairwise {β : Type*} {l : List β} {p q : β → Bool}
    (h : l.Pairwise fun a b => q b = true → q a = true) :
    l.find? (fun a => q a && p a) = (l.find? p).filter q := by
  induction l with
  | nil => rfl
  | cons a l ih =>
    obtain ⟨hhead, htail⟩ := List.pairwise_cons.mp h
    rw [List.find?_cons, List.find?_cons, ih htail]
    cases hp : p a with
    | false => rw [Bool.and_false]
    | true =>
      cases hq : q a with
      | true =>
        show some a = (some a).filter q
        rw [Option.filter, hq, if_pos rfl]
      | false =>
        -- the search has ended here, so it ends at every later hit
        rw [Bool.and_true]
        show (l.find? p).filter q = (some a).filter q
        have hnone : (l.find? p).filter q = none := by
          cases hfind : l.find? p with
          | none => rfl
          | some b =>
            have hb : q b = false := by
              by_contra hb
              have ha := hhead b (List.mem_of_find?_eq_some hfind) (by simpa using hb)
              rw [hq] at ha
              exact absurd ha (by simp)
            rw [Option.filter, hb, if_neg (by simp)]
        rw [hnone, Option.filter, hq, if_neg (by simp)]

end Anon
