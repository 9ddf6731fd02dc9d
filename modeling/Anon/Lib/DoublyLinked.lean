import Anon.Lib.Segment

/-!
# Doubly linked intrusive lists

A list whose elements carry both links, with a pointer to the first element, as in
`Anon.Lib.Segment`, where the elements carry one.

* `Links.Chain`: a segment of such a list. `Links.chain_append` takes it apart.
* `Links.IsList`: following the links from the first element visits these elements, and every
  element has the link back to the one before it.
* `IsList.pushFront`, `IsList.unlink`: an element enters at the front and leaves from anywhere.
* `unlink_of_self`: an element whose links lead to itself leaves without any effect.
* `follow`: the elements that a loop over the list visits.
-/

namespace Anon

/-- The links of the elements, and the pointer to the first one. -/
structure Links (α : Type*) where
  next : α → Option α
  prev : α → Option α
  first : Option α

namespace Links

variable {α : Type*}

section Writes

variable [DecidableEq α]

def setNext (L : Links α) (x : α) (p : Option α) : Links α :=
  { L with next := Function.update L.next x p }

def setPrev (L : Links α) (x : α) (p : Option α) : Links α :=
  { L with prev := Function.update L.prev x p }

/-- A new element goes to the front. -/
def pushFront (L : Links α) (x : α) : Links α :=
  let L := L.setNext x L.first
  let L := match L.next x with
    | some n => L.setPrev n (some x)
    | none => L
  { L.setPrev x none with first := some x }

/-- The neighbours of an element are linked to each other. -/
def unlink (L : Links α) (x : α) : Links α :=
  let L := match L.next x with
    | some n => L.setPrev n (L.prev x)
    | none => L
  match L.prev x with
  | some p => L.setNext p (L.next x)
  | none => { L with first := L.next x }

/-- Both links lead to the element itself. -/
def selfLink (L : Links α) (x : α) : Links α := (L.setNext x (some x)).setPrev x (some x)

end Writes

variable {L L' : Links α} {b b' e e' p q q' : Option α} {x y : α} {xs ys : List α}

/-- The elements `xs` are linked in both directions. The pointer `p` leads to the first of them,
which comes after `b`; the last one, which is `e`, is followed by `q`. -/
def Chain (L : Links α) : Option α → Option α → List α → Option α → Option α → Prop
  | b, p, [], e, q => e = b ∧ p = q
  | b, p, x :: xs, e, q => p = some x ∧ L.prev x = b ∧ Chain L (some x) (L.next x) xs e q

@[simp] theorem chain_nil : L.Chain b p [] e q ↔ e = b ∧ p = q := Iff.rfl

@[simp] theorem chain_cons : L.Chain b p (x :: xs) e q ↔
    p = some x ∧ L.prev x = b ∧ L.Chain (some x) (L.next x) xs e q := Iff.rfl

theorem chain_append : L.Chain b p (xs ++ ys) e q ↔
    ∃ m r, L.Chain b p xs m r ∧ L.Chain m r ys e q := by
  induction xs generalizing b p with
  | nil =>
    constructor
    · exact fun h => ⟨b, p, ⟨rfl, rfl⟩, h⟩
    · rintro ⟨m, r, ⟨rfl, rfl⟩, h⟩
      exact h
  | cons x xs ih =>
    rw [List.cons_append, chain_cons, ih]
    constructor
    · rintro ⟨hp, hb, m, r, hxs, hys⟩
      exact ⟨m, r, ⟨hp, hb, hxs⟩, hys⟩
    · rintro ⟨m, r, ⟨hp, hb, hxs⟩, hys⟩
      exact ⟨hp, hb, m, r, hxs, hys⟩

theorem Chain.seg (h : L.Chain b p xs e q) : Seg L.next p xs q := by
  induction xs generalizing b p with
  | nil => exact h.2
  | cons x xs ih => exact ⟨h.1, ih h.2.2⟩

/-- Only the links of the elements matter. -/
theorem Chain.congr (h : L.Chain b p xs e q) (hnext : ∀ y ∈ xs, L'.next y = L.next y)
    (hprev : ∀ y ∈ xs, L'.prev y = L.prev y) : L'.Chain b p xs e q := by
  induction xs generalizing b p with
  | nil => exact h
  | cons x xs ih =>
    obtain ⟨hp, hb, hxs⟩ := h
    refine ⟨hp, (hprev x List.mem_cons_self).trans hb, ?_⟩
    rw [hnext x List.mem_cons_self]
    exact ih hxs (fun y hy => hnext y (List.mem_cons_of_mem _ hy))
      (fun y hy => hprev y (List.mem_cons_of_mem _ hy))

/-- The last element. -/
theorem Chain.last (h : L.Chain b p xs e q) : e = xs.getLast?.or b := by
  induction xs generalizing b p with
  | nil => exact h.1
  | cons x xs ih =>
    rw [ih h.2.2, List.getLast?_cons]
    cases xs.getLast? <;> rfl

/-- A chain leads to one of its elements, or past its end. -/
theorem Chain.ne_of_notMem (h : L.Chain b p xs e none) (hx : x ∉ xs) : p ≠ some x := by
  cases xs with
  | nil =>
    rw [h.2]
    exact (Option.some_ne_none x).symm
  | cons y ys =>
    rw [h.1]
    exact fun hyx => hx (by rw [Option.some.inj hyx]; exact List.mem_cons_self)

/-- A whole list. -/
def IsList (L : Links α) (xs : List α) : Prop := ∃ e, L.Chain none L.first xs e none

theorem IsList.seg (h : L.IsList xs) : Seg L.next L.first xs none := by
  obtain ⟨e, h⟩ := h
  exact h.seg

theorem IsList.congr (h : L.IsList xs) (hfirst : L'.first = L.first)
    (hnext : ∀ y ∈ xs, L'.next y = L.next y) (hprev : ∀ y ∈ xs, L'.prev y = L.prev y) :
    L'.IsList xs := by
  obtain ⟨e, h⟩ := h
  rw [← hfirst] at h
  exact ⟨e, h.congr hnext hprev⟩

/-! ## Going through a list -/

/-- The first `n` elements that the links lead to. -/
def follow (next : α → Option α) : ℕ → Option α → List α
  | n + 1, some x => x :: follow next n (next x)
  | _, _ => []

/-- Only the links of the elements matter. -/
theorem seg_congr {next next' : α → Option α} (h : Seg next p xs q)
    (hnext : ∀ y ∈ xs, next' y = next y) : Seg next' p xs q := by
  induction xs generalizing p with
  | nil => exact h
  | cons x xs ih =>
    refine ⟨h.1, ?_⟩
    rw [hnext x List.mem_cons_self]
    exact ih h.2 fun y hy => hnext y (List.mem_cons_of_mem _ hy)

theorem head_of_seg {next : α → Option α} (h : Seg next p xs none) : p = xs.head? := by
  cases xs with
  | nil => exact h
  | cons x xs => exact h.1

theorem follow_of_seg {next : α → Option α} {n : ℕ} (h : Seg next p xs none)
    (hn : xs.length ≤ n) : follow next n p = xs := by
  induction xs generalizing n p with
  | nil =>
    rw [seg_nil] at h
    rw [h]
    cases n <;> rfl
  | cons x xs ih =>
    cases n with
    | zero => exact absurd hn (Nat.not_succ_le_zero _)
    | succ n =>
      rw [h.1]
      show x :: follow next n (next x) = x :: xs
      rw [ih h.2 (Nat.le_of_succ_le_succ hn)]

/-! ## Writes -/

variable [DecidableEq α]

/-- Writes to an element that is not on the list. -/
theorem IsList.setNext (h : L.IsList xs) (hx : x ∉ xs) (v : Option α) :
    (L.setNext x v).IsList xs :=
  h.congr rfl (fun y hy => Function.update_of_ne (fun hyx => hx (by rwa [← hyx])) _ _)
    fun _ _ => rfl

theorem IsList.selfLink (h : L.IsList xs) (hx : x ∉ xs) : (L.selfLink x).IsList xs :=
  h.congr rfl (fun y hy => Function.update_of_ne (fun hyx => hx (by rwa [← hyx])) _ _)
    fun y hy => Function.update_of_ne (fun hyx => hx (by rwa [← hyx])) _ _

/-- The link back of the first element. -/
theorem Chain.setPrev_head (h : L.Chain b (some x) (x :: xs) e q) (hx : x ∉ xs) :
    (L.setPrev x b').Chain b' (some x) (x :: xs) e q := by
  refine ⟨rfl, Function.update_self _ _ _, h.2.2.congr (fun _ _ => rfl) fun y hy => ?_⟩
  exact Function.update_of_ne (fun hyx => hx (by rwa [← hyx])) _ _

/-- The link of the last element. -/
theorem Chain.setNext_last (h : L.Chain b p (xs ++ [x]) e q) (hx : x ∉ xs) :
    (L.setNext x q').Chain b p (xs ++ [x]) e q' := by
  obtain ⟨m, r, hxs, hr, hm, he, -⟩ := chain_append.mp h
  refine chain_append.mpr ⟨m, r, hxs.congr (fun y hy => ?_) fun _ _ => rfl, hr, hm, he,
    Function.update_self _ _ _⟩
  exact Function.update_of_ne (fun hyx => hx (by rwa [← hyx])) _ _

theorem pushFront_next (L : Links α) (x : α) :
    (L.pushFront x).next = Function.update L.next x L.first := by
  unfold pushFront
  cases h : (L.setNext x L.first).next x <;> simp only [h] <;> rfl

theorem pushFront_prev_of_some (h : L.first = some y) :
    (L.pushFront x).prev = Function.update (Function.update L.prev y (some x)) x none := by
  have hnext : (L.setNext x L.first).next x = some y := (Function.update_self _ _ _).trans h
  unfold pushFront
  simp only [hnext]
  rfl

theorem pushFront_prev_self (L : Links α) (x : α) : (L.pushFront x).prev x = none :=
  Function.update_self _ _ _

theorem IsList.pushFront (h : L.IsList xs) (hnd : xs.Nodup) (hx : x ∉ xs) :
    (L.pushFront x).IsList (x :: xs) := by
  have hnext : (L.pushFront x).next x = L.first := by
    rw [pushFront_next, Function.update_self]
  obtain ⟨e, h⟩ := h
  cases xs with
  | nil =>
    refine ⟨some x, rfl, pushFront_prev_self L x, rfl, ?_⟩
    rw [hnext]
    exact h.2
  | cons y ys =>
    obtain ⟨hfirst, -, hys⟩ := h
    have hne (z : α) (hz : z ∈ y :: ys) : z ≠ x := fun hzx => hx (by rwa [← hzx])
    have hnext' (z : α) (hz : z ∈ y :: ys) : (L.pushFront x).next z = L.next z := by
      rw [pushFront_next, Function.update_of_ne (hne z hz)]
    refine ⟨e, rfl, pushFront_prev_self L x, ?_, ?_, ?_⟩
    · rw [hnext]
      exact hfirst
    · rw [pushFront_prev_of_some hfirst, Function.update_of_ne (hne y List.mem_cons_self),
        Function.update_self]
    · rw [hnext' y List.mem_cons_self]
      apply hys.congr
      · exact fun z hz => hnext' z (List.mem_cons_of_mem _ hz)
      · intro z hz
        have hzy : z ≠ y := fun hzy => (List.nodup_cons.mp hnd).1 (by rwa [← hzy])
        have hzx : z ≠ x := hne z (List.mem_cons_of_mem _ hz)
        rw [pushFront_prev_of_some hfirst, Function.update_of_ne hzx, Function.update_of_ne hzy]

/-! ## Elements that leave -/

/-- The first half of `unlink`. -/
def relinkPrev (L : Links α) (p b : Option α) : Links α :=
  match p with
  | some n => L.setPrev n b
  | none => L

/-- The second half. -/
def relinkNext (L : Links α) (b p : Option α) : Links α :=
  match b with
  | some y => L.setNext y p
  | none => { L with first := p }

theorem unlink_eq (L : Links α) (x : α) : L.unlink x =
    (L.relinkPrev (L.next x) (L.prev x)).relinkNext
      ((L.relinkPrev (L.next x) (L.prev x)).prev x)
      ((L.relinkPrev (L.next x) (L.prev x)).next x) := rfl

theorem relinkPrev_next (p b : Option α) : (L.relinkPrev p b).next = L.next := by
  cases p <;> rfl

theorem relinkPrev_first (p b : Option α) : (L.relinkPrev p b).first = L.first := by
  cases p <;> rfl

theorem relinkPrev_prev (hp : p ≠ some y) : (L.relinkPrev p b).prev y = L.prev y := by
  cases p with
  | none => rfl
  | some n => exact Function.update_of_ne (fun hyn => hp (by rw [hyn])) _ _

theorem Chain.relinkPrev (h : L.Chain b p ys e none) (hnd : ys.Nodup) :
    ∃ e', (L.relinkPrev p b').Chain b' p ys e' none := by
  cases ys with
  | nil => exact ⟨b', rfl, h.2⟩
  | cons y ys =>
    obtain ⟨rfl, -, hys⟩ := h
    exact ⟨e, Chain.setPrev_head ⟨rfl, rfl, hys⟩ (List.nodup_cons.mp hnd).1⟩

/-- The element that links to itself. -/
theorem unlink_of_self (hnext : L.next x = some x) (hprev : L.prev x = some x) :
    L.unlink x = L := by
  have hsame : L.relinkPrev (L.next x) (L.prev x) = L := by
    rw [hnext]
    show { L with prev := Function.update L.prev x (L.prev x) } = L
    rw [Function.update_eq_self]
  rw [unlink_eq, hsame, hprev]
  show { L with next := Function.update L.next x (L.next x) } = L
  rw [Function.update_eq_self]

theorem IsList.unlink (h : L.IsList xs) (hnd : xs.Nodup) (hx : x ∈ xs) :
    (L.unlink x).IsList (xs.erase x) := by
  obtain ⟨as, bs, rfl⟩ := List.append_of_mem hx
  obtain ⟨hnas, hnbs, hdisj⟩ := List.nodup_append.mp hnd
  rw [List.nodup_cons] at hnbs
  have hxas : x ∉ as := fun hmem => hdisj x hmem x List.mem_cons_self rfl
  have hnot (y : α) (hy : y ∈ as) : y ∉ bs :=
    fun hmem => hdisj y hy y (List.mem_cons_of_mem _ hmem) rfl
  rw [List.erase_append_right _ hxas, List.erase_cons_head]
  obtain ⟨e, h⟩ := h
  obtain ⟨m, r, has, hr, hm, hbs⟩ := chain_append.mp h
  -- the first write changes only the link back of what comes next
  have hprev (y : α) (hy : y ∉ bs) : (L.relinkPrev (L.next x) (L.prev x)).prev y = L.prev y :=
    relinkPrev_prev (hbs.ne_of_notMem hy)
  have hback : ∃ e', (L.relinkPrev (L.next x) (L.prev x)).Chain (L.prev x) (L.next x) bs e' none :=
    hbs.relinkPrev hnbs.2
  obtain ⟨e', hbs'⟩ := hback
  have has' : (L.relinkPrev (L.next x) (L.prev x)).Chain none L.first as m (some x) := by
    apply (hr ▸ has).congr
    · exact fun y _ => by rw [relinkPrev_next]
    · exact fun y hy => hprev y (hnot y hy)
  rw [unlink_eq, hprev x hnbs.1, relinkPrev_next, hm]
  rw [hm] at hbs' has'
  rcases List.eq_nil_or_concat as with rfl | ⟨as, y, rfl⟩
  · obtain ⟨rfl, -⟩ := has'
    exact ⟨e', hbs'.congr (fun _ _ => rfl) fun _ _ => rfl⟩
  · rw [List.concat_eq_append] at has' hnas hnot ⊢
    have hlast : m = some y := by
      rw [has'.last, List.getLast?_append]
      rfl
    have hyas : y ∉ as := fun hmem =>
      (List.nodup_append.mp hnas).2.2 y hmem y List.mem_cons_self rfl
    subst hlast
    refine ⟨e', chain_append.mpr ⟨some y, L.next x, ?_, ?_⟩⟩
    · show Chain (Links.setNext _ y _) none (Links.relinkPrev L _ _).first _ _ _
      rw [relinkPrev_first]
      exact has'.setNext_last hyas
    · refine hbs'.congr (fun z hz => ?_) fun _ _ => rfl
      have hzy : z ≠ y := fun hzy => hnot y (List.mem_append_right _ List.mem_cons_self)
        (by rwa [← hzy])
      exact Function.update_of_ne hzy _ _

/-- What `pushFront` leaves alone. -/
theorem IsList.pushFront_of_notMem (h : L.IsList xs) (hyx : y ≠ x) (hy : y ∉ xs) :
    (L.pushFront x).next y = L.next y ∧ (L.pushFront x).prev y = L.prev y := by
  rw [pushFront_next, Function.update_of_ne hyx]
  refine ⟨rfl, ?_⟩
  obtain ⟨e, h⟩ := h
  cases hfirst : L.first with
  | none =>
    unfold Links.pushFront
    simp [Links.setNext, Links.setPrev, hfirst, hyx]
  | some z =>
    have hyz : y ≠ z := fun hyz => h.ne_of_notMem hy (by rw [hfirst, hyz])
    rw [pushFront_prev_of_some hfirst, Function.update_of_ne hyx, Function.update_of_ne hyz]

theorem relinkNext_next (hb : b ≠ some y) : (L.relinkNext b p).next y = L.next y := by
  cases b with
  | none => rfl
  | some z => exact Function.update_of_ne (fun hyz => hb (by rw [hyz])) _ _

theorem relinkNext_prev (b p : Option α) : (L.relinkNext b p).prev = L.prev := by
  cases b <;> rfl

/-- What `unlink` leaves alone. -/
theorem IsList.unlink_of_notMem (h : L.IsList xs) (hnd : xs.Nodup) (hx : x ∈ xs) (hy : y ∉ xs) :
    (L.unlink x).next y = L.next y ∧ (L.unlink x).prev y = L.prev y := by
  obtain ⟨as, bs, rfl⟩ := List.append_of_mem hx
  rw [List.mem_append, List.mem_cons, not_or, not_or] at hy
  have hxbs : x ∉ bs := (List.nodup_cons.mp (List.nodup_append.mp hnd).2.1).1
  obtain ⟨e, h⟩ := h
  obtain ⟨m, r, has, -, hm, hbs⟩ := chain_append.mp h
  have hmy : m ≠ some y := by
    intro hmy
    rw [has.last, Option.or_none] at hmy
    exact hy.1 (List.mem_of_getLast? hmy)
  rw [unlink_eq, relinkPrev_prev (hbs.ne_of_notMem hxbs), hm, relinkNext_next hmy, relinkPrev_next,
    relinkNext_prev, relinkPrev_prev (hbs.ne_of_notMem hy.2.2)]
  exact ⟨rfl, rfl⟩

end Links

end Anon
