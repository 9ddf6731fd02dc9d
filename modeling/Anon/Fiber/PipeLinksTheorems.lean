import Anon.Fiber.PipeLinks
import Anon.Fiber.PipeSweepTheorems
import Anon.Lib.Simulation

/-!
# The links keep the list of the pipes

* `Refines`: the links are the lists of a state of `Anon.Fiber.PipeSweep`.
* `detachLoop_spec`, `expireLoop_spec`: the loops of a sweep, along the links.
* `links_refine`: every run of the machine with links is a run of the machine with lists.
-/

namespace Anon.Fiber.PipeSweep

variable {P F : Type} {s : SweepState P F} {c : LinkState P F} {p : P} {q : Option P}
  {sweep : Sweep}

/-- The links are the lists. -/
structure Refines (c : LinkState P F) (s : SweepState P F) : Prop where
  base : c.base = s.forget
  /-- From `first_`, `next_` leads to the pipes of the list, and `prev_` back. -/
  list : c.links.IsList s.list
  /-- The loop of a second phase has before it the pipes whose fibers it is to resume. -/
  timedOut : ∀ sweep, ∃ xs, Seg c.links.next (c.loop sweep) xs none ∧ xs.Nodup ∧
    ∀ p, p ∈ xs ↔ (p, sweep) ∈ s.timedOut
  lost : c.lost = false

/-- What else holds of the links. -/
structure LinkInv (c : LinkState P F) (s : SweepState P F) : Prop extends Refines c s where
  made : s.list.length ≤ c.made
  /-- The destructor of a pipe whose fiber was timed out finds it linked to itself. -/
  outside : ∀ p, s.alive p = true → p ∉ s.list → (∀ e ∈ s.timedOut, e.1 ≠ p) →
    c.links.next p = some p ∧ c.links.prev p = some p
  sweeps : s.sweeps.Nodup
  early : ∀ sweep ∈ s.sweeps, sweep.id < s.nextSweep ∧ ∀ e ∈ s.timedOut, e.2 ≠ sweep
  late : ∀ e ∈ s.timedOut, e.2.id < s.nextSweep

/-! ## The loops -/

section Loops

variable [DecidableEq P] {links : Links P} {fuel : ℕ} {xs : List P}

/-- The first phase leaves the lists alone. -/
theorem detachAll_frame (sweep : Sweep) (xs : List P) (s : SweepState P F) :
    (SweepState.detachAll sweep xs s).1.list = s.list ∧
      (SweepState.detachAll sweep xs s).1.timedOut = s.timedOut ∧
      (SweepState.detachAll sweep xs s).1.sweeps = s.sweeps ∧
      (SweepState.detachAll sweep xs s).1.alive = s.alive ∧
      (SweepState.detachAll sweep xs s).1.nextSweep = s.nextSweep := by
  induction xs generalizing s with
  | nil => exact ⟨rfl, rfl, rfl, rfl, rfl⟩
  | cons x xs ih =>
    rw [SweepState.detachAll]
    split
    · split
      · exact ih (s.detach sweep x)
      · exact ⟨rfl, rfl, rfl, rfl, rfl⟩
    · exact ih s

theorem detachLoop_spec (sweep : Sweep) (hfuel : xs.length < fuel) (s : SweepState P F)
    (h : Seg links.next q xs none) :
    detachLoop links sweep fuel q s.forget =
      some ((SweepState.detachAll sweep xs s).1.forget, (SweepState.detachAll sweep xs s).2) := by
  induction xs generalizing fuel q s with
  | nil =>
    obtain ⟨fuel, rfl⟩ := Nat.exists_eq_succ_of_ne_zero (Nat.ne_zero_of_lt hfuel)
    rw [seg_nil] at h
    rw [h]
    rfl
  | cons x xs ih =>
    obtain ⟨fuel, rfl⟩ := Nat.exists_eq_succ_of_ne_zero (Nat.ne_zero_of_lt hfuel)
    obtain ⟨rfl, hxs⟩ := h
    have hfuel' : xs.length < fuel := Nat.lt_of_succ_lt_succ hfuel
    rw [detachLoop, SweepState.detachAll]
    show (if (s.pipe x).due sweep = true then _ else _) = _
    split
    · show (if (s.pipe x).registered = true then _ else _) = _
      split
      · exact ih hfuel' (s.detach sweep x) hxs
      · rfl
    · exact ih hfuel' s hxs

/-- The loop of the second phase has gone through `kept` and has `xs` before it. -/
theorem expireLoop_spec (expires : P → Bool) (kept out : List P) (hfuel : xs.length < fuel)
    (hlist : links.IsList (kept ++ xs)) (hnd : (kept ++ xs).Nodup)
    (hout : Seg links.next q out none) (hdisj : ∀ y ∈ out, y ∉ kept ++ xs) :
    ∃ links' q', expireLoop expires fuel xs.head? links q = some (links', q') ∧
      links'.IsList (kept ++ xs.filter fun x => !expires x) ∧
      Seg links'.next q' ((xs.filter expires).reverse ++ out) none ∧
      ∀ y ∉ kept ++ xs, links'.next y = links.next y ∧ links'.prev y = links.prev y := by
  induction xs generalizing fuel links kept out q with
  | nil =>
    obtain ⟨fuel, rfl⟩ := Nat.exists_eq_succ_of_ne_zero (Nat.ne_zero_of_lt hfuel)
    exact ⟨links, q, rfl, hlist, hout, fun _ _ => ⟨rfl, rfl⟩⟩
  | cons x xs ih =>
    obtain ⟨fuel, rfl⟩ := Nat.exists_eq_succ_of_ne_zero (Nat.ne_zero_of_lt hfuel)
    have hfuel' : xs.length < fuel := Nat.lt_of_succ_lt_succ hfuel
    have hnext : links.next x = xs.head? := by
      obtain ⟨e, hchain⟩ := hlist
      obtain ⟨m, r, -, -, -, hxs⟩ := Links.chain_append.mp hchain
      exact Links.head_of_seg hxs.seg
    have hmid : (kept ++ x :: xs).Perm (x :: (kept ++ xs)) := List.perm_middle
    have hnd' := List.nodup_cons.mp (hmid.nodup_iff.mp hnd)
    rw [List.head?_cons, expireLoop, hnext]
    split
    · next hx =>
      have hxkept : x ∉ kept := fun hmem => hnd'.1 (List.mem_append_left _ hmem)
      have hmem : x ∈ kept ++ x :: xs := List.mem_append_right _ List.mem_cons_self
      have herase : (kept ++ x :: xs).erase x = kept ++ xs := by
        rw [List.erase_append_right _ hxkept, List.erase_cons_head]
      have hunlink := hlist.unlink hnd hmem
      rw [herase] at hunlink
      have hframe (y : P) (hy : y ∉ kept ++ x :: xs) :
          ((links.unlink x).setNext x q).next y = links.next y ∧
            ((links.unlink x).setNext x q).prev y = links.prev y := by
        have hyx : y ≠ x := fun hyx => hy (by rwa [hyx])
        obtain ⟨hynext, hyprev⟩ := hlist.unlink_of_notMem hnd hmem hy
        exact ⟨(Function.update_of_ne hyx _ _).trans hynext, hyprev⟩
      have hout' : Seg ((links.unlink x).setNext x q).next (some x) (x :: out) none := by
        have hxq : ((links.unlink x).setNext x q).next x = q := Function.update_self _ _ _
        rw [seg_cons, hxq]
        refine ⟨rfl, ?_⟩
        exact Links.seg_congr hout fun y hy => (hframe y (hdisj y hy)).1
      have hdisj' (y : P) (hy : y ∈ x :: out) : y ∉ kept ++ xs := by
        rcases List.mem_cons.mp hy with rfl | hy
        · exact hnd'.1
        · exact fun hno => hdisj y hy (hmid.mem_iff.mpr (List.mem_cons_of_mem _ hno))
      obtain ⟨links', q', hrun, hlist', hseg, hsame⟩ :=
        ih kept (x :: out) hfuel' (hunlink.setNext hnd'.1 q) hnd'.2 hout' hdisj'
      refine ⟨links', q', hrun, ?_, ?_, ?_⟩
      · rw [List.filter_cons_of_neg (by simp [hx])]
        exact hlist'
      · rw [List.filter_cons_of_pos hx, List.reverse_cons, List.append_assoc]
        exact hseg
      · intro y hy
        obtain ⟨hynext, hyprev⟩ := hsame y fun hno =>
          hy (hmid.mem_iff.mpr (List.mem_cons_of_mem _ hno))
        exact ⟨hynext.trans (hframe y hy).1, hyprev.trans (hframe y hy).2⟩
    · next hx =>
      have hkept : kept ++ x :: xs = (kept ++ [x]) ++ xs := (List.append_cons kept x xs)
      rw [hkept] at hlist hnd hdisj ⊢
      obtain ⟨links', q', hrun, hlist', hseg, hsame⟩ :=
        ih (kept ++ [x]) out hfuel' hlist hnd hout hdisj
      refine ⟨links', q', hrun, ?_, ?_, hsame⟩
      · rw [List.filter_cons_of_pos (by simp [hx]), List.append_cons]
        exact hlist'
      · rw [List.filter_cons_of_neg hx]
        exact hseg

end Loops

/-! ## Steps that leave the lists alone -/

/-- The lists are the same, and what else the links are about. -/
structure SameLists (s t : SweepState P F) : Prop where
  list : t.list = s.list
  timedOut : t.timedOut = s.timedOut
  sweeps : t.sweeps = s.sweeps
  nextSweep : t.nextSweep = s.nextSweep
  alive : t.alive = s.alive

theorem LinkInv.sameLists {t : SweepState P F} (h : LinkInv c s) (hsame : SameLists s t) :
    LinkInv { c with base := t.forget } t := by
  constructor
  · constructor
    · rfl
    · rw [hsame.list]
      exact h.list
    · rw [hsame.timedOut]
      exact h.timedOut
    · exact h.lost
  · rw [hsame.list]
    exact h.made
  · rw [hsame.list, hsame.timedOut, hsame.alive]
    exact h.outside
  · rw [hsame.sweeps]
    exact h.sweeps
  · rw [hsame.sweeps, hsame.timedOut, hsame.nextSweep]
    exact h.early
  · rw [hsame.timedOut, hsame.nextSweep]
    exact h.late

theorem SameLists.trans {t u : SweepState P F} (h : SameLists s t) (h' : SameLists t u) :
    SameLists s u :=
  ⟨h'.list.trans h.list, h'.timedOut.trans h.timedOut, h'.sweeps.trans h.sweeps,
    h'.nextSweep.trans h.nextSweep, h'.alive.trans h.alive⟩

theorem notMem_timedOut (h : s.Inv) (hidle : (s.pipe p).ioFiber = none) :
    ∀ e ∈ s.timedOut, e.1 ≠ p := by
  rintro e he rfl
  obtain ⟨-, ⟨f, hf⟩, -⟩ := h.lists.expired e he
  have hfiber := ((h.pipes e.1).fiber f).mpr (by rw [hf]; rfl)
  rw [hidle] at hfiber
  exact absurd hfiber (Option.some_ne_none f).symm

/-- Writes to the links of other pipes leave the loops of the second phases alone. -/
theorem LinkInv.timedOut_congr {next' : P → Option P} (h : LinkInv c s)
    (hnext : ∀ e ∈ s.timedOut, next' e.1 = c.links.next e.1) (sweep : Sweep) :
    ∃ xs, Seg next' (c.loop sweep) xs none ∧ xs.Nodup ∧ ∀ p, p ∈ xs ↔ (p, sweep) ∈ s.timedOut := by
  obtain ⟨xs, hseg, hnd, hmem⟩ := h.timedOut sweep
  exact ⟨xs, Links.seg_congr hseg fun y hy => hnext _ ((hmem y).mp hy), hnd, hmem⟩

/-- A loop over the list visits the pipes of the list. -/
theorem LinkInv.pipes (h : LinkInv c s) : c.pipes = s.list :=
  Links.follow_of_seg h.list.seg h.made

section Steps

variable [DecidableEq P] [DecidableEq F] {f : F} {x : SweepAction P F}

theorem sameLists_resume (s : SweepState P F) (f : F) (cause : Cause) (rightly : Bool) :
    SameLists s (s.resume f cause rightly) := by
  unfold SweepState.resume
  dsimp only
  split
  · exact ⟨rfl, rfl, rfl, rfl, rfl⟩
  · exact ⟨rfl, rfl, rfl, rfl, rfl⟩

theorem forget_resume (s : SweepState P F) (f : F) (cause : Cause) (rightly : Bool) :
    (s.forget.resume f cause rightly).forget = (s.resume f cause rightly).forget := by
  unfold SweepState.resume
  dsimp only [SweepState.forget]
  cases (s.place f).pipe with
  | none => rfl
  | some p => rfl

theorem sameLists_ioAvail (s : SweepState P F) (p : P) : SameLists s (s.next (.ioAvail p)) := by
  have hset (pipe : FiberPipe F) : SameLists s (s.setPipe p pipe) := ⟨rfl, rfl, rfl, rfl, rfl⟩
  unfold SweepState.next
  dsimp only
  split
  · next f hf => exact (hset _).trans (sameLists_resume _ f _ _)
  · exact hset _

theorem forget_ioAvail (s : SweepState P F) (p : P) :
    (s.forget.next (.ioAvail p)).forget = (s.next (.ioAvail p)).forget := by
  have hset (pipe : FiberPipe F) : s.forget.setPipe p pipe = (s.setPipe p pipe).forget := rfl
  unfold SweepState.next
  dsimp only
  rw [hset]
  have hfiber : (((s.setPipe p { s.forget.pipe p with event := false }).forget).pipe p).ioFiber =
      ((s.setPipe p { s.pipe p with event := false }).pipe p).ioFiber := rfl
  rw [hfiber]
  cases ((s.setPipe p { s.pipe p with event := false }).pipe p).ioFiber with
  | none => rfl
  | some f => exact forget_resume (s.setPipe p { s.pipe p with event := false }) f _ _

theorem sameLists_epollCtl (s : SweepState P F) (f : F) : SameLists s (s.next (.epollCtl f)) := by
  unfold SweepState.next
  dsimp only
  split
  · exact ⟨rfl, rfl, rfl, rfl, rfl⟩
  · exact ⟨rfl, rfl, rfl, rfl, rfl⟩

theorem forget_epollCtl (s : SweepState P F) (f : F) :
    (s.forget.next (.epollCtl f)).forget = (s.next (.epollCtl f)).forget := by
  unfold SweepState.next
  dsimp only [SweepState.forget]
  cases s.place f with
  | running => rfl
  | switched p => rfl
  | suspended p => rfl

/-- A step that leaves the links alone, too. -/
theorem LinkInv.step_same (h : LinkInv c s) (hnext : c.next x = c.stepBase x)
    (hsame : SameLists s (s.next x)) (hforget : (s.forget.next x).forget = (s.next x).forget) :
    LinkInv (c.next x) (s.next x) := by
  have hstep : c.stepBase x = { c with base := (s.next x).forget } := by
    rw [LinkState.stepBase, h.base, hforget]
  rw [hnext, hstep]
  exact h.sameLists hsame

/-! ## Steps that change the links -/

theorem LinkInv.construct (h : LinkInv c s) (hs : s.Inv) (hen : s.alive p = false) :
    LinkInv (c.next (.construct p)) (s.next (.construct p)) := by
  obtain ⟨hidle, -, hp⟩ := (hs.pipes p).gone hen
  have hnone := notMem_timedOut hs hidle
  constructor
  · constructor
    · show (c.base.next (.construct p)).forget = _
      rw [h.base]
      rfl
    · exact h.list.pushFront hs.lists.list hp
    · apply h.timedOut_congr
      intro e he
      exact (h.list.pushFront_of_notMem (hnone e he) (hs.lists.expired e he).1).1
    · exact h.lost
  · exact Nat.succ_le_succ h.made
  · intro y halive hy htimed
    have hyp : y ≠ p := fun hyp => hy (by rw [hyp]; exact List.mem_cons_self)
    have hylist : y ∉ s.list := fun hno => hy (List.mem_cons_of_mem _ hno)
    obtain ⟨hnext, hprev⟩ := h.list.pushFront_of_notMem hyp hylist
    have halive' : s.alive y = true := (Function.update_of_ne hyp _ _).symm.trans halive
    obtain ⟨hnexty, hprevy⟩ := h.outside y halive' hylist htimed
    exact ⟨hnext.trans hnexty, hprev.trans hprevy⟩
  · exact h.sweeps
  · exact h.early
  · exact h.late

theorem LinkInv.destroy (h : LinkInv c s) (hs : s.Inv) (hen : s.alive p = true)
    (hidle : (s.pipe p).ioFiber = none) :
    LinkInv (c.next (.destroy p)) (s.next (.destroy p)) := by
  have hnone := notMem_timedOut hs hidle
  -- the links of all pipes that are not on the list stay as they are
  have hlinks : (c.links.unlink p).IsList (s.list.erase p) ∧ ∀ y ∉ s.list,
      (c.links.unlink p).next y = c.links.next y ∧ (c.links.unlink p).prev y = c.links.prev y := by
    by_cases hp : p ∈ s.list
    · exact ⟨h.list.unlink hs.lists.list hp,
        fun y hy => h.list.unlink_of_notMem hs.lists.list hp hy⟩
    · obtain ⟨hnext, hprev⟩ := h.outside p hen hp hnone
      rw [Links.unlink_of_self hnext hprev, List.erase_of_not_mem hp]
      exact ⟨h.list, fun _ _ => ⟨rfl, rfl⟩⟩
  obtain ⟨hlist, hframe⟩ := hlinks
  constructor
  · constructor
    · show (c.base.next (.destroy p)).forget = _
      rw [h.base]
      rfl
    · exact hlist
    · apply h.timedOut_congr
      intro e he
      exact (hframe e.1 (hs.lists.expired e he).1).1
    · exact h.lost
  · exact List.length_erase_le.trans h.made
  · intro y halive hy htimed
    have hyp : y ≠ p := by
      rintro rfl
      have hdead : (Function.update s.alive y false) y = true := halive
      rw [Function.update_self] at hdead
      exact Bool.noConfusion hdead
    have hylist : y ∉ s.list := fun hno => hy ((List.mem_erase_of_ne hyp).mpr hno)
    have halive' : s.alive y = true := (Function.update_of_ne hyp _ _).symm.trans halive
    obtain ⟨hnext, hprev⟩ := hframe y hylist
    obtain ⟨hnexty, hprevy⟩ := h.outside y halive' hylist htimed
    exact ⟨hnext.trans hnexty, hprev.trans hprevy⟩
  · exact h.sweeps
  · exact h.early
  · exact h.late

theorem next_timeOut_lists (s : SweepState P F) (p : P) (sweep : Sweep) :
    SameLists { s with timedOut := s.timedOut.erase (p, sweep) } (s.next (.timeOut p sweep)) := by
  unfold SweepState.next
  dsimp only
  split
  · next f hf => exact sameLists_resume _ f _ _
  · exact ⟨rfl, rfl, rfl, rfl, rfl⟩

theorem forget_timeOut (s : SweepState P F) (p : P) (sweep : Sweep) :
    (s.forget.next (.timeOut p sweep)).forget = (s.next (.timeOut p sweep)).forget := by
  unfold SweepState.next
  dsimp only
  have hfiber : (s.forget.pipe p).ioFiber = (s.pipe p).ioFiber := rfl
  rw [hfiber]
  cases (s.pipe p).ioFiber with
  | none => rfl
  | some f => exact forget_resume { s with timedOut := s.timedOut.erase (p, sweep) } f _ _

theorem LinkInv.timeOut (h : LinkInv c s) (hs : s.Inv) (hen : c.loop sweep = some p) :
    (p, sweep) ∈ s.timedOut ∧
      LinkInv (c.next (.timeOut p sweep)) (s.next (.timeOut p sweep)) := by
  obtain ⟨xs, hseg, hnd, hmem⟩ := h.timedOut sweep
  rw [hen] at hseg
  have hxs : ∃ ys, xs = p :: ys := by
    cases xs with
    | nil => exact absurd hseg (Option.some_ne_none p)
    | cons y ys =>
      rw [Option.some.inj hseg.1]
      exact ⟨ys, rfl⟩
  obtain ⟨ys, rfl⟩ := hxs
  have htimed : (p, sweep) ∈ s.timedOut := (hmem p).mp List.mem_cons_self
  refine ⟨htimed, ?_⟩
  have hpys : p ∉ ys := (List.nodup_cons.mp hnd).1
  have hndTimed : s.timedOut.Nodup := List.Nodup.of_map _ hs.lists.timedOut
  -- no other second phase has the pipe on its list
  have honly (e : P × Sweep) (he : e ∈ s.timedOut) (hep : e.1 = p) : e = (p, sweep) :=
    List.inj_on_of_nodup_map hs.lists.timedOut he htimed hep
  have hother (y : P) (hyp : y ≠ p) :
      (c.links.selfLink p).next y = c.links.next y ∧
        (c.links.selfLink p).prev y = c.links.prev y :=
    ⟨Function.update_of_ne hyp _ _, Function.update_of_ne hyp _ _⟩
  have hsame := next_timeOut_lists s p sweep
  constructor
  · constructor
    · show (c.base.next (.timeOut p sweep)).forget = _
      rw [h.base]
      exact forget_timeOut s p sweep
    · rw [hsame.list]
      exact h.list.selfLink (hs.lists.expired _ htimed).1
    · rw [hsame.timedOut]
      intro sweep'
      show ∃ xs, Seg (c.links.selfLink p).next
        (Function.update c.loop sweep (c.links.next p) sweep') xs none ∧ _
      by_cases hsweep : sweep' = sweep
      · subst hsweep
        rw [Function.update_self]
        refine ⟨ys, Links.seg_congr hseg.2 fun y hy => (hother y ?_).1, (List.nodup_cons.mp hnd).2,
          fun y => ?_⟩
        · exact fun hyp => hpys (by rwa [← hyp])
        · rw [hndTimed.mem_erase_iff, ← hmem y, List.mem_cons]
          constructor
          · intro hy
            exact ⟨fun hyp => hpys (by rwa [← (Prod.mk.inj hyp).1]), Or.inr hy⟩
          · rintro ⟨hne, rfl | hy⟩
            · exact absurd rfl hne
            · exact hy
      · rw [Function.update_of_ne hsweep]
        obtain ⟨xs, hseg', hnd', hmem'⟩ := h.timedOut sweep'
        have hne (y : P) : (y, sweep') ≠ (p, sweep) := fun heq => hsweep (Prod.mk.inj heq).2
        refine ⟨xs, Links.seg_congr hseg' fun y hy => (hother y ?_).1, hnd', fun y => ?_⟩
        · rintro rfl
          exact hne y (honly _ ((hmem' y).mp hy) rfl)
        · show _ ↔ (y, sweep') ∈ s.timedOut.erase (p, sweep)
          rw [List.mem_erase_of_ne (hne y)]
          exact hmem' y
    · exact h.lost
  · rw [hsame.list]
    exact h.made
  · rw [hsame.list, hsame.timedOut, hsame.alive]
    intro y halive hy hnone
    by_cases hyp : y = p
    · subst hyp
      exact ⟨Function.update_self _ _ _, Function.update_self _ _ _⟩
    · obtain ⟨hnext, hprev⟩ := hother y hyp
      have hnone' (e : P × Sweep) (he : e ∈ s.timedOut) : e.1 ≠ y := by
        intro hey
        apply hnone e _ hey
        exact hndTimed.mem_erase_iff.mpr ⟨fun heq => hyp (by rw [← hey, heq]), he⟩
      obtain ⟨hnexty, hprevy⟩ := h.outside y halive hy hnone'
      exact ⟨hnext.trans hnexty, hprev.trans hprevy⟩
  · rw [hsame.sweeps]
    exact h.sweeps
  · rw [hsame.sweeps, hsame.timedOut, hsame.nextSweep]
    intro sweep' hsweep'
    exact ⟨(h.early sweep' hsweep').1,
      fun e he => (h.early sweep' hsweep').2 e (List.mem_of_mem_erase he)⟩
  · rw [hsame.timedOut, hsame.nextSweep]
    exact fun e he => h.late e (List.mem_of_mem_erase he)

theorem LinkInv.firstPhase (h : LinkInv c s) (ct : Timespec) (orhibernating : Bool) :
    LinkInv (c.next (.firstPhase ct orhibernating)) (s.next (.firstPhase ct orhibernating)) := by
  have hbase : { c.base with nextSweep := c.base.nextSweep + 1 } =
      SweepState.forget { s with nextSweep := s.nextSweep + 1 } := by
    rw [h.base]
    rfl
  have hnumber : c.base.nextSweep = s.nextSweep := by
    rw [h.base]
    rfl
  have hloop := detachLoop_spec ⟨s.nextSweep, ct, orhibernating⟩
    (Nat.lt_succ_of_le h.made) { s with nextSweep := s.nextSweep + 1 } h.list.seg
  obtain ⟨hlist, htimed, hsweeps, halive, hnext⟩ := detachAll_frame
    ⟨s.nextSweep, ct, orhibernating⟩ s.list { s with nextSweep := s.nextSweep + 1 }
  -- the sweep has a number that no other one has
  have hlater : LinkInv { c with base := SweepState.forget { s with nextSweep := s.nextSweep + 1 } }
      { s with nextSweep := s.nextSweep + 1 } := by
    refine ⟨⟨rfl, h.list, h.timedOut, h.lost⟩, h.made, h.outside, h.sweeps, ?_, ?_⟩
    · exact fun sweep hsweep =>
        ⟨Nat.lt_succ_of_lt (h.early sweep hsweep).1, (h.early sweep hsweep).2⟩
    · exact fun e he => Nat.lt_succ_of_lt (h.late e he)
  have hsame := hlater.sameLists ⟨hlist, htimed, hsweeps, hnext, halive⟩
  unfold LinkState.next SweepState.next
  dsimp only
  rw [hbase, hnumber, hloop]
  generalize SweepState.detachAll ⟨s.nextSweep, ct, orhibernating⟩ s.list
    { s with nextSweep := s.nextSweep + 1 } = out at hlist htimed hsweeps halive hnext hsame ⊢
  obtain ⟨t, all⟩ := out
  dsimp only at hlist htimed hsweeps halive hnext hsame ⊢
  cases all with
  | false => exact hsame
  | true =>
    refine ⟨⟨rfl, hsame.list, hsame.timedOut, hsame.lost⟩, hsame.made, hsame.outside, ?_, ?_,
      hsame.late⟩
    · rw [List.nodup_cons]
      refine ⟨fun hmem => ?_, hsame.sweeps⟩
      rw [hsweeps] at hmem
      exact absurd (h.early _ hmem).1 (lt_irrefl _)
    · intro sweep hsweep
      rcases List.mem_cons.mp hsweep with rfl | hsweep
      · constructor
        · show s.nextSweep < t.nextSweep
          rw [hnext]
          exact Nat.lt_succ_self _
        · intro e he
          have he' : e ∈ s.timedOut := by
            rw [← htimed]
            exact he
          exact fun heq => absurd (h.late e he') (by rw [heq]; exact lt_irrefl _)
      · exact hsame.early sweep hsweep

theorem LinkInv.secondPhase (h : LinkInv c s) (hs : s.Inv) (hen : sweep ∈ s.sweeps) :
    LinkInv (c.next (.secondPhase sweep)) (s.next (.secondPhase sweep)) := by
  have hexpires : c.base.expires sweep = s.expires sweep := by
    rw [h.base]
    rfl
  obtain ⟨hearly, hnone⟩ := h.early sweep hen
  obtain ⟨links, timedOut, hrun, hlist, hseg, hframe⟩ :=
    expireLoop_spec (q := none) (s.expires sweep) [] []
      (Nat.lt_succ_of_le h.made) h.list hs.lists.list rfl (fun y hy => absurd hy List.not_mem_nil)
  rw [List.nil_append] at hlist hframe
  rw [List.append_nil] at hseg
  have hfirst : s.list.head? = c.links.first := (Links.head_of_seg h.list.seg).symm
  have hmem (e : P × Sweep) :
      e ∈ (s.next (.secondPhase sweep)).timedOut ↔
        (e.1 ∈ s.list.filter (s.expires sweep) ∧ e.2 = sweep) ∨ e ∈ s.timedOut := by
    show e ∈ (s.list.filter fun p => s.expires sweep p).map (·, sweep) ++ s.timedOut ↔ _
    rw [List.mem_append, List.mem_map]
    constructor
    · rintro (⟨p, hp, rfl⟩ | he)
      · exact Or.inl ⟨hp, rfl⟩
      · exact Or.inr he
    · rintro (⟨hp, he⟩ | he)
      · exact Or.inl ⟨e.1, hp, by rw [← he]⟩
      · exact Or.inr he
  have hnext : c.next (.secondPhase sweep) =
      { c with
        base := { c.base with sweeps := c.base.sweeps.erase sweep }
        links := links
        loop := Function.update c.loop sweep timedOut } := by
    unfold LinkState.next
    dsimp only
    rw [hexpires, ← hfirst, hrun]
  rw [hnext]
  constructor
  · constructor
    · show SweepState.mk _ _ _ _ _ _ _ _ _ _ _ = _
      rw [h.base]
      rfl
    · exact hlist
    · intro sweep'
      by_cases hsweep : sweep' = sweep
      · subst hsweep
        refine ⟨(s.list.filter (s.expires sweep')).reverse, ?_, ?_, fun p => ?_⟩
        · show Seg links.next (Function.update c.loop sweep' timedOut sweep') _ none
          rw [Function.update_self]
          exact hseg
        · exact List.nodup_reverse.mpr (hs.lists.list.filter _)
        · rw [hmem, List.mem_reverse]
          constructor
          · exact fun hp => Or.inl ⟨hp, rfl⟩
          · rintro (⟨hp, -⟩ | hp)
            · exact hp
            · exact absurd rfl (hnone _ hp)
      · obtain ⟨xs, hseg', hnd', hmem'⟩ := h.timedOut sweep'
        refine ⟨xs, ?_, hnd', fun p => ?_⟩
        · show Seg links.next (Function.update c.loop sweep timedOut sweep') _ none
          rw [Function.update_of_ne hsweep]
          exact Links.seg_congr hseg' fun y hy =>
            (hframe y (hs.lists.expired _ ((hmem' y).mp hy)).1).1
        · rw [hmem, hmem']
          constructor
          · exact Or.inr
          · rintro (⟨-, hp⟩ | hp)
            · exact absurd hp hsweep
            · exact hp
    · exact h.lost
  · exact (List.length_filter_le _ _).trans h.made
  · intro y halive hy htimed
    have hylist : y ∉ s.list := by
      intro hno
      cases hexp : s.expires sweep y with
      | true =>
        exact htimed (y, sweep) ((hmem _).mpr (Or.inl ⟨List.mem_filter.mpr ⟨hno, hexp⟩, rfl⟩)) rfl
      | false => exact hy (List.mem_filter.mpr ⟨hno, by rw [hexp]; rfl⟩)
    obtain ⟨hnexty, hprevy⟩ := h.outside y halive hylist
      fun e he => htimed e ((hmem e).mpr (Or.inr he))
    obtain ⟨hnext, hprev⟩ := hframe y hylist
    exact ⟨hnext.trans hnexty, hprev.trans hprevy⟩
  · exact h.sweeps.erase _
  · intro sweep' hsweep'
    have hne : sweep' ≠ sweep ∧ sweep' ∈ s.sweeps := h.sweeps.mem_erase_iff.mp hsweep'
    refine ⟨(h.early sweep' hne.2).1, fun e he => ?_⟩
    rcases (hmem e).mp he with ⟨-, he⟩ | he
    · rw [he]
      exact hne.1.symm
    · exact (h.early sweep' hne.2).2 e he
  · intro e he
    rcases (hmem e).mp he with ⟨-, he⟩ | he
    · rw [he]
      exact hearly
    · exact h.late e he

/-! ## Runs -/

theorem LinkInv.step (h : LinkInv c s) (hs : s.Inv) (hc : CarefulLinks c x)
    (hen : c.enabled x) :
    Careful s x ∧ s.enabled x ∧ LinkInv (c.next x) (s.next x) := by
  have hcareful : Careful s x := by
    have hbase : c.base = s.forget := h.base
    cases x with
    | firstPhase ct orhibernating =>
      unfold CarefulLinks at hc
      dsimp only at hc
      rw [h.pipes, hbase] at hc
      exact hc
    | _ =>
      unfold CarefulLinks at hc
      dsimp only at hc
      rw [hbase] at hc
      exact hc
  have henabled (hx : c.enabled x = c.base.enabled x) (hforget : s.forget.enabled x = s.enabled x) :
      s.enabled x := by
    rw [← hforget, ← h.base, ← hx]
    exact hen
  refine ⟨hcareful, ?_⟩
  cases x with
  | construct p =>
    have hs' := henabled rfl rfl
    exact ⟨hs', h.construct hs hs'⟩
  | destroy p =>
    have hs' := henabled rfl rfl
    exact ⟨hs', h.destroy hs hs' hcareful⟩
  | limitIoBlockTime p seconds =>
    exact ⟨henabled rfl rfl, h.step_same rfl ⟨rfl, rfl, rfl, rfl, rfl⟩ rfl⟩
  | setHibernating p hibernating =>
    exact ⟨henabled rfl rfl, h.step_same rfl ⟨rfl, rfl, rfl, rfl, rfl⟩ rfl⟩
  | sleepUntil f p now =>
    exact ⟨henabled rfl rfl, h.step_same rfl ⟨rfl, rfl, rfl, rfl, rfl⟩ rfl⟩
  | epollCtl f =>
    exact ⟨henabled rfl rfl, h.step_same rfl (sameLists_epollCtl s f) (forget_epollCtl s f)⟩
  | epollWait p =>
    exact ⟨henabled rfl rfl, h.step_same rfl ⟨rfl, rfl, rfl, rfl, rfl⟩ rfl⟩
  | ioAvail p =>
    exact ⟨henabled rfl rfl, h.step_same rfl (sameLists_ioAvail s p) (forget_ioAvail s p)⟩
  | firstPhase ct orhibernating =>
    exact ⟨henabled rfl rfl, h.firstPhase ct orhibernating⟩
  | secondPhase sweep =>
    have hs' := henabled rfl rfl
    exact ⟨hs', h.secondPhase hs hs'.1⟩
  | timeOut p sweep => exact h.timeOut hs hen

theorem linkInv_init : LinkInv (linkMachine (P := P) (F := F)).init sweepMachine.init := by
  constructor
  · exact ⟨rfl, ⟨none, rfl, rfl⟩, fun _ => ⟨[], rfl, List.nodup_nil,
      fun _ => iff_of_false List.not_mem_nil List.not_mem_nil⟩, rfl⟩
  · exact Nat.le_refl 0
  · exact fun _ halive => absurd halive Bool.false_ne_true
  · exact List.nodup_nil
  · exact fun _ hsweep => absurd hsweep List.not_mem_nil
  · exact fun _ he => absurd he List.not_mem_nil

end Steps

end Anon.Fiber.PipeSweep
