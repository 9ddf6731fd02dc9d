import Anon.Fiber.PipeSweepSteps

/-!
# Every fiber is timed out once

* `Inv.detachAll`: the loop of the first phase leaves the fibers to the second phase.
* `Awaits.secondPhase`: the second phase puts them on its list.
* `orderly`: what holds in every run whose steps meet the condition.
-/

namespace Anon.Fiber.PipeSweep

variable {P F : Type} {s t : SweepState P F} {p q : P} {f : F}
  {sweep : Sweep} {wanted : Sweep → Prop}

namespace SweepState

/-! ## What the invariant says -/

/-- What the invariant says of the fibers that first phases have left to second phases. -/
theorem Inv.orderly (h : s.Inv) : s.Orderly Detachment.cause := by
  refine ⟨h.records.attached, h.records.once, h.records.rightly, ?_⟩
  intro d hd hover f n hf
  rcases h.records.detached d hd f n hf with hended | hpending
  · exact hended
  · rcases hpending.awaits with ⟨e, he, hep⟩ | ⟨-, sweep, hsweep, hid, -⟩
    · exact absurd hep (hover.2 e he)
    · exact absurd hid (hover.1 sweep hsweep)

/-! ## The loop of the first phase -/

/-- A sweep whose second phase is to come. -/
theorem Inv.addSweep (h : s.Inv) (sweep : Sweep) :
    Inv { s with nextSweep := s.nextSweep + 1, sweeps := sweep :: s.sweeps } := by
  have hst (q : P) :
      Apart s { s with nextSweep := s.nextSweep + 1, sweeps := sweep :: s.sweeps } q :=
    ⟨rfl, fun _ _ => rfl, fun _ _ => rfl, rfl, Iff.rfl, fun _ he _ => he,
      fun _ hmem => List.mem_cons_of_mem _ hmem⟩
  constructor
  · exact fun q => (h.pipes q).apart (hst q)
  · exact ⟨h.lists.timeoutPipe, h.lists.list, h.lists.timedOut, h.lists.expired⟩
  · refine ⟨h.records.old, h.records.once, h.records.rightly, h.records.attached, ?_⟩
    intro d hd f n hf
    exact (h.records.detached d hd f n hf).imp_right fun hpending => hpending.apart (hst d.pipe)
variable [DecidableEq P]

theorem apart_detach (hq : q ≠ p) : Apart s (s.detach sweep p) q :=
  ⟨Function.update_of_ne hq _ _, fun _ _ => rfl, fun _ _ => rfl, rfl, Iff.rfl, fun _ he _ => he,
    fun _ hsweep => hsweep⟩

/-- The first phase detaches a pipe, whose second phase is to come. -/
theorem Inv.detach (h : s.Inv) (hrest : ∀ f p, s.place f ≠ .switched p)
    (hsweep : sweep ∈ s.sweeps) (hp : p ∈ s.list) (hdue : (s.pipe p).due sweep = true)
    (hregistered : (s.pipe p).registered = true) : (s.detach sweep p).Inv := by
  have hpipe : (s.detach sweep p).pipe p =
      { s.pipe p with attached := false, registered := false, armed := false } :=
    Function.update_self _ _ _
  have hawaits (wanted : Sweep → Prop) (hwanted : wanted sweep) :
      (s.detach sweep p).Awaits p wanted := by
    right
    refine ⟨hp, sweep, hsweep, hwanted, ?_⟩
    rw [hpipe]
    exact hdue
  constructor
  · intro q
    by_cases hq : q = p
    · rw [hq]
      constructor
      · rw [hpipe]
        exact (h.pipes p).fiber
      · rw [hpipe]
        exact fun hidle => ⟨rfl, ((h.pipes p).idle hidle).2⟩
      · rw [hpipe]
        exact fun _ => rfl
      · rw [hpipe]
        exact fun harmed => absurd harmed (by simp)
      · exact fun f hf => absurd hf (hrest f p)
      · exact fun _ _ _ => hawaits _ trivial
      · rw [hpipe]
        exact fun hgone => ⟨((h.pipes p).gone hgone).1, rfl, ((h.pipes p).gone hgone).2.2⟩
    · exact (h.pipes q).apart (apart_detach hq)
  · apply h.lists.apart (fun q hq => apart_detach hq) h.lists.timeoutPipe h.lists.list
      (List.Sublist.refl _)
    intro e he hep
    exact absurd hp (hep ▸ (h.lists.expired e he).1)
  · refine ⟨h.records.old, h.records.once, h.records.rightly, ?_, ?_⟩
    · intro d hd
      rcases List.mem_cons.mp hd with rfl | hd
      · exact hregistered
      · exact h.records.attached d hd
    · intro d hd f n hf
      rcases List.mem_cons.mp hd with rfl | hd
      -- the suspension of the fiber that sleeps on the pipe goes on
      · right
        have hplace : s.place f = .suspended p ∧ s.suspensions f = n := by
          simpa [detachment] using hf
        refine ⟨hplace.2, hplace.1, ?_, ?_, hawaits _ rfl⟩
        · exact congrArg FiberPipe.registered hpipe
        · show ((s.detach sweep p).pipe p).event = (s.pipe p).event
          rw [hpipe]
      · apply (h.records.detached d hd f n hf).imp_right
        intro hpending
        apply hpending.apart (apart_detach ?_)
        intro hdp
        have hout := hpending.registered
        rw [hdp, hregistered] at hout
        exact absurd hout (by simp)

/-- The loop of the first phase, over pipes that epoll knows. -/
theorem Inv.detachAll (l : List P) (hl : l.Nodup) (h : s.Inv)
    (hrest : ∀ f p, s.place f ≠ .switched p) (hsweep : sweep ∈ s.sweeps)
    (hlist : ∀ p ∈ l, p ∈ s.list)
    (hregistered : ∀ p ∈ l, (s.pipe p).due sweep = true → (s.pipe p).registered = true) :
    (detachAll sweep l s).1.Inv ∧ (detachAll sweep l s).2 = true := by
  induction l generalizing s with
  | nil => exact ⟨h, rfl⟩
  | cons p l ih =>
    obtain ⟨hnot, hl⟩ := List.nodup_cons.mp hl
    have htail : ∀ q ∈ l, q ∈ s.list := fun q hq => hlist q (List.mem_cons_of_mem p hq)
    have hknown := fun q hq => hregistered q (List.mem_cons_of_mem p hq)
    rw [SweepState.detachAll]
    by_cases hdue : (s.pipe p).due sweep = true
    · have hp := hregistered p List.mem_cons_self hdue
      rw [if_pos hdue, if_pos hp]
      apply ih hl (h.detach hrest hsweep (hlist p List.mem_cons_self) hdue hp) hrest hsweep htail
      intro q hq hdueq
      have hpipe : (s.detach sweep p).pipe q = s.pipe q := by
        apply Function.update_of_ne
        rintro rfl
        exact hnot hq
      rw [hpipe] at hdueq ⊢
      exact hknown q hq hdueq
    · rw [if_neg hdue]
      exact ih hl h hrest hsweep htail hknown

/-- The loop makes no use of the sweeps whose second phase is still to run. -/
theorem detachAll_sweeps (sweep : Sweep) (l : List P) (sweeps : List Sweep) :
    detachAll sweep l { s with sweeps := sweeps } =
      ({ (detachAll sweep l s).1 with sweeps := sweeps }, (detachAll sweep l s).2) := by
  induction l generalizing s with
  | nil => rfl
  | cons p l ih =>
    rw [detachAll, detachAll]
    by_cases hdue : (s.pipe p).due sweep = true
    · by_cases hregistered : (s.pipe p).registered = true
      · simp only [hdue, hregistered, if_true]
        exact ih (s := s.detach sweep p)
      · simp only [hdue, hregistered, if_true]
        rfl
    · simp only [hdue]
      exact ih

/-! ## The test of the second phase -/

/-- The fiber of a pipe that the second phase puts on its list. -/
theorem PipeInv.of_expires (h : s.PipeInv p) (hrest : ∀ f p, s.place f ≠ .switched p)
    (halive : s.alive p = true) (hexpires : s.expires sweep p = true) :
    (∃ f, s.place f = .suspended p) ∧ (s.pipe p).registered = false ∧
      (s.pipe p).due sweep = true := by
  rw [expires, Bool.and_eq_true, Bool.and_eq_true, Bool.not_eq_true', h.attached halive]
    at hexpires
  obtain ⟨⟨hdue, hregistered⟩, hfiber⟩ := hexpires
  refine ⟨?_, hregistered, hdue⟩
  cases hf : (s.pipe p).ioFiber with
  | none =>
    rw [hf] at hfiber
    exact absurd hfiber (by simp)
  | some f => exact ⟨f, suspended_of_pipe ((h.fiber f).mp hf) (hrest f p)⟩

/-- The test of the second phase, for the fiber of a pipe that is detached and due. -/
theorem Inv.expires (h : s.Inv) (hf : s.place f = .suspended p)
    (hregistered : (s.pipe p).registered = false) (hdue : (s.pipe p).due sweep = true) :
    s.expires sweep p = true := by
  have hfiber := (h.pipes p).ioFiber_eq hf
  have hattached := (h.pipes p).attached ((h.pipes p).alive hfiber)
  have htimeout : s.timeoutPipe f = some p := by
    rw [h.lists.timeoutPipe, hf]
    rfl
  rw [SweepState.expires, hdue, hattached, hregistered, hfiber]
  exact decide_eq_true htimeout

/-! ## Steps -/

variable [DecidableEq F]

/-- The step of a first phase that finds no pipe to detach that is not attached. -/
theorem inv_firstPhase (h : s.Inv) {ct : Timespec} {orhibernating : Bool}
    (hen : s.enabled (.firstPhase ct orhibernating))
    (hc : Careful s (.firstPhase ct orhibernating)) :
    (s.next (.firstPhase ct orhibernating)).Inv := by
  have hregistered : ∀ p ∈ s.list, (s.pipe p).due ⟨s.nextSweep, ct, orhibernating⟩ = true →
      (s.pipe p).registered = true := by
    intro p hp hdue
    rw [← (h.pipes p).attached ((h.pipes p).alive_of_mem hp)]
    exact hc p hp hdue
  -- the sweep counts as one whose second phase is to come from the start
  have hinv := h.addSweep ⟨s.nextSweep, ct, orhibernating⟩
  have hloop := hinv.detachAll s.list h.lists.list hen List.mem_cons_self (fun _ hp => hp)
    hregistered
  obtain ⟨⟨t, b⟩, hall⟩ : ∃ r, detachAll ⟨s.nextSweep, ct, orhibernating⟩ s.list
      { s with nextSweep := s.nextSweep + 1 } = r := ⟨_, rfl⟩
  have hsame : t.sweeps = s.sweeps := by
    have heq := detachAll_sweeps (s := { s with nextSweep := s.nextSweep + 1 })
      ⟨s.nextSweep, ct, orhibernating⟩ s.list s.sweeps
    rw [hall] at heq
    exact congrArg (fun r => r.1.sweeps) heq
  have hset := detachAll_sweeps (s := { s with nextSweep := s.nextSweep + 1 })
    ⟨s.nextSweep, ct, orhibernating⟩ s.list (⟨s.nextSweep, ct, orhibernating⟩ :: s.sweeps)
  rw [hall] at hset
  rw [hset] at hloop
  obtain ⟨hloop, rfl⟩ := hloop
  have hnext : s.next (.firstPhase ct orhibernating) =
      { t with sweeps := ⟨s.nextSweep, ct, orhibernating⟩ :: s.sweeps } := by
    simp only [next, hall, hsame]
  rw [hnext]
  exact hloop
/-- A second phase puts on its list, or leaves to another one, what a first phase has left to
it. -/
theorem Awaits.secondPhase (h : s.Inv) (hf : s.place f = .suspended p)
    (hregistered : (s.pipe p).registered = false) (hs : s.Awaits p wanted) :
    (s.next (.secondPhase sweep)).Awaits p wanted := by
  rcases hs with ⟨e, he, hep⟩ | ⟨hlist, other, hother, hwanted, hdue⟩
  · exact Or.inl ⟨e, List.mem_append_right _ he, hep⟩
  · by_cases hexpires : s.expires sweep p = true
    · left
      refine ⟨(p, sweep), List.mem_append_left _ ?_, rfl⟩
      exact List.mem_map_of_mem (List.mem_filter.mpr ⟨hlist, hexpires⟩)
    -- the sweep is not the one that the pipe is due at
    · right
      have hne : other ≠ sweep := by
        rintro rfl
        exact hexpires (h.expires hf hregistered hdue)
      refine ⟨List.mem_filter.mpr ⟨hlist, ?_⟩, other, ?_, hwanted, hdue⟩
      · simpa using hexpires
      · exact (List.mem_erase_of_ne hne).mpr hother

theorem inv_secondPhase (h : s.Inv) (hen : s.enabled (.secondPhase sweep)) :
    (s.next (.secondPhase sweep)).Inv := by
  obtain ⟨-, hrest, hevents⟩ := hen
  constructor
  · intro p
    refine ⟨(h.pipes p).fiber, (h.pipes p).idle, (h.pipes p).attached, (h.pipes p).armed,
      (h.pipes p).switched, ?_, ?_⟩
    · intro f hf hregistered
      exact ((h.pipes p).awaits f hf hregistered).secondPhase h hf hregistered
    · intro hgone
      obtain ⟨hidle, hregistered, hnot⟩ := (h.pipes p).gone hgone
      exact ⟨hidle, hregistered, fun hp => hnot (List.mem_filter.mp hp).1⟩
  · refine ⟨h.lists.timeoutPipe, h.lists.list.filter _, ?_, ?_⟩
    · show (((s.list.filter fun p => s.expires sweep p).map (·, sweep) ++ s.timedOut).map
        Prod.fst).Nodup
      rw [List.map_append, List.map_map, List.nodup_append']
      refine ⟨?_, h.lists.timedOut, ?_⟩
      · rw [show (Prod.fst ∘ fun p : P => (p, sweep)) = id from rfl, List.map_id]
        exact h.lists.list.filter _
      -- what is on a list `timed_out` is not on the other one
      · intro p hp htimedOut
        rw [show (Prod.fst ∘ fun p : P => (p, sweep)) = id from rfl, List.map_id] at hp
        obtain ⟨e, he, rfl⟩ := List.mem_map.mp htimedOut
        exact (h.lists.expired e he).1 (List.mem_filter.mp hp).1
    · intro e he
      rcases List.mem_append.mp he with he | he
      · obtain ⟨p, hp, rfl⟩ := List.mem_map.mp he
        obtain ⟨hp, hexpires⟩ := List.mem_filter.mp hp
        have halive := (h.pipes p).alive_of_mem hp
        obtain ⟨hf, hregistered, hdue⟩ := (h.pipes p).of_expires hrest halive hexpires
        refine ⟨?_, hf, hregistered, hevents p, hdue⟩
        intro hmem
        have hnot := (List.mem_filter.mp hmem).2
        rw [hexpires] at hnot
        exact absurd hnot (by simp)
      · obtain ⟨hnot, hrest⟩ := h.lists.expired e he
        exact ⟨fun hp => hnot (List.mem_filter.mp hp).1, hrest⟩
  · refine ⟨h.records.old, h.records.once, h.records.rightly, h.records.attached, ?_⟩
    intro d hd f n hf
    apply (h.records.detached d hd f n hf).imp_right
    intro hpending
    exact ⟨hpending.suspension, hpending.place, hpending.registered, hpending.event,
      hpending.awaits.secondPhase h hpending.place hpending.registered⟩
/-- A step that meets the condition keeps the invariant. -/
theorem inv_next {x : SweepAction P F} (h : s.Inv) (hc : Careful s x) (hen : s.enabled x) :
    (s.next x).Inv := by
  cases x with
  | construct p => exact inv_construct h hen
  | destroy p => exact inv_destroy h hc
  | limitIoBlockTime p seconds => exact inv_limitIoBlockTime h p seconds
  | setHibernating p hibernating => exact inv_setHibernating h hc
  | sleepUntil f p now => exact inv_sleepUntil h hen hc
  | epollCtl f =>
    have hplace : ∃ p, s.place f = .switched p := by
      rw [enabled] at hen
      split at hen
      · exact ⟨_, ‹_›⟩
      · exact absurd hen id
    obtain ⟨p, hp⟩ := hplace
    exact inv_epollCtl h hp
  | epollWait p => exact inv_epollWait h hen
  | ioAvail p => exact inv_ioAvail h hen
  | firstPhase ct orhibernating => exact inv_firstPhase h hen hc
  | secondPhase sweep => exact inv_secondPhase h hen
  | timeOut p sweep => exact inv_timeOut h hen

theorem inv_init : (sweepMachine (P := P) (F := F)).init.Inv := by
  constructor
  · intro p
    constructor
    · exact fun f => iff_of_false (by simp [sweepMachine, FiberPipe.new])
        (by simp [sweepMachine, FiberPlace.pipe])
    · exact fun _ => ⟨rfl, rfl⟩
    · exact fun _ => rfl
    · exact fun harmed => absurd harmed (by simp [sweepMachine, FiberPipe.new])
    · exact fun f hf => absurd hf (by simp [sweepMachine])
    · exact fun f hf => absurd hf (by simp [sweepMachine])
    · exact fun _ => ⟨rfl, rfl, List.not_mem_nil⟩
  · exact ⟨fun _ => rfl, List.nodup_nil, List.nodup_nil,
      fun e he => absurd he List.not_mem_nil⟩
  · exact ⟨fun r hr => absurd hr List.not_mem_nil, List.nodup_nil,
      fun r hr => absurd hr List.not_mem_nil, fun d hd => absurd hd List.not_mem_nil,
      fun d hd => absurd hd List.not_mem_nil⟩

end SweepState

/-! ## Runs -/

variable [DecidableEq P] [DecidableEq F]

end Anon.Fiber.PipeSweep
