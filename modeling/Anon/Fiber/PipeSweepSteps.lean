import Anon.Fiber.PipeSweepInvariant

/-!
# Steps of one pipe

Suspensions and resumptions keep the invariant. Both an event and the second phase resume a fiber
by the same step, `wake`.
-/

namespace Anon.Fiber.PipeSweep

open NetPipes (addSeconds)

variable {P F : Type} {s t : SweepState P F} {p q : P} {f g : F} {now : Timespec}
  {sweep : Sweep}

namespace SweepState

variable [DecidableEq P] [DecidableEq F]

/-! ## Steps of one pipe -/

theorem inv_construct (h : s.Inv) (hen : s.enabled (.construct p)) :
    (s.next (.construct p)).Inv := by
  obtain ⟨hidle, -, hnot⟩ := (h.pipes p).gone hen
  have hplace := (h.pipes p).place_ne hidle
  apply h.step (p := p)
  · intro q hq
    refine ⟨Function.update_of_ne hq _ _, fun _ _ => rfl, fun _ _ => rfl,
      Function.update_of_ne hq _ _, ?_, fun e he _ => he, fun _ hsweep => hsweep⟩
    show q ∈ p :: s.list ↔ q ∈ s.list
    rw [List.mem_cons, or_iff_right hq]
  · have hnew : (s.next (.construct p)).pipe p = .new := Function.update_self _ _ _
    constructor
    · intro f
      rw [hnew]
      exact iff_of_false (by simp [FiberPipe.new]) (hplace f)
    · rw [hnew]
      exact fun _ => ⟨rfl, rfl⟩
    · rw [hnew]
      exact fun _ => rfl
    · rw [hnew]
      exact fun harmed => absurd harmed (by simp [FiberPipe.new])
    · intro f hf
      rw [hnew]
      exact ⟨rfl, rfl⟩
    · intro f hf
      exact absurd (congrArg FiberPlace.pipe hf) (hplace f)
    · intro halive
      rw [show (s.next (.construct p)).alive p = true from Function.update_self _ _ _] at halive
      exact absurd halive (by simp)
  · exact h.lists.timeoutPipe
  · exact List.nodup_cons.mpr ⟨hnot, h.lists.list⟩
  · rfl
  · rfl
  · rfl
  · exact fun f => Or.inr ⟨rfl, id⟩
  · intro f hf
    exact absurd (congrArg FiberPlace.pipe hf) (hplace f)

theorem inv_destroy (h : s.Inv) (hidle : (s.pipe p).ioFiber = none) :
    (s.next (.destroy p)).Inv := by
  have hplace := (h.pipes p).place_ne hidle
  have hpipe : (s.next (.destroy p)).pipe p =
      { s.pipe p with registered := false, armed := false } := Function.update_self _ _ _
  apply h.step (p := p)
  · intro q hq
    refine ⟨Function.update_of_ne hq _ _, fun _ _ => rfl, fun _ _ => rfl,
      Function.update_of_ne hq _ _, ?_, fun e he _ => he, fun _ hsweep => hsweep⟩
    exact List.mem_erase_of_ne hq
  · constructor
    · rw [hpipe]
      exact (h.pipes p).fiber
    · rw [hpipe]
      exact fun _ => ⟨rfl, ((h.pipes p).idle hidle).2⟩
    · intro halive
      rw [show (s.next (.destroy p)).alive p = false from Function.update_self _ _ _] at halive
      exact absurd halive (by simp)
    · rw [hpipe]
      exact fun harmed => absurd harmed (by simp)
    · intro f hf
      exact absurd (congrArg FiberPlace.pipe hf) (hplace f)
    · intro f hf
      exact absurd (congrArg FiberPlace.pipe hf) (hplace f)
    · intro _
      rw [hpipe]
      exact ⟨hidle, rfl, fun hmem => (h.lists.list.not_mem_erase) hmem⟩
  · exact h.lists.timeoutPipe
  · exact h.lists.list.erase p
  · rfl
  · rfl
  · rfl
  · exact fun f => Or.inr ⟨rfl, id⟩
  · intro f hf
    exact absurd (congrArg FiberPlace.pipe hf) (hplace f)
theorem inv_limitIoBlockTime (h : s.Inv) (p : P) (seconds : ℤ) :
    (s.next (.limitIoBlockTime p seconds)).Inv :=
  h.setPipe _ rfl rfl rfl rfl rfl fun _ _ _ _ hdue => hdue

/-- A pipe that a fiber sleeps on does not cease to be hibernating. -/
theorem inv_setHibernating (h : s.Inv) {hibernating : Bool}
    (hc : hibernating = true ∨ (s.pipe p).ioFiber = none) :
    (s.next (.setHibernating p hibernating)).Inv := by
  apply h.setPipe { s.pipe p with hibernating := hibernating } rfl rfl rfl rfl rfl
  intro f hf _ sweep hdue
  rcases hc with rfl | hidle
  · rw [FiberPipe.due, Bool.or_eq_true, Bool.and_eq_true] at hdue ⊢
    exact hdue.imp_right fun hdue => ⟨hdue.1, rfl⟩
  · rw [(h.pipes p).ioFiber_eq hf] at hidle
    exact absurd hidle (by simp)

theorem inv_sleepUntil (h : s.Inv) (hen : s.enabled (.sleepUntil f p now))
    (hidle : (s.pipe p).ioFiber = none) : (s.next (.sleepUntil f p now)).Inv := by
  obtain ⟨hrun, halive⟩ := hen
  have hplace := (h.pipes p).place_ne hidle
  obtain ⟨harmed, hevent⟩ := (h.pipes p).idle hidle
  have hf : (s.next (.sleepUntil f p now)).place f = .switched p := Function.update_self _ _ _
  have hother (g : F) (hg : g ≠ f) : (s.next (.sleepUntil f p now)).place g = s.place g :=
    Function.update_of_ne hg _ _
  have hpipe : (s.next (.sleepUntil f p now)).pipe p = { s.pipe p with
      ioFiber := some f
      ioTimeout :=
        if 0 < (s.pipe p).maxIoBlockTime then addSeconds now (s.pipe p).maxIoBlockTime
        else (s.pipe p).ioTimeout } := Function.update_self _ _ _
  apply h.step (p := p)
  · intro q hq
    refine ⟨Function.update_of_ne hq _ _, ?_, ?_, rfl, Iff.rfl, fun e he _ => he,
      fun _ hsweep => hsweep⟩
    · intro g hg
      apply hother
      rintro rfl
      rw [hrun, hf] at hg
      rcases hg with hg | hg
      · exact absurd hg (by simp [FiberPlace.pipe])
      · exact hq (Option.some.inj hg).symm
    · intro g hg
      apply Function.update_of_ne
      rintro rfl
      rw [hrun] at hg
      exact absurd hg (by simp [FiberPlace.pipe])
  · constructor
    · intro g
      rw [hpipe]
      by_cases hg : g = f
      · rw [hg, hf]
        exact iff_of_true rfl rfl
      · rw [hother g hg]
        exact iff_of_false (fun heq => hg (Option.some.inj heq).symm) (hplace g)
    · rw [hpipe]
      exact fun hnone => absurd hnone (by simp)
    · rw [hpipe]
      exact (h.pipes p).attached
    · rw [hpipe]
      exact (h.pipes p).armed
    · intro g _
      rw [hpipe]
      exact ⟨harmed, hevent⟩
    · intro g hg
      by_cases hgf : g = f
      · rw [hgf, hf] at hg
        exact absurd hg (by simp)
      · rw [hother g hgf] at hg
        exact absurd (congrArg FiberPlace.pipe hg) (hplace g)
    · intro hgone
      exact absurd (halive.symm.trans hgone) (by simp)
  · intro g
    by_cases hg : g = f
    · rw [hg, hf]
      exact Function.update_self _ _ _
    · rw [hother g hg, ← h.lists.timeoutPipe g]
      exact Function.update_of_ne hg _ _
  · exact h.lists.list
  · rfl
  · rfl
  · rfl
  · intro g
    by_cases hg : g = f
    · left
      rw [hg, show (s.next (.sleepUntil f p now)).suspensions f = s.suspensions f + 1 from
        Function.update_self _ _ _]
      omega
    · right
      rw [hother g hg]
      exact ⟨(Function.update_of_ne hg _ _).symm, id⟩
  · intro g hg
    exact absurd (congrArg FiberPlace.pipe hg) (hplace g)

theorem inv_epollCtl (h : s.Inv) (hen : s.place f = .switched p) :
    (s.next (.epollCtl f)).Inv := by
  have hfp : (s.place f).pipe = some p := by
    rw [hen]
    rfl
  have hfiber := ((h.pipes p).fiber f).mpr hfp
  have hagree := (h.pipes p).attached ((h.pipes p).alive hfiber)
  obtain ⟨-, hevent⟩ := (h.pipes p).switched f hen
  have hnext : s.next (.epollCtl f) =
      { s.attach p with place := Function.update s.place f (.suspended p) } := by
    simp only [next, hen]
  have hf : (s.next (.epollCtl f)).place f = .suspended p := by
    rw [hnext]
    exact Function.update_self _ _ _
  have hother (g : F) (hg : g ≠ f) : (s.next (.epollCtl f)).place g = s.place g := by
    rw [hnext]
    exact Function.update_of_ne hg _ _
  -- `EPOLL_CTL_ADD` or `EPOLL_CTL_MOD`, whichever does not fail
  have hpipe : (s.next (.epollCtl f)).pipe p =
      { s.pipe p with attached := true, registered := true, armed := true } := by
    rw [hnext]
    show (s.attach p).pipe p = _
    rw [attach, setPipe, hagree]
    simp
  have hplace (g : F) : ((s.next (.epollCtl f)).place g).pipe = (s.place g).pipe := by
    by_cases hg : g = f
    · rw [hg, hf, hen]
      rfl
    · rw [hother g hg]
  apply h.step (p := p)
  · intro q hq
    constructor
    · rw [hnext]
      exact Function.update_of_ne hq _ _
    · intro g hg
      rw [hplace g, or_self] at hg
      apply hother
      rintro rfl
      exact hq (Option.some.inj (hg.symm.trans hfp))
    · rw [hnext]
      exact fun _ _ => rfl
    · rw [hnext]
      rfl
    · rw [hnext]
      exact Iff.rfl
    · rw [hnext]
      exact fun e he _ => he
    · rw [hnext]
      exact fun _ hsweep => hsweep
  · constructor
    · intro g
      rw [hpipe, hplace g]
      exact (h.pipes p).fiber g
    · rw [hpipe]
      exact fun hnone => absurd (hfiber.symm.trans hnone) (by simp)
    · rw [hpipe]
      exact fun _ => rfl
    · rw [hpipe]
      exact fun _ => ⟨rfl, hevent⟩
    · intro g hg
      have hgf := (h.pipes p).eq_of_pipe hfp (by rw [← hplace g, hg]; rfl)
      rw [hgf, hf] at hg
      exact absurd hg (by simp)
    · intro g _ hout
      rw [hpipe] at hout
      exact absurd hout (by simp)
    · intro hgone
      rw [hnext] at hgone
      exact absurd (((h.pipes p).alive hfiber).symm.trans hgone) (by simp)
  · intro g
    rw [hplace g, hnext]
    exact h.lists.timeoutPipe g
  · rw [hnext]
    exact h.lists.list
  · rw [hnext]
    rfl
  · rw [hnext]
    rfl
  · rw [hnext]
    rfl
  · intro g
    right
    refine ⟨by rw [hnext]; rfl, ?_⟩
    intro hrun
    rw [hother g, hrun]
    rintro rfl
    rw [hen] at hrun
    exact absurd hrun (by simp)
  · intro g hg
    have hgf := (h.pipes p).eq_of_pipe hfp (by rw [hg]; rfl)
    rw [hgf, hen] at hg
    exact absurd hg (by simp)

theorem inv_epollWait (h : s.Inv) (hen : s.enabled (.epollWait p)) :
    (s.next (.epollWait p)).Inv := by
  have harmed : (s.pipe p).armed = true := hen
  obtain ⟨hregistered, -⟩ := (h.pipes p).armed harmed
  have hpipe : (s.next (.epollWait p)).pipe p =
      { s.pipe p with armed := false, event := true } := Function.update_self _ _ _
  apply h.step (p := p)
  · intro q hq
    exact ⟨Function.update_of_ne hq _ _, fun _ _ => rfl, fun _ _ => rfl, rfl, Iff.rfl,
      fun e he _ => he, fun _ hsweep => hsweep⟩
  · constructor
    · rw [hpipe]
      exact (h.pipes p).fiber
    · rw [hpipe]
      intro hidle
      rw [((h.pipes p).idle hidle).1] at harmed
      exact absurd harmed (by simp)
    · rw [hpipe]
      exact (h.pipes p).attached
    · rw [hpipe]
      exact fun hfalse => absurd hfalse (by simp)
    · intro f hf
      rw [((h.pipes p).switched f hf).1] at harmed
      exact absurd harmed (by simp)
    · intro f _ hout
      rw [hpipe] at hout
      exact absurd (hregistered.symm.trans hout) (by simp)
    · rw [hpipe]
      exact (h.pipes p).gone
  · exact h.lists.timeoutPipe
  · exact h.lists.list
  · rfl
  · rfl
  · rfl
  · exact fun f => Or.inr ⟨rfl, id⟩
  · exact fun _ _ => hregistered

/-! ## Resumptions -/

/-- The fiber that sleeps on a pipe is resumed. -/
def wake (s : SweepState P F) (f : F) (p : P) (cause : Cause) : SweepState P F :=
  { s.setPipe p { s.pipe p with event := false, ioFiber := none, ioTimeout := forever } with
    place := Function.update s.place f .running
    timeoutPipe := Function.update s.timeoutPipe f none
    timedOut := s.timedOut.filter fun e => e.1 ≠ p
    resumptions := ⟨f, s.suspensions f, cause, true⟩ :: s.resumptions }

theorem apart_wake (hf : s.place f = .suspended p) (cause : Cause) (hq : q ≠ p) :
    Apart s (s.wake f p cause) q := by
  refine ⟨Function.update_of_ne hq _ _, ?_, fun _ _ => rfl, rfl, Iff.rfl, ?_,
    fun _ hsweep => hsweep⟩
  · intro g hg
    apply Function.update_of_ne
    rintro rfl
    rw [hf, show (s.wake g p cause).place g = .running from Function.update_self _ _ _] at hg
    rcases hg with hg | hg
    · exact hq (Option.some.inj hg).symm
    · exact absurd hg (by simp [FiberPlace.pipe])
  · intro e he heq
    apply List.mem_filter.mpr
    exact ⟨he, decide_eq_true (heq ▸ hq)⟩

theorem pipeInv_wake (h : s.Inv) (hf : s.place f = .suspended p) (cause : Cause)
    (harmed : (s.pipe p).armed = false) : (s.wake f p cause).PipeInv p := by
  have hfp : (s.place f).pipe = some p := by
    rw [hf]
    rfl
  have hpipe : (s.wake f p cause).pipe p =
      { s.pipe p with event := false, ioFiber := none, ioTimeout := forever } :=
    Function.update_self _ _ _
  have hplace (g : F) : ((s.wake f p cause).place g).pipe ≠ some p := by
    intro hg
    by_cases hgf : g = f
    · rw [hgf, show (s.wake f p cause).place f = .running from Function.update_self _ _ _] at hg
      exact absurd hg (by simp [FiberPlace.pipe])
    · rw [show (s.wake f p cause).place g = s.place g from Function.update_of_ne hgf _ _] at hg
      exact hgf ((h.pipes p).eq_of_pipe hfp hg)
  constructor
  · intro g
    rw [hpipe]
    exact iff_of_false (by simp) (hplace g)
  · rw [hpipe]
    exact fun _ => ⟨harmed, rfl⟩
  · rw [hpipe]
    exact (h.pipes p).attached
  · rw [hpipe]
    exact fun htrue => absurd (harmed.symm.trans htrue) (by simp)
  · intro g hg
    exact absurd (congrArg FiberPlace.pipe hg) (hplace g)
  · intro g hg
    exact absurd (congrArg FiberPlace.pipe hg) (hplace g)
  · intro hgone
    have halive := (h.pipes p).alive ((h.pipes p).ioFiber_eq hf)
    exact absurd (halive.symm.trans hgone) (by simp)

theorem recordInv_wake (h : s.Inv) (hf : s.place f = .suspended p) {cause : Cause}
    (hcause : cause = if (s.pipe p).event then Cause.io else Cause.timeout) :
    (s.wake f p cause).RecordInv := by
  have hrecords := h.records
  have hrunning : (s.wake f p cause).place f = .running := Function.update_self _ _ _
  -- the suspension that ends has not ended before
  have hnew : ∀ r ∈ s.resumptions, r.fiber = f → r.suspension < s.suspensions f := by
    intro r hr hrf
    rcases hrecords.old r hr with hlt | ⟨-, hrun⟩
    · rwa [hrf] at hlt
    · rw [hrf, hf] at hrun
      exact absurd hrun (by simp)
  constructor
  · intro r hr
    rcases List.mem_cons.mp hr with rfl | hr
    · exact Or.inr ⟨rfl, hrunning⟩
    · apply (hrecords.old r hr).imp_right
      rintro ⟨heq, hrun⟩
      refine ⟨heq, ?_⟩
      by_cases hrf : r.fiber = f
      · rw [hrf]
        exact hrunning
      · rw [show (s.wake f p cause).place r.fiber = s.place r.fiber from
          Function.update_of_ne hrf _ _]
        exact hrun
  · show ((f, s.suspensions f) :: s.resumptions.map fun r => (r.fiber, r.suspension)).Nodup
    apply List.nodup_cons.mpr
    refine ⟨?_, hrecords.once⟩
    intro hmem
    obtain ⟨r, hr, heq⟩ := List.mem_map.mp hmem
    have hlt := hnew r hr (congrArg Prod.fst heq)
    have hsame : r.suspension = s.suspensions f := congrArg Prod.snd heq
    omega
  · intro r hr
    rcases List.mem_cons.mp hr with rfl | hr
    · rfl
    · exact hrecords.rightly r hr
  · exact hrecords.attached
  · intro d hd g n hg
    rcases hrecords.detached d hd g n hg with ⟨r, hr, hended⟩ | hpending
    · exact Or.inl ⟨r, List.mem_cons_of_mem _ hr, hended⟩
    · by_cases hdp : d.pipe = p
      · have hplace := hpending.place
        have hevent := hpending.event
        rw [hdp] at hplace hevent
        have hgf : g = f := (h.pipes p).eq_of_pipe (by rw [hf]; rfl) (by rw [hplace]; rfl)
        refine Or.inl ⟨_, List.mem_cons_self, hgf.symm, ?_, ?_⟩
        · rw [← hpending.suspension, hgf]
        · rw [Detachment.cause, ← hevent]
          exact hcause
      · exact Or.inr (hpending.apart (apart_wake hf cause hdp))

/-- A resumption of a fiber that has an event, or that is on a list `timed_out`. -/
theorem Inv.wake (h : s.Inv) (hf : s.place f = .suspended p) {cause : Cause}
    (hcause : cause = if (s.pipe p).event then Cause.io else Cause.timeout)
    (harmed : (s.pipe p).armed = false) : (s.wake f p cause).Inv := by
  have hst : ∀ q, q ≠ p → Apart s (s.wake f p cause) q := fun q hq => apart_wake hf cause hq
  constructor
  · intro q
    by_cases hq : q = p
    · rw [hq]
      exact pipeInv_wake h hf cause harmed
    · exact (h.pipes q).apart (hst q hq)
  · apply h.lists.apart hst
    · intro g
      by_cases hg : g = f
      · rw [hg, show (s.wake f p cause).place f = .running from Function.update_self _ _ _]
        exact Function.update_self _ _ _
      · rw [show (s.wake f p cause).place g = s.place g from Function.update_of_ne hg _ _,
          ← h.lists.timeoutPipe g]
        exact Function.update_of_ne hg _ _
    · exact h.lists.list
    · exact List.filter_sublist
    · intro e he hep
      exact absurd hep (of_decide_eq_true (List.mem_filter.mp he).2)
  · exact recordInv_wake h hf hcause

/-- An event resumes the fiber that sleeps on its pipe. -/
theorem next_ioAvail (h : s.Inv) (hen : s.enabled (.ioAvail p)) :
    ∃ f, s.place f = .suspended p ∧ s.next (.ioAvail p) = s.wake f p .io := by
  have hevent : (s.pipe p).event = true := hen
  obtain ⟨f, hf⟩ := (h.pipes p).exists_suspended hevent
  have hfiber := (h.pipes p).ioFiber_eq hf
  have hfilter : s.timedOut.filter (fun e => e.1 ≠ p) = s.timedOut := by
    apply List.filter_eq_self.mpr
    intro e he
    apply decide_eq_true
    intro hep
    have hnone := (h.lists.expired e he).2.2.2.1
    rw [hep, hevent] at hnone
    exact absurd hnone (by simp)
  refine ⟨f, hf, ?_⟩
  rw [wake, hfilter]
  simp [next, setPipe, resume, hfiber, hf, FiberPlace.pipe]

/-- A second phase resumes the fiber that sleeps on a pipe of its list. -/
theorem next_timeOut (h : s.Inv) (hen : s.enabled (.timeOut p sweep)) :
    ∃ f, s.place f = .suspended p ∧ s.next (.timeOut p sweep) = s.wake f p .timeout := by
  have hmem : (p, sweep) ∈ s.timedOut := hen
  obtain ⟨-, ⟨f, hf⟩, -, hevent, hdue⟩ := h.lists.expired (p, sweep) hmem
  have hfiber := (h.pipes p).ioFiber_eq hf
  have herase : s.timedOut.erase (p, sweep) = s.timedOut.filter fun e => e.1 ≠ p := by
    rw [h.lists.timedOut.of_map.erase_eq_filter]
    apply List.filter_congr
    intro e he
    have hsame : e = (p, sweep) ↔ e.1 = p := by
      constructor
      · intro heq
        rw [heq]
      · intro hep
        exact List.inj_on_of_nodup_map h.lists.timedOut he hmem hep
    rw [bne, Bool.eq_iff_iff, Bool.not_eq_true', beq_eq_false_iff_ne, decide_eq_true_eq]
    exact not_congr hsame
  refine ⟨f, hf, ?_⟩
  rw [wake, ← herase]
  simp [next, setPipe, resume, hfiber, hf, hdue, hevent, FiberPlace.pipe]

theorem inv_ioAvail (h : s.Inv) (hen : s.enabled (.ioAvail p)) : (s.next (.ioAvail p)).Inv := by
  obtain ⟨f, hf, hnext⟩ := next_ioAvail h hen
  have hevent : (s.pipe p).event = true := hen
  rw [hnext]
  apply h.wake hf
  · rw [hevent]
    rfl
  · by_contra harmed
    rw [((h.pipes p).armed (by simpa using harmed)).2] at hevent
    exact absurd hevent (by simp)

theorem inv_timeOut (h : s.Inv) (hen : s.enabled (.timeOut p sweep)) :
    (s.next (.timeOut p sweep)).Inv := by
  obtain ⟨f, hf, hnext⟩ := next_timeOut h hen
  obtain ⟨-, -, hregistered, hevent, -⟩ := h.lists.expired (p, sweep) hen
  rw [hnext]
  apply h.wake hf
  · rw [hevent]
    rfl
  · by_contra harmed
    rw [((h.pipes p).armed (by simpa using harmed)).1] at hregistered
    exact absurd hregistered (by simp)
end SweepState

end Anon.Fiber.PipeSweep
