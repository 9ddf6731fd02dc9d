import Anon.Fiber.PipeSweep

/-!
# The invariant of the pipes

* `PipeInv`: what holds of a pipe and the fiber that sleeps on it.
* `RecordInv`: what holds of the records of resumptions and detachments.
* `Apart`: what a step leaves alone for the pipes that it has no part in.
* `Inv.step`: a step of one pipe keeps the invariant if it does so for the pipe.
-/

namespace Anon.Fiber.PipeSweep

variable {P F : Type} {s t : SweepState P F} {p q : P} {f g : F}
  {sweep : Sweep} {wanted : Sweep → Prop}

namespace SweepState

/-! ## One pipe -/

/-- A second phase that is still to run, or to go on, resumes the fiber of the pipe. -/
def Awaits (s : SweepState P F) (p : P) (wanted : Sweep → Prop) : Prop :=
  (∃ e ∈ s.timedOut, e.1 = p) ∨
    p ∈ s.list ∧ ∃ sweep ∈ s.sweeps, wanted sweep ∧ (s.pipe p).due sweep = true

/-- What holds of a pipe and the fiber that sleeps on it. -/
structure PipeInv (s : SweepState P F) (p : P) : Prop where
  fiber : ∀ f, (s.pipe p).ioFiber = some f ↔ (s.place f).pipe = some p
  idle : (s.pipe p).ioFiber = none → (s.pipe p).armed = false ∧ (s.pipe p).event = false
  attached : s.alive p = true → (s.pipe p).attached = (s.pipe p).registered
  armed : (s.pipe p).armed = true → (s.pipe p).registered = true ∧ (s.pipe p).event = false
  switched : ∀ f, s.place f = .switched p → (s.pipe p).armed = false ∧ (s.pipe p).event = false
  awaits : ∀ f, s.place f = .suspended p → (s.pipe p).registered = false →
    s.Awaits p fun _ => True
  gone : s.alive p = false →
    (s.pipe p).ioFiber = none ∧ (s.pipe p).registered = false ∧ p ∉ s.list

/-- What holds of the lists. -/
structure ListInv (s : SweepState P F) : Prop where
  timeoutPipe : ∀ f, s.timeoutPipe f = (s.place f).pipe
  list : s.list.Nodup
  timedOut : (s.timedOut.map Prod.fst).Nodup
  expired : ∀ e ∈ s.timedOut, e.1 ∉ s.list ∧ (∃ f, s.place f = .suspended e.1) ∧
    (s.pipe e.1).registered = false ∧ (s.pipe e.1).event = false ∧ (s.pipe e.1).due e.2 = true

/-! ## The records -/

/-- The fiber is still suspended. -/
structure Pending (s : SweepState P F) (d : Detachment P F) (f : F) (n : ℕ) : Prop where
  suspension : s.suspensions f = n
  place : s.place f = .suspended d.pipe
  registered : (s.pipe d.pipe).registered = false
  event : (s.pipe d.pipe).event = d.event
  awaits : s.Awaits d.pipe fun sweep => sweep.id = d.sweep

/-- What holds of the records. -/
structure RecordInv (s : SweepState P F) : Prop where
  old : ∀ r ∈ s.resumptions, r.suspension < s.suspensions r.fiber ∨
    r.suspension = s.suspensions r.fiber ∧ s.place r.fiber = .running
  once : (s.resumptions.map fun r => (r.fiber, r.suspension)).Nodup
  rightly : ∀ r ∈ s.resumptions, r.rightly = true
  attached : ∀ d ∈ s.detachments, d.attached = true
  detached : ∀ d ∈ s.detachments, ∀ f n, d.suspended f = some n →
    s.Ended f n d.cause ∨ s.Pending d f n

/-- The invariant. -/
structure Inv (s : SweepState P F) : Prop where
  pipes : ∀ p, s.PipeInv p
  lists : s.ListInv
  records : s.RecordInv

/-! ## Frames -/

/-- What stays the same for a pipe that a step has no part in. -/
structure Apart (s t : SweepState P F) (q : P) : Prop where
  pipe : t.pipe q = s.pipe q
  place : ∀ f, (s.place f).pipe = some q ∨ (t.place f).pipe = some q → t.place f = s.place f
  suspension : ∀ f, (s.place f).pipe = some q → t.suspensions f = s.suspensions f
  alive : t.alive q = s.alive q
  list : q ∈ t.list ↔ q ∈ s.list
  timedOut : ∀ e ∈ s.timedOut, e.1 = q → e ∈ t.timedOut
  sweeps : ∀ sweep ∈ s.sweeps, sweep ∈ t.sweeps

theorem Awaits.apart (h : s.Awaits q wanted) (hst : Apart s t q) : t.Awaits q wanted := by
  rcases h with ⟨e, he, hq⟩ | ⟨hlist, sweep, hsweep, hwanted, hdue⟩
  · exact Or.inl ⟨e, hst.timedOut e he hq, hq⟩
  · right
    refine ⟨hst.list.mpr hlist, sweep, hst.sweeps sweep hsweep, hwanted, ?_⟩
    rw [hst.pipe]
    exact hdue

theorem Apart.pipe_eq_some_iff (hst : Apart s t q) (f : F) :
    (t.place f).pipe = some q ↔ (s.place f).pipe = some q := by
  constructor
  · intro h
    rwa [← hst.place f (Or.inr h)]
  · intro h
    rwa [hst.place f (Or.inl h)]

theorem Apart.suspended_iff (hst : Apart s t q) (f : F) :
    t.place f = .suspended q ↔ s.place f = .suspended q := by
  constructor
  · intro h
    rwa [← hst.place f (Or.inr (by rw [h]; rfl))]
  · intro h
    rwa [hst.place f (Or.inl (by rw [h]; rfl))]

theorem Apart.switched_iff (hst : Apart s t q) (f : F) :
    t.place f = .switched q ↔ s.place f = .switched q := by
  constructor
  · intro h
    rwa [← hst.place f (Or.inr (by rw [h]; rfl))]
  · intro h
    rwa [hst.place f (Or.inl (by rw [h]; rfl))]

theorem PipeInv.apart (h : s.PipeInv q) (hst : Apart s t q) : t.PipeInv q := by
  constructor
  · intro f
    rw [hst.pipe, hst.pipe_eq_some_iff]
    exact h.fiber f
  · rw [hst.pipe]
    exact h.idle
  · rw [hst.pipe, hst.alive]
    exact h.attached
  · rw [hst.pipe]
    exact h.armed
  · intro f hf
    rw [hst.pipe]
    exact h.switched f ((hst.switched_iff f).mp hf)
  · intro f hf hregistered
    rw [hst.pipe] at hregistered
    exact (h.awaits f ((hst.suspended_iff f).mp hf) hregistered).apart hst
  · intro halive
    rw [hst.alive] at halive
    rw [hst.pipe, hst.list]
    exact h.gone halive

theorem Pending.apart {d : Detachment P F} {n : ℕ} (h : s.Pending d f n)
    (hst : Apart s t d.pipe) : t.Pending d f n := by
  have hpipe : (s.place f).pipe = some d.pipe := by
    rw [h.place]
    rfl
  constructor
  · rw [hst.suspension f hpipe]
    exact h.suspension
  · exact (hst.suspended_iff f).mpr h.place
  · rw [hst.pipe]
    exact h.registered
  · rw [hst.pipe]
    exact h.event
  · exact h.awaits.apart hst

/-- A step of the pipe `p` alone leaves the lists in order, if it does so for the pipe. -/
theorem ListInv.apart (h : s.ListInv) (hst : ∀ q, q ≠ p → Apart s t q)
    (htimeout : ∀ f, t.timeoutPipe f = (t.place f).pipe) (hlist : t.list.Nodup)
    (hsub : t.timedOut.Sublist s.timedOut)
    (hp : ∀ e ∈ t.timedOut, e.1 = p → p ∉ t.list ∧ (∃ f, t.place f = .suspended p) ∧
      (t.pipe p).registered = false ∧ (t.pipe p).event = false ∧ (t.pipe p).due e.2 = true) :
    t.ListInv := by
  refine ⟨htimeout, hlist, h.timedOut.sublist (hsub.map _), ?_⟩
  intro e he
  by_cases hep : e.1 = p
  · rw [hep]
    exact hp e he hep
  · have hapart := hst e.1 hep
    obtain ⟨hnot, ⟨f, hf⟩, hrest⟩ := h.expired e (hsub.subset he)
    rw [hapart.list, hapart.pipe]
    exact ⟨hnot, ⟨f, (hapart.suspended_iff f).mpr hf⟩, hrest⟩

/-- A step of the pipe `p` alone that adds no record. -/
theorem RecordInv.apart (h : s.RecordInv) (hst : ∀ q, q ≠ p → Apart s t q)
    (hresumptions : t.resumptions = s.resumptions) (hdetachments : t.detachments = s.detachments)
    (hold : ∀ f, s.suspensions f < t.suspensions f ∨
      s.suspensions f = t.suspensions f ∧ (s.place f = .running → t.place f = .running))
    (hp : ∀ d f n, d.pipe = p → s.Pending d f n → t.Pending d f n) : t.RecordInv := by
  constructor
  · rw [hresumptions]
    intro r hr
    rcases hold r.fiber with hlt | ⟨heq, hrun⟩
    · rcases h.old r hr with hr | ⟨hr, -⟩
      · exact Or.inl (hr.trans hlt)
      · exact Or.inl (hr ▸ hlt)
    · rw [← heq]
      exact (h.old r hr).imp_right fun hr => ⟨hr.1, hrun hr.2⟩
  · rw [hresumptions]
    exact h.once
  · rw [hresumptions]
    exact h.rightly
  · rw [hdetachments]
    exact h.attached
  · rw [hdetachments]
    intro d hd f n hf
    rcases h.detached d hd f n hf with hended | hpending
    · left
      rw [Ended, hresumptions]
      exact hended
    · right
      by_cases hdp : d.pipe = p
      · exact hp d f n hdp hpending
      · exact hpending.apart (hst d.pipe hdp)

/-! ## Consequences -/

/-- The fiber of a pipe that it is suspended on. -/
theorem PipeInv.ioFiber_eq (h : s.PipeInv p) (hplace : s.place f = .suspended p) :
    (s.pipe p).ioFiber = some f := by
  apply (h.fiber f).mpr
  rw [hplace]
  rfl

/-- No fiber sleeps on the pipe. -/
theorem PipeInv.place_ne (h : s.PipeInv p) (hidle : (s.pipe p).ioFiber = none) (f : F) :
    (s.place f).pipe ≠ some p := by
  intro hf
  rw [(h.fiber f).mpr hf] at hidle
  exact absurd hidle (by simp)

theorem PipeInv.alive (h : s.PipeInv p) (hf : (s.pipe p).ioFiber = some f) : s.alive p = true := by
  by_contra halive
  rw [(h.gone (by simpa using halive)).1] at hf
  exact absurd hf (by simp)

theorem PipeInv.alive_of_mem (h : s.PipeInv p) (hp : p ∈ s.list) : s.alive p = true := by
  by_contra halive
  exact (h.gone (by simpa using halive)).2.2 hp

/-- A fiber that sleeps on the pipe is the only one. -/
theorem PipeInv.eq_of_pipe (h : s.PipeInv p) (hf : (s.place f).pipe = some p)
    (hg : (s.place g).pipe = some p) : g = f := by
  have hfiber := (h.fiber f).mpr hf
  rw [(h.fiber g).mpr hg] at hfiber
  exact Option.some.inj hfiber

/-- A fiber that sleeps on the pipe, after its parent's call of `epoll_ctl`. -/
theorem suspended_of_pipe (hf : (s.place f).pipe = some p) (hne : s.place f ≠ .switched p) :
    s.place f = .suspended p := by
  cases hplace : s.place f with
  | running =>
    rw [hplace] at hf
    exact absurd hf (by simp [FiberPlace.pipe])
  | switched q =>
    rw [hplace] at hf
    rw [Option.some.inj hf] at hplace
    exact absurd hplace hne
  | suspended q =>
    rw [hplace] at hf
    rw [Option.some.inj hf]

/-- A fiber sleeps on a pipe for which there is an event. -/
theorem PipeInv.exists_suspended (h : s.PipeInv p) (hevent : (s.pipe p).event = true) :
    ∃ f, s.place f = .suspended p := by
  cases hfiber : (s.pipe p).ioFiber with
  | none =>
    rw [(h.idle hfiber).2] at hevent
    exact absurd hevent (by simp)
  | some f =>
    refine ⟨f, suspended_of_pipe ((h.fiber f).mp hfiber) ?_⟩
    intro hplace
    rw [(h.switched f hplace).2] at hevent
    exact absurd hevent (by simp)

/-! ## One step -/

/-- A step of the pipe `p` alone, which is not one of a sweep, and at which the pipe is not
detached. -/
theorem Inv.step (h : s.Inv) (hst : ∀ q, q ≠ p → Apart s t q) (hpipe : t.PipeInv p)
    (htimeout : ∀ f, t.timeoutPipe f = (t.place f).pipe) (hlist : t.list.Nodup)
    (htimedOut : t.timedOut = s.timedOut) (hresumptions : t.resumptions = s.resumptions)
    (hdetachments : t.detachments = s.detachments)
    (hold : ∀ f, s.suspensions f < t.suspensions f ∨
      s.suspensions f = t.suspensions f ∧ (s.place f = .running → t.place f = .running))
    (hno : ∀ f, s.place f = .suspended p → (s.pipe p).registered = true) : t.Inv := by
  constructor
  · intro q
    by_cases hq : q = p
    · rw [hq]
      exact hpipe
    · exact (h.pipes q).apart (hst q hq)
  · apply h.lists.apart hst htimeout hlist (by rw [htimedOut])
    intro e he hep
    rw [htimedOut] at he
    obtain ⟨-, ⟨f, hf⟩, hregistered, -⟩ := h.lists.expired e he
    rw [hep] at hf hregistered
    rw [hno f hf] at hregistered
    exact absurd hregistered (by simp)
  · apply h.records.apart hst hresumptions hdetachments hold
    intro d f n hdp hpending
    have hregistered := hpending.registered
    rw [hdp, hno f (hdp ▸ hpending.place)] at hregistered
    exact absurd hregistered (by simp)

variable [DecidableEq P]

/-- A change of a pipe that leaves alone who sleeps on it and what epoll knows of it, and by which
no second phase loses the pipe. -/
theorem Inv.setPipe (h : s.Inv) (pipe : FiberPipe F)
    (hfiber : pipe.ioFiber = (s.pipe p).ioFiber) (hattached : pipe.attached = (s.pipe p).attached)
    (hregistered : pipe.registered = (s.pipe p).registered)
    (harmed : pipe.armed = (s.pipe p).armed) (hevent : pipe.event = (s.pipe p).event)
    (hdue : ∀ f, s.place f = .suspended p → (s.pipe p).registered = false →
      ∀ sweep, (s.pipe p).due sweep = true → pipe.due sweep = true) :
    (s.setPipe p pipe).Inv := by
  have hp : (s.setPipe p pipe).pipe p = pipe := Function.update_self _ _ _
  have hst : ∀ q, q ≠ p → Apart s (s.setPipe p pipe) q := by
    intro q hq
    exact ⟨Function.update_of_ne hq _ _, fun _ _ => rfl, fun _ _ => rfl, rfl, Iff.rfl,
      fun e he _ => he, fun _ hsweep => hsweep⟩
  have hawaits (wanted : Sweep → Prop) (f : F) (hf : s.place f = .suspended p)
      (hout : (s.pipe p).registered = false) (hs : s.Awaits p wanted) :
      (s.setPipe p pipe).Awaits p wanted := by
    rcases hs with htimedOut | ⟨hlist, sweep, hsweep, hwanted, hs⟩
    · exact Or.inl htimedOut
    · right
      refine ⟨hlist, sweep, hsweep, hwanted, ?_⟩
      rw [hp]
      exact hdue f hf hout sweep hs
  constructor
  · intro q
    by_cases hq : q = p
    · rw [hq]
      constructor
      · rw [hp, hfiber]
        exact (h.pipes p).fiber
      · rw [hp, hfiber, harmed, hevent]
        exact (h.pipes p).idle
      · rw [hp, hattached, hregistered]
        exact (h.pipes p).attached
      · rw [hp, harmed, hregistered, hevent]
        exact (h.pipes p).armed
      · rw [hp, harmed, hevent]
        exact (h.pipes p).switched
      · rw [hp, hregistered]
        intro f hf hout
        exact hawaits _ f hf hout ((h.pipes p).awaits f hf hout)
      · rw [hp, hfiber, hregistered]
        exact (h.pipes p).gone
    · exact (h.pipes q).apart (hst q hq)
  · apply h.lists.apart hst h.lists.timeoutPipe h.lists.list (List.Sublist.refl _)
    intro e he hep
    obtain ⟨hnot, ⟨f, hf⟩, hout, hnone, hs⟩ := h.lists.expired e he
    rw [hep] at hnot hf hout hnone hs
    rw [hp, hregistered, hevent]
    exact ⟨hnot, ⟨f, hf⟩, hout, hnone, hdue f hf hout e.2 hs⟩
  · apply h.records.apart hst rfl rfl fun f => Or.inr ⟨rfl, id⟩
    intro d f n hdp hpending
    have hf := hpending.place
    have hout := hpending.registered
    have hawait := hpending.awaits
    have hnone := hpending.event
    rw [hdp] at hf hout hawait hnone
    constructor
    · exact hpending.suspension
    · rw [hdp]
      exact hf
    · rw [hdp, hp, hregistered]
      exact hout
    · rw [hdp, hp, hevent]
      exact hnone
    · rw [hdp]
      exact hawaits _ f hf hout hawait
end SweepState

end Anon.Fiber.PipeSweep
