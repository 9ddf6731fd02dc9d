import Anon.Fiber.NetPipesPlaces

/-!
# The regular sweep is always scheduled

`next_pipe_sweep_` is meant to have an id if and only if a regular sweep is pending: as a timer
task, on a thread, or among the at-rest functions. The constructor of a network pipe and the sweeps
themselves keep it so, with three exceptions: a refused sweep that finds no network pipe, a sweep
whose function throws in the pause, and a task that gets the id of a default `scheduled_task`.

* `SweepScheduled`: while there are network pipes, one regular sweep is pending.
* `Reschedules`: the condition on the steps.
* `Waiting`: the at-rest functions of sweeps are among those of `io_dispatch`.
* `sweep_scheduled`: every run whose steps meet the condition.
-/

namespace Anon.Fiber.NetPipes

open Anon.IoDispatch NetState

variable {A : Type} [Fintype A] [DecidableEq A] {io : A → Bool} {s s' : NetState A}
  {y : NetAction A} {a b : A} {c : NetCall}

/-! ## Pending sweeps -/

/-- One for a thread that runs a regular sweep, up to the mutex. -/
def SweepPc.regular : SweepPc → ℤ
  | .start false | .pausing false | .waking false => 1
  | _ => 0

/-- One for a thread that locks the mutex for a regular sweep, up to its look at the counters. -/
def LockPc.regular : LockPc → ℤ
  | .lock c | .backOff c | .sleep c | .locked c => if c.inFiber then 0 else 1
  | _ => 0

/-- The regular sweeps that are timer tasks, that a thread runs, and that wait as at-rest
functions. -/
def pendingSweeps (s : NetState A) : ℤ :=
  s.tasks.countP (fun e => !e.2) + count SweepPc.regular s.sweep + count LockPc.regular s.call +
    s.restFunctions.countP fun e => !e.2 && decide (e.1 ∈ s.dispatch.atRestFunctions)

/-- While the mutex is free and there are network pipes, one regular sweep is pending. -/
def SweepScheduled (s : NetState A) : Prop :=
  (∀ a, (s.call a).holds = false) → 0 < s.numNetPipes → pendingSweeps s = 1

/-- The function of a regular sweep does not throw, a refused regular sweep finds a network pipe,
and no regular sweep gets the id of a default `scheduled_task`. -/
def Reschedules (s : NetState A) : NetAction A → Prop
  | .detach a throws => s.sweep a = .pausing false → throws = false
  | .update a now =>
    match s.call a with
    | .locked c =>
      (c = .refused → 0 < s.numNetPipes) ∧
        (s.schedules c = true → (s.newTask now).id ≠ noTask.id)
    | _ => True
  | _ => True

/-! ## At-rest functions -/

/-- The at-rest functions of sweeps that have not been started are registered with `io_dispatch`,
and whoever runs at-rest functions has them before it. -/
structure Waiting (d : PauseState A) (l : List (ℕ × Bool)) : Prop where
  registered : ∀ e ∈ l, e.1 ∈ d.atRestFunctions
  todo : ∀ e ∈ l, ∀ a todo, (d.pc a).resting = some todo → e.1 ∈ todo
  numbered : ∀ e ∈ l, e.1 < d.registrations
  nodup : (l.map Prod.fst).Nodup

section Waiting

variable {d d' : PauseState A} {x : PauseAction A} {l l' : List (ℕ × Bool)}

/-- A step of `io_dispatch` that does not start one of these functions. -/
theorem Waiting.step (hp : Places io d) (h : Waiting d l) (hm : IoDispatch.Moves io d x d')
    (hl : l'.Sublist l)
    (hx : ∀ a f todo, x = .runAtRest a → d.pc a = .atRest (f :: todo) → ∀ e ∈ l', e.1 ≠ f) :
    Waiting d' l' := by
  refine ⟨fun e he => ?_, fun e he a todo ha => ?_, fun e he => ?_, h.nodup.sublist (hl.map _)⟩
  · obtain hmem | hend := mem_atRestFunctions_step hm (h.registered e (hl.subset he))
    · exact hmem
    · have hnil := h.todo e (hl.subset he) x.actor [] (by rw [hend]; rfl)
      exact absurd hnil List.not_mem_nil
  · obtain hold | ⟨-, hlock⟩ | ⟨hrun, f, hf⟩ := resting_step hp hm ha
    · exact h.todo e (hl.subset he) a todo hold
    · rw [hlock]
      exact h.registered e (hl.subset he)
    · have hmem := h.todo e (hl.subset he) a (f :: todo) (by rw [hf]; rfl)
      exact (List.mem_cons.mp hmem).resolve_left (hx a f todo hrun hf e he)
  · exact lt_of_lt_of_le (h.numbered e (hl.subset he)) (registrations_step hm)

/-- The function of a sweep is called in the pause, and leaves another function. -/
theorem Waiting.registers (hp : Places io d) (h : Waiting d l)
    (hm : IoDispatch.Moves io d (.call a false) d') (ha : inPause2 (d.pc a) = true)
    (hibernating : Bool) :
    Waiting d' ((d.registrations, hibernating) :: l) := by
  have hcom : (d.pc a).holdsCom = true := by
    cases hm with
    | callWhilePaused a p throws hpc => rw [hpc]; rfl
    | callWhilePaused2 a p throws hpc => rw [hpc]; rfl
  have hbase := h.step hp hm (List.Sublist.refl l) (fun _ _ _ hx => absurd hx (by simp))
  have hbooks : d'.atRestFunctions = d.registrations :: d.atRestFunctions ∧
      d'.registrations = d.registrations + 1 := by
    cases hm with
    | callWhilePaused a p throws hpc =>
      rw [hpc] at ha
      exact absurd ha (by simp [inPause2, PauseKind.fromIo])
    | callWhilePaused2 a p throws hpc =>
      simp only [PauseState.endWhilePaused2]
      split <;> exact ⟨rfl, rfl⟩
  refine ⟨?_, ?_, ?_, ?_⟩
  · intro e he
    obtain rfl | he := List.mem_cons.mp he
    · rw [hbooks.1]
      exact List.mem_cons_self ..
    · exact hbase.registered e he
  · intro e he b todo hb
    obtain rfl | he := List.mem_cons.mp he
    · -- nobody runs at-rest functions during the pause
      obtain hold | ⟨hx, -⟩ | ⟨hx, -⟩ := resting_step hp hm hb
      · have hholds : (d.pc b).holdsCom = true := by
          cases hpc : d.pc b <;> simp [hpc, Pc.resting, Pc.holdsCom] at hold ⊢
        rw [hp.com.unique hholds hcom] at hold
        cases hpc : d.pc a <;> simp [hpc, inPause2, Pc.resting] at ha hold
      · exact absurd hx (by simp)
      · exact absurd hx (by simp)
    · exact hbase.todo e he b todo hb
  · intro e he
    obtain rfl | he := List.mem_cons.mp he
    · rw [hbooks.2]
      exact Nat.lt_succ_self _
    · exact hbase.numbered e he
  · rw [List.map_cons, List.nodup_cons]
    refine ⟨fun hmem => ?_, h.nodup⟩
    obtain ⟨e, he, heq⟩ := List.mem_map.mp hmem
    have hlt := h.numbered e he
    omega

end Waiting

theorem Waiting.netStep (hctx : Contexts io s) (h : Waiting s.dispatch s.restFunctions)
    (hm : NetMoves io s y s') : Waiting s'.dispatch s'.restFunctions := by
  cases hm with
  | io x d hd hbusy hcalls =>
    refine h.step hctx.places hd (List.Sublist.refl _) fun a f todo hx hpc e he hef => ?_
    have hcall : s.callsSweep x = true := by
      rw [hx]
      simp only [callsSweep, hpc, decide_eq_true_eq]
      exact List.mem_map.mpr ⟨e, he, hef⟩
    exact absurd (hcall.symm.trans hcalls) (by simp)
  | pause a hibernating d ha hd =>
    exact h.step hctx.places hd (List.Sublist.refl _) fun _ _ _ hx => absurd hx (by simp)
  | detach a hibernating throws d ha hd =>
    have hfits := hctx.fits a
    rw [ha] at hfits
    cases throws with
    | true =>
      exact h.step hctx.places hd (List.Sublist.refl _) fun _ _ _ hx => absurd hx (by simp)
    | false => exact h.registers hctx.places hd hfits.1 hibernating
  | expire a hibernating d f todo ha hd hbusy hf =>
    refine h.step hctx.places hd List.erase_sublist fun a' f' todo' hx hpc e he hef => ?_
    -- the keys are different, so that what is left does not have the key of what was started
    have haa : a = a' := PauseAction.runAtRest.inj hx
    rw [← haa, ha] at hpc
    have hff : f = f' := (List.cons.inj (Pc.atRest.inj hpc)).1
    have hperm := (List.perm_cons_erase hf).map Prod.fst
    have hnodup := (hperm.nodup_iff.mp h.nodup)
    rw [List.map_cons, List.nodup_cons] at hnodup
    exact hnodup.1 (List.mem_map.mpr ⟨e, he, hef.trans hff.symm⟩)
  | update a c now ha =>
    obtain ⟨hdispatch, -, -, -, hrest, -⟩ := updateNext_rest (s := s) a c now
    rw [hdispatch, hrest]
    exact h
  | _ => exact h

theorem waiting_init : Waiting (netMachine io).init.dispatch (netMachine io).init.restFunctions :=
  ⟨fun _ he => absurd he List.not_mem_nil, fun _ he => absurd he List.not_mem_nil,
    fun _ he => absurd he List.not_mem_nil, List.nodup_nil⟩

/-! ## The balance -/

/-- The pending regular sweeps, whether or not `io_dispatch` knows their at-rest functions. -/
def owed (s : NetState A) : ℤ :=
  s.tasks.countP (fun e => !e.2) + count SweepPc.regular s.sweep + count LockPc.regular s.call +
    s.restFunctions.countP fun e => !e.2

omit [DecidableEq A] in
theorem owed_eq_pendingSweeps (h : Waiting s.dispatch s.restFunctions) :
    owed s = pendingSweeps s := by
  have hcount : (s.restFunctions.countP fun e => !e.2) =
      s.restFunctions.countP fun e => !e.2 && decide (e.1 ∈ s.dispatch.atRestFunctions) := by
    apply List.countP_congr
    intro e he
    simp [h.registered e he]
  rw [owed, pendingSweeps, hcount]

theorem SweepPc.regular_nonneg (w : SweepPc) : 0 ≤ w.regular := by
  unfold regular
  split <;> omega

theorem LockPc.regular_nonneg (pc : LockPc) : 0 ≤ pc.regular := by
  unfold regular
  split <;> (try split) <;> omega

omit [DecidableEq A] in
/-- A thread that locks the mutex for a regular sweep is one of the pending sweeps. -/
theorem regular_le_owed (a : A) : (s.call a).regular ≤ owed s := by
  have hcall := le_count (f := s.call) LockPc.regular_nonneg a
  have hsweep : 0 ≤ count SweepPc.regular s.sweep := count_nonneg SweepPc.regular_nonneg
  rw [owed]
  omega

/-- A step in which the thread `a` goes on with the mutex, and no sweep is scheduled. -/
theorem owed_calls {call : LockPc} (hcall : s'.call = Function.update s.call a call)
    (htasks : s'.tasks = s.tasks) (hsweep : s'.sweep = s.sweep)
    (hrest : s'.restFunctions = s.restFunctions) :
    owed s' = owed s + (call.regular - (s.call a).regular) := by
  rw [owed, owed, hcall, htasks, hsweep, hrest, count_update]
  ring

/-- The thread has scheduled a sweep and not yet assigned it. -/
def LockPc.assigns : LockPc → Option ScheduledTask
  | .assign _ task => some task
  | _ => none

/-- Only while a sweep is being assigned does `next_pipe_sweep_` not say whether one is pending. -/
structure Balanced (s : NetState A) : Prop where
  idle : (∀ a, (s.call a).assigns = none) →
    owed s = (if s.nextPipeSweep.id = noTask.id then 0 else 1) ∧
      (0 < s.numNetPipes → s.nextPipeSweep.id ≠ noTask.id)
  assigning : ∀ a task, (s.call a).assigns = some task → owed s = 1 ∧ task.id ≠ noTask.id

omit [DecidableEq A] in
/-- A step that changes neither the counters nor the number of pending sweeps. -/
theorem Balanced.keep (h : Balanced s) (howed : owed s' = owed s)
    (hnum : s'.numNetPipes = s.numNetPipes) (hnext : s'.nextPipeSweep = s.nextPipeSweep)
    (hassign : ∀ a, (s'.call a).assigns = (s.call a).assigns) : Balanced s' := by
  refine ⟨fun hnone => ?_, fun a task ha => ?_⟩
  · rw [howed, hnum, hnext]
    exact h.idle fun a => (hassign a).symm.trans (hnone a)
  · rw [howed]
    exact h.assigning a task ((hassign a).symm.trans ha)

/-- The same, when the thread `a` goes on with the mutex. -/
theorem Balanced.calls (h : Balanced s) {call : LockPc}
    (hcall : s'.call = Function.update s.call a call) (howed : owed s' = owed s)
    (hnum : s'.numNetPipes = s.numNetPipes) (hnext : s'.nextPipeSweep = s.nextPipeSweep)
    (hassign : call.assigns = (s.call a).assigns) : Balanced s' := by
  apply h.keep howed hnum hnext
  rw [hcall]
  exact forall_update (R := fun b (pc : LockPc) => pc.assigns = (s.call b).assigns)
    (fun _ => rfl) hassign

/-- A step in which the thread `a` goes on with the mutex and nothing else happens to the sweeps. -/
theorem Balanced.goes (h : Balanced s) {call : LockPc}
    (hcall : s'.call = Function.update s.call a call) (htasks : s'.tasks = s.tasks)
    (hsweep : s'.sweep = s.sweep) (hrest : s'.restFunctions = s.restFunctions)
    (hnum : s'.numNetPipes = s.numNetPipes) (hnext : s'.nextPipeSweep = s.nextPipeSweep)
    (hregular : call.regular = (s.call a).regular) (hassign : call.assigns = (s.call a).assigns) :
    Balanced s' := by
  apply h.calls hcall _ hnum hnext hassign
  rw [owed_calls hcall htasks hsweep hrest, hregular, sub_self, add_zero]

omit [DecidableEq A] in
/-- Nobody else assigns a sweep while the thread `a` has the mutex. -/
theorem Account.assigns_eq_none (h : Account s) (ha : (s.call a).holds = true) (hb : b ≠ a) :
    (s.call b).assigns = none := by
  cases hpc : s.call b <;> first | rfl | skip
  all_goals
    exact absurd (h.unique b a (by rw [hpc]; rfl) ha) hb

/-- What is done with the mutex. -/
theorem Balanced.update (hacc : Account s) (h : Balanced s) (ha : s.call a = .locked c)
    (now : Timespec) (hrefused : c = .refused → 0 < s.numNetPipes)
    (hid : s.schedules c = true → (s.newTask now).id ≠ noTask.id) :
    Balanced (s.updateNext a c now) := by
  have hholds : (s.call a).holds = true := by rw [ha]; rfl
  have hnone : ∀ b, (s.call b).assigns = none := by
    intro b
    by_cases hb : b = a
    · rw [hb, ha]
      rfl
    · exact hacc.assigns_eq_none hholds hb
  obtain ⟨howed, hnum⟩ := h.idle hnone
  have hpending := regular_le_owed (s := s) a
  rw [ha] at hpending
  by_cases hs : s.schedules c = true
  · -- the new task is pending instead of the sweep itself, or where there was none
    have howed' : owed (s.updateNext a c now) = 1 := by
      unfold updateNext
      rw [if_pos hs]
      cases c with
      | destroy => exact absurd hs (by simp [schedules])
      | waitForZero => exact absurd hs (by simp [schedules])
      | construct =>
        have hzero : s.nextPipeSweep.id = noTask.id := by
          simp only [schedules, decide_eq_true_eq] at hs
          exact hs.2
        rw [if_pos hzero] at howed
        simp only [owed] at howed
        simp [owed, ha, LockPc.regular, NetCall.inFiber]
        omega
      | swept =>
        have hpos : 0 < s.numNetPipes := by simpa [schedules] using hs
        rw [if_neg (hnum hpos)] at howed
        simp only [owed] at howed
        simp [owed, ha, LockPc.regular, NetCall.inFiber]
        omega
      | refused =>
        rw [if_neg (hnum (hrefused rfl))] at howed
        simp only [owed] at howed
        simp [owed, ha, LockPc.regular, NetCall.inFiber]
        omega
    have hcall := updateNext_call (s := s) a c now
    rw [if_pos hs] at hcall
    refine ⟨fun hnone' => ?_, fun b task hb => ⟨howed', ?_⟩⟩
    · have hself := hnone' a
      rw [hcall, Function.update_self] at hself
      exact absurd hself (by simp [LockPc.assigns])
    · rw [hcall] at hb
      by_cases hba : b = a
      · rw [hba, Function.update_self] at hb
        rw [← Option.some.inj hb]
        exact hid hs
      · rw [Function.update_of_ne hba, hnone b] at hb
        exact absurd hb (by simp)
  · have hcall := updateNext_call (s := s) a c now
    rw [if_neg hs] at hcall
    refine ⟨fun _ => ?_, fun b task hb => ?_⟩
    · have hkeeps : ∀ t : NetState A, t.call = Function.update s.call a (.unlock c) →
          t.tasks = s.tasks → t.sweep = s.sweep → t.restFunctions = s.restFunctions →
          t.nextPipeSweep = s.nextPipeSweep → (LockPc.locked c).regular = 0 →
          (0 < t.numNetPipes → s.nextPipeSweep.id ≠ noTask.id) →
          owed t = (if t.nextPipeSweep.id = noTask.id then 0 else 1) ∧
            (0 < t.numNetPipes → t.nextPipeSweep.id ≠ noTask.id) := by
        intro t hcall' htasks hsweep hrest hnext hzero hpos
        rw [owed_calls hcall' htasks hsweep hrest, ha, hzero, hnext, howed]
        exact ⟨add_zero _, hpos⟩
      unfold updateNext
      rw [if_neg hs]
      cases c with
      | construct =>
        have hne : ¬(s.numNetPipes + 1 = 1 ∧ s.nextPipeSweep.id = noTask.id) := by
          simpa only [schedules, decide_eq_true_eq] using hs
        refine hkeeps _ rfl rfl rfl rfl rfl rfl fun hpos => ?_
        by_cases hone : s.numNetPipes + 1 = 1
        · exact fun hz => hne ⟨hone, hz⟩
        · have hpos' : 0 < s.numNetPipes + 1 := hpos
          exact hnum (by omega)
      | destroy =>
        have hless : 0 < s.numNetPipes - 1 → s.nextPipeSweep.id ≠ noTask.id :=
          fun hpos => hnum (by omega)
        simp only [account]
        split
        · exact hkeeps _ rfl rfl rfl rfl rfl rfl hless
        · exact hkeeps _ rfl rfl rfl rfl rfl rfl hless
      | waitForZero =>
        simp only [account]
        split
        · exact hkeeps _ rfl rfl rfl rfl rfl rfl hnum
        · exact hkeeps _ rfl rfl rfl rfl rfl rfl hnum
      | swept =>
        have hle : ¬0 < s.numNetPipes := by simpa [schedules] using hs
        refine ⟨?_, fun hpos => absurd hpos hle⟩
        -- the sweep that ends here was the pending one
        have hone : owed s = 1 := by
          rw [howed] at hpending ⊢
          split
          · next hz =>
            rw [if_pos hz] at hpending
            exact absurd hpending (by decide)
          · rfl
        have hless : owed ((s.account a .swept).setCall a (.unlock .swept)) =
            owed s + (LockPc.regular (.unlock .swept) - (s.call a).regular) :=
          owed_calls rfl rfl rfl rfl
        rw [hless, hone, ha]
        rfl
      | refused => exact absurd (by simpa [schedules] using hrefused rfl) hs
    · rw [hcall] at hb
      by_cases hba : b = a
      · rw [hba, Function.update_self] at hb
        exact absurd hb (by simp [LockPc.assigns])
      · rw [Function.update_of_ne hba, hnone b] at hb
        exact absurd hb (by simp)

omit [Fintype A] [DecidableEq A] in
/-- A task that is executed is a pending sweep no longer, but running. -/
theorem countP_erase_task {e : ScheduledTask × Bool} (he : e ∈ s.tasks) :
    ((s.tasks.erase e).countP (fun e => !e.2) : ℤ) + SweepPc.regular (.start e.2) =
      s.tasks.countP fun e => !e.2 := by
  rw [(List.perm_cons_erase he).countP_eq (fun e => !e.2), List.countP_cons]
  cases e.2 <;> simp [SweepPc.regular]

omit [Fintype A] [DecidableEq A] in
/-- The same for an at-rest function that is started. -/
theorem countP_erase_restFunction {f : ℕ} {hibernating : Bool}
    (hf : (f, hibernating) ∈ s.restFunctions) :
    ((s.restFunctions.erase (f, hibernating)).countP (fun e => !e.2) : ℤ) +
      SweepPc.regular (.waking hibernating) = s.restFunctions.countP fun e => !e.2 := by
  rw [(List.perm_cons_erase hf).countP_eq (fun e => !e.2), List.countP_cons]
  cases hibernating <;> simp [SweepPc.regular]

theorem Balanced.step (hctx : Contexts io s) (hacc : Account s) (h : Balanced s)
    (hm : NetMoves io s y s') (hy : Reschedules s y) : Balanced s' := by
  cases hm with
  | io x d hd hbusy hcalls => exact h.keep rfl rfl rfl fun _ => rfl
  | newCaller => exact h.keep rfl rfl rfl fun _ => rfl
  | enter a c ha hc n =>
    exact h.goes rfl rfl rfl rfl rfl rfl (by rw [ha.1]; simp [LockPc.regular, hc])
      (by rw [ha.1]; rfl)
  | hibernate a ha hout =>
    refine h.keep ?_ rfl rfl fun _ => rfl
    simp [owed, hout, SweepPc.regular]
  | runTask a e ha hout he =>
    refine h.keep ?_ rfl rfl fun _ => rfl
    have hcount := countP_erase_task he
    simp only [owed, setSweep, count_update, hout]
    rw [show SweepPc.out.regular = 0 from rfl]
    omega
  | pause a hibernating d ha hd =>
    refine h.keep ?_ rfl rfl fun _ => rfl
    cases hibernating <;> simp [owed, ha, SweepPc.regular]
  | refuseHibernating a now ha =>
    refine h.keep ?_ rfl rfl fun _ => rfl
    simp [owed, ha, SweepPc.regular]
  | refuseRegular a now ha =>
    have hfits := hctx.fits a
    rw [ha] at hfits
    refine h.calls rfl ?_ rfl rfl (by rw [hfits.2]; rfl)
    simp [owed, ha, hfits.2, SweepPc.regular, LockPc.regular, NetCall.inFiber]
    ring
  | detach a hibernating throws d ha hd =>
    refine h.keep ?_ rfl rfl fun _ => rfl
    cases hibernating with
    | true => cases throws <;> simp [owed, ha, SweepPc.regular]
    | false =>
      have hreturns : throws = false := hy ha
      simp [owed, ha, hreturns, SweepPc.regular]
      ring
  | expire a hibernating d f todo ha hd hbusy hf =>
    refine h.keep ?_ rfl rfl fun _ => rfl
    obtain ⟨-, hsweep⟩ := not_busy_iff.mp hbusy
    have hout : s.sweep a = .out := by
      obtain hout | ⟨g, hpausing⟩ := hsweep
      · exact hout
      · have hfits := hctx.fits a
        rw [hpausing, ha] at hfits
        exact absurd hfits.1 (by simp [inPause2])
    have hcount := countP_erase_restFunction hf
    simp only [owed, setSweep, count_update, hout]
    rw [show SweepPc.out.regular = 0 from rfl]
    omega
  | expiredHibernating a ha hc =>
    refine h.keep ?_ rfl rfl fun _ => rfl
    simp [owed, ha, SweepPc.regular]
  | expiredRegular a ha hc =>
    refine h.calls rfl ?_ rfl rfl (by rw [hc]; rfl)
    simp [owed, ha, hc, SweepPc.regular, LockPc.regular, NetCall.inFiber]
    ring
  | takes a c ha hz =>
    exact h.goes rfl rfl rfl rfl rfl rfl (by rw [ha]; rfl) (by rw [ha]; rfl)
  | finds a c pc ha hz hpc =>
    rcases hpc with rfl | rfl
    · exact h.goes rfl rfl rfl rfl rfl rfl (by rw [ha]; rfl) (by rw [ha]; rfl)
    · exact h.goes rfl rfl rfl rfl rfl rfl (by rw [ha]; rfl) (by rw [ha]; rfl)
  | backOff a c ha =>
    exact h.goes rfl rfl rfl rfl rfl rfl (by rw [ha]; rfl) (by rw [ha]; rfl)
  | sleep a c ha hc =>
    exact h.goes rfl rfl rfl rfl rfl rfl (by rw [ha]; simp [LockPc.regular, hc]) (by rw [ha]; rfl)
  | handle a c ha =>
    exact h.goes rfl rfl rfl rfl rfl rfl (by rw [ha]; rfl) (by rw [ha]; rfl)
  | update a c now ha =>
    simp only [Reschedules, ha] at hy
    obtain ⟨hrefused, hid⟩ := hy
    exact h.update hacc ha now hrefused hid
  | assign a c task ha =>
    obtain ⟨hone, hid⟩ := h.assigning a task (by rw [ha]; rfl)
    have hsame : owed ({ s with nextPipeSweep := task }.setCall a (.unlock c)) =
        owed s + (LockPc.regular (.unlock c) - (s.call a).regular) := owed_calls rfl rfl rfl rfl
    have howed : owed ({ s with nextPipeSweep := task }.setCall a (.unlock c)) = 1 := by
      rw [hsame, ha, hone]
      rfl
    refine ⟨fun _ => ?_, fun b task' hb => ?_⟩
    · exact ⟨howed.trans (if_neg hid).symm, fun _ => hid⟩
    · simp only [setCall] at hb
      by_cases hba : b = a
      · rw [hba, Function.update_self] at hb
        exact absurd hb (by simp [LockPc.assigns])
      · rw [Function.update_of_ne hba] at hb
        have hnone := hacc.assigns_eq_none (a := a) (by rw [ha]; rfl) hba
        exact absurd (hb.symm.trans hnone) (by simp)
  | tryUnlock a c ha h1 =>
    exact h.goes rfl rfl rfl rfl rfl rfl (by rw [ha]; rfl) (by rw [ha]; rfl)
  | wakeSleepers a c ha =>
    exact h.goes rfl rfl rfl rfl rfl rfl (by rw [ha]; rfl) (by rw [ha]; rfl)
  | release a c ha h2 n =>
    exact h.goes rfl rfl rfl rfl rfl rfl (by rw [ha]; rfl) (by rw [ha]; rfl)
  | resume a c rest ha hw =>
    have hc : c.inFiber = true := hctx.woken a c (by rw [hw]; exact List.mem_cons_self ..)
    exact h.goes rfl rfl rfl rfl rfl rfl (by rw [ha.1]; simp [LockPc.regular, hc])
      (by rw [ha.1]; rfl)

theorem balanced_init : Balanced (netMachine io).init := by
  refine ⟨fun _ => ⟨?_, fun hpos => absurd hpos (by simp [netMachine])⟩, fun a task ha => ?_⟩
  · have hsweep : count SweepPc.regular (netMachine io).init.sweep = 0 :=
      count_eq_zero fun _ => rfl
    have hcall : count LockPc.regular (netMachine io).init.call = 0 := count_eq_zero fun _ => rfl
    rw [owed, hsweep, hcall]
    rfl
  · exact absurd ha (by simp [netMachine, LockPc.assigns])

/-! ## All runs -/

/-- In a run in which no function of a regular sweep throws, no refused regular sweep finds that
there is no network pipe, and no regular sweep gets the id 0, there is one pending regular sweep
whenever the mutex is free and there are network pipes. -/
theorem sweep_scheduled (hs : (netMachine io).Reachable Reschedules s) : SweepScheduled s := by
  have hinv : Contexts io s ∧ Account s ∧ Waiting s.dispatch s.restFunctions ∧ Balanced s := by
    refine hs.invariant
      (P := fun s => Contexts io s ∧ Account s ∧ Waiting s.dispatch s.restFunctions ∧ Balanced s)
      ⟨contexts_init, account_init, waiting_init, balanced_init⟩ ?_
    intro s y h hy he
    obtain ⟨hctx, hacc, hwait, hbal⟩ := h
    have hm := netMoves_of_enabled he
    exact ⟨hctx.step hm, hacc.step hctx hm, hwait.netStep hctx hm, hbal.step hctx hacc hm hy⟩
  obtain ⟨-, -, hwait, hbal⟩ := hinv
  intro hfree hpos
  have hnone : ∀ a, (s.call a).assigns = none := by
    intro a
    have hnot := hfree a
    cases hpc : s.call a <;> simp [hpc, LockPc.holds, LockPc.assigns] at hnot ⊢
  obtain ⟨howed, hid⟩ := hbal.idle hnone
  rw [← owed_eq_pendingSweeps hwait, howed, if_neg (hid hpos)]

omit [Fintype A] [DecidableEq A] in
theorem reschedules_update (hpc : s.call a = .locked c) (now : Timespec) :
    Reschedules s (.update a now) ↔ (c = .refused → 0 < s.numNetPipes) ∧
      (s.schedules c = true → (s.newTask now).id ≠ noTask.id) := by
  simp only [Reschedules, hpc]

instance (s : NetState A) (y : NetAction A) : Decidable (Reschedules s y) :=
  match y with
  | .detach _ _ => inferInstanceAs (Decidable (_ → _))
  | .update a now =>
    match hpc : s.call a with
    | .locked _ => decidable_of_iff _ (reschedules_update hpc now).symm
    | .out | .lock _ | .backOff _ | .sleep _ | .suspended _ | .assign _ _ | .unlock _ | .wake _
    | .release _ => isTrue (by simp only [Reschedules, hpc])
  | .io _ | .newCaller | .enter _ _ | .hibernate _ | .runTask _ _ | .pause _ | .refuse _ _
  | .expire _ _ | .expired _ | .fetchAdd _ | .backOff _ | .sleep _ | .handle _ | .assign _
  | .tryUnlock _ | .wakeSleepers _ | .release _ | .resume _ => isTrue trivial

/-- Two io threads. The pipe of the thread 0 has gone before the sweep has run, the pipe of the
thread 1 has come while the sweep has run, and the sweep has scheduled the next one. -/
theorem sweep_scheduled_two : ∃ s : NetState (Fin 2), SweepScheduled s ∧
    s.numNetPipes = 1 ∧ s.tasks = [(⟨⟨5, 0⟩, 2⟩, false)] ∧ s.state = 0 := by
  have h : ∃ s, (netMachine fun _ : Fin 2 => true).Reachable Reschedules s ∧
      decide (s.numNetPipes = 1 ∧ s.tasks = [(⟨⟨5, 0⟩, 2⟩, false)] ∧ s.state = 0) = true := by
    apply Machine.reachable_of_replay (l := [.newCaller,
      .io (.top 0), .io (.event 0), .enter 0 .construct, .fetchAdd 0, .update 0 ⟨1, 0⟩,
      .assign 0, .tryUnlock 0, .wakeSleepers 0, .release 0,
      .enter 0 .destroy, .fetchAdd 0, .update 0 ⟨1, 0⟩, .tryUnlock 0, .wakeSleepers 0, .release 0,
      .runTask 0 (⟨⟨3, 0⟩, 1⟩, false),
      .io (.top 1), .pause 0, .io (.lockCom 0), .io (.write 0), .io (.test 0),
      .io (.takePause 1), .io (.count 1 (some 0)), .io (.wake 0), .detach 0 false,
      .io (.wake 1), .io (.wake 0), .io (.top 1), .io (.event 1), .enter 1 .construct,
      .fetchAdd 1, .update 1 ⟨2, 0⟩, .tryUnlock 1, .wakeSleepers 1, .release 1,
      .io (.finish 0), .io (.top 0), .io (.lockAtRest 0), .expire 0 false, .expired 0,
      .fetchAdd 0, .update 0 ⟨3, 0⟩, .assign 0, .tryUnlock 0, .wakeSleepers 0, .release 0])
    decide +kernel
  obtain ⟨s, hs, hstate⟩ := h
  exact ⟨s, sweep_scheduled hs, of_decide_eq_true hstate⟩

/-- Two io threads. The only network pipe has gone when the sweep is refused; no sweep is scheduled
for the next one. -/
theorem sweep_lost : ∃ s : NetState (Fin 2),
    (netMachine fun _ : Fin 2 => true).Reachable Machine.anyStep s ∧ ¬SweepScheduled s := by
  have h : ∃ s, (netMachine fun _ : Fin 2 => true).Reachable Machine.anyStep s ∧
      decide ((∀ a, (s.call a).holds = false) ∧ s.numNetPipes = 1 ∧
        pendingSweeps s = 0) = true := by
    apply Machine.reachable_of_replay (l := [.newCaller,
      .io (.top 0), .io (.event 0), .enter 0 .construct, .fetchAdd 0, .update 0 ⟨1, 0⟩,
      .assign 0, .tryUnlock 0, .wakeSleepers 0, .release 0,
      .enter 0 .destroy, .fetchAdd 0, .update 0 ⟨1, 0⟩, .tryUnlock 0, .wakeSleepers 0, .release 0,
      .runTask 0 (⟨⟨3, 0⟩, 1⟩, false), .io (.top 1), .io (.event 1), .hibernate 1, .pause 1,
      .refuse 0 ⟨3, 0⟩, .fetchAdd 0, .update 0 ⟨3, 0⟩, .tryUnlock 0, .wakeSleepers 0, .release 0,
      .enter 0 .construct, .fetchAdd 0, .update 0 ⟨3, 0⟩, .tryUnlock 0, .wakeSleepers 0,
      .release 0])
    decide +kernel
  obtain ⟨s, hs, hstate⟩ := h
  obtain ⟨hfree, hnum, hpending⟩ := of_decide_eq_true hstate
  refine ⟨s, hs, fun hscheduled => ?_⟩
  have hone := hscheduled hfree (by rw [hnum]; decide)
  rw [hpending] at hone
  exact absurd hone (by decide)

end Anon.Fiber.NetPipes
