import Anon.Fiber.NetPipesPlaces

/-!
# Only fibers suspend

`zero_net_pipes_mutex_` is locked by fibers, and by a regular sweep at two places where its thread
runs no fiber. At the end of the at-rest function the mutex is free if the function runs while no
other io thread is in a callback, as the documentation of `while_paused2` says. After a refused
pause nothing keeps the other threads away from it.

* `OnlyFibersSuspend`: whoever is in `sleep_till_woken` is a fiber.
* `Undisturbed`: the condition on the steps.
* `only_fibers_suspend`: every run whose steps meet the condition.
-/

namespace Anon.Fiber.NetPipes

open Anon.IoDispatch NetState

variable {A : Type} [Fintype A] [DecidableEq A] {io : A → Bool} {s s' : NetState A}
  {y : NetAction A} {a b : A} {c : NetCall}

/-- Nobody who finds the mutex locked goes to sleep without a fiber. -/
def OnlyFibersSuspend (s : NetState A) : Prop :=
  ∀ a c, s.call a = .sleep c → c.inFiber = true

/-- The thread runs the at-rest function of a regular sweep. -/
def RunsSweep (s : NetState A) (a : A) : Prop :=
  s.sweep a = .waking false ∨ (s.call a).caller = some .swept

/-- No regular sweep is refused. When the at-rest function of a regular sweep starts, no other io
thread is in a callback, and none takes an event before the function has returned. -/
def Undisturbed (io : A → Bool) (s : NetState A) : NetAction A → Prop
  | .expire a false => ∀ b, b ≠ a → io b = true → (s.dispatch.pc b).dispatches = false
  | .io (.event _) => ∀ a, ¬RunsSweep s a
  | .refuse a _ => s.sweep a = .start true
  | _ => True

/-! ## The invariant -/

structure Alone (io : A → Bool) (s : NetState A) : Prop where
  fibers : OnlyFibersSuspend s
  accepted : ∀ a, (s.call a).caller ≠ some .refused
  alone : ∀ a, RunsSweep s a → ∀ b, b ≠ a → io b = true → (s.dispatch.pc b).dispatches = false

/-- Who an invocation of the mutex is for does not change on the way. -/
theorem caller_step (hctx : Contexts io s) (hm : NetMoves io s y s')
    (hb : (s'.call b).caller = some c) :
    (s.call b).caller = some c ∨ c.inFiber = true ∨ c = .swept ∧ s.sweep b = .waking false ∨
      c = .refused ∧ ∃ now, y = .refuse b now := by
  have hmoves : ∀ (a : A) (pc : LockPc), s'.call = Function.update s.call a pc →
      (pc.caller = some c → (s.call a).caller = some c ∨ c.inFiber = true ∨
        c = .swept ∧ s.sweep a = .waking false ∨ c = .refused ∧ ∃ now, y = .refuse a now) →
      (s.call b).caller = some c ∨ c.inFiber = true ∨ c = .swept ∧ s.sweep b = .waking false ∨
        c = .refused ∧ ∃ now, y = .refuse b now := by
    intro a pc hcall hpc
    rw [hcall] at hb
    by_cases hba : b = a
    · rw [hba, Function.update_self] at hb
      rw [hba]
      exact hpc hb
    · rw [Function.update_of_ne hba] at hb
      exact .inl hb
  cases hm with
  | enter a c' ha hc n =>
    apply hmoves a _ rfl
    intro hpc
    rw [← Option.some.inj hpc]
    exact .inr (.inl hc)
  | resume a c' rest ha hw =>
    apply hmoves a _ rfl
    intro hpc
    rw [← Option.some.inj hpc]
    exact .inr (.inl (hctx.woken a c' (by rw [hw]; exact List.mem_cons_self ..)))
  | refuseRegular a now ha =>
    apply hmoves a _ rfl
    intro hpc
    exact .inr (.inr (.inr ⟨(Option.some.inj hpc).symm, now, rfl⟩))
  | expiredRegular a ha hc =>
    apply hmoves a _ rfl
    intro hpc
    exact .inr (.inr (.inl ⟨(Option.some.inj hpc).symm, ha⟩))
  | takes a c' ha hz => exact hmoves a _ rfl fun hpc => .inl (by rw [ha]; exact hpc)
  | finds a c' pc ha hz hpc' =>
    apply hmoves a _ rfl
    intro hpc
    rcases hpc' with rfl | rfl
    · exact .inl (by rw [ha]; exact hpc)
    · exact .inl (by rw [ha]; exact hpc)
  | backOff a c' ha => exact hmoves a _ rfl fun hpc => .inl (by rw [ha]; exact hpc)
  | sleep a c' ha hc => exact hmoves a _ rfl fun hpc => .inl (by rw [ha]; exact hpc)
  | handle a c' ha => exact hmoves a _ rfl fun hpc => absurd hpc (by simp [LockPc.caller])
  | update a c' now ha =>
    apply hmoves a _ (updateNext_call a c' now)
    intro hpc
    apply Or.inl
    rw [ha, ← hpc]
    split <;> rfl
  | assign a c' task ha => exact hmoves a _ rfl fun hpc => .inl (by rw [ha]; exact hpc)
  | tryUnlock a c' ha h1 => exact hmoves a _ rfl fun hpc => .inl (by rw [ha]; exact hpc)
  | wakeSleepers a c' ha => exact hmoves a _ rfl fun hpc => .inl (by rw [ha]; exact hpc)
  | release a c' ha h2 n => exact hmoves a _ rfl fun hpc => absurd hpc (by simp [LockPc.caller])
  | _ => exact .inl hb

/-- A sweep's at-rest function does not start by itself. -/
theorem runsSweep_step (hctx : Contexts io s) (hm : NetMoves io s y s') (hb : RunsSweep s' b) :
    RunsSweep s b ∨ y = .expire b false := by
  obtain hsweep | hcall := hb
  · have hmoves : ∀ (a : A) (w : SweepPc), s'.sweep = Function.update s.sweep a w →
        (w = .waking false → y = .expire a false) → RunsSweep s b ∨ y = .expire b false := by
      intro a w hs hw
      rw [hs] at hsweep
      by_cases hba : b = a
      · rw [hba, Function.update_self] at hsweep
        rw [hba]
        exact .inr (hw hsweep)
      · rw [Function.update_of_ne hba] at hsweep
        exact .inl (.inl hsweep)
    cases hm with
    | expire a hibernating d f todo ha hd hbusy hf =>
      apply hmoves a _ rfl
      intro hw
      rw [SweepPc.waking.inj hw]
    | update a c now ha =>
      obtain ⟨-, hs, -⟩ := updateNext_rest (s := s) a c now
      rw [hs] at hsweep
      exact .inl (.inl hsweep)
    | hibernate a ha hout => exact hmoves a _ rfl (by simp)
    | runTask a e ha hout he => exact hmoves a _ rfl (by simp)
    | pause a hibernating d ha hd => exact hmoves a _ rfl (by simp)
    | refuseHibernating a now ha => exact hmoves a _ rfl (by simp)
    | refuseRegular a now ha => exact hmoves a _ rfl (by simp)
    | detach a hibernating throws d ha hd => exact hmoves a _ rfl (by simp)
    | expiredHibernating a ha hc => exact hmoves a _ rfl (by simp)
    | expiredRegular a ha hc => exact hmoves a _ rfl (by simp)
    | _ => exact .inl (.inl hsweep)
  · obtain hold | hfiber | ⟨-, hwaking⟩ | ⟨hrefused, -⟩ := caller_step hctx hm hcall
    · exact .inl (.inr hold)
    · exact absurd hfiber (by decide)
    · exact .inl (.inl hwaking)
    · exact absurd hrefused (by decide)

/-- An io thread gets into a callback through an event only. -/
theorem dispatches_netStep (hctx : Contexts io s) (hm : NetMoves io s y s')
    (hb : (s'.dispatch.pc b).dispatches = true) :
    (s.dispatch.pc b).dispatches = true ∨ y = .io (.event b) := by
  cases hm with
  | io x d hd hbusy hcalls =>
    by_cases hx : x = .event b
    · exact .inr (by rw [hx])
    · exact .inl (dispatches_step hctx.places hd hb hx)
  | pause a hibernating d ha hd => exact .inl (dispatches_step hctx.places hd hb (by simp))
  | detach a hibernating throws d ha hd =>
    exact .inl (dispatches_step hctx.places hd hb (by simp))
  | expire a hibernating d f todo ha hd hbusy hf =>
    exact .inl (dispatches_step hctx.places hd hb (by simp))
  | update a c now ha =>
    obtain ⟨hdispatch, -⟩ := updateNext_rest (s := s) a c now
    rw [hdispatch] at hb
    exact .inl hb
  | _ => exact .inl hb

omit [DecidableEq A] in
/-- Nobody else is at the mutex while the at-rest function of a sweep runs by itself. -/
theorem Contexts.out_of_alone (hctx : Contexts io s) (hsweep : s.sweep a = .out)
    (hcall : (s.call a).caller = some .swept)
    (halone : ∀ b, b ≠ a → io b = true → (s.dispatch.pc b).dispatches = false) (hba : b ≠ a) :
    s.call b = .out := by
  have hresting : (s.dispatch.pc a).resting.isSome = true := by
    have hfits := hctx.fits a
    rw [hsweep, Fits, hcall] at hfits
    exact hfits
  have hunique : (s.dispatch.pc b).resting.isSome = true → b = a := by
    intro hb
    obtain ⟨todo, htodo⟩ := Option.isSome_iff_exists.mp hresting
    obtain ⟨todo', htodo'⟩ := Option.isSome_iff_exists.mp hb
    exact hctx.places.resting_unique htodo htodo'
  have hfits := hctx.fits b
  cases hb : s.sweep b with
  | start hibernating =>
    rw [hb] at hfits
    exact hfits.2
  | pausing hibernating =>
    rw [hb] at hfits
    exact hfits.2
  | waking hibernating =>
    rw [hb] at hfits
    exact absurd (hunique hfits.1) hba
  | out =>
    rw [hb, Fits] at hfits
    cases hcaller : (s.call b).caller with
    | none =>
      cases hpc : s.call b <;> simp [hpc, LockPc.caller] at hcaller ⊢
    | some c =>
      rw [hcaller] at hfits
      have huser : ¬(s.dispatch.pc b = .user ∧ io b = true) := by
        rintro ⟨hu, hio⟩
        have hnot := halone b hba hio
        rw [hu] at hnot
        exact absurd hnot (by decide)
      cases c with
      | swept => exact absurd (hunique hfits) hba
      | refused => exact absurd hfits huser
      | construct => exact absurd hfits huser
      | destroy => exact absurd hfits huser
      | waitForZero => exact absurd hfits huser

theorem Alone.step (hctx : Contexts io s) (hacc : Account s) (h : Alone io s)
    (hm : NetMoves io s y s') (hy : Undisturbed io s y) : Alone io s' := by
  refine ⟨fun a c hsleep => ?_, fun a hrefused => ?_, fun a hruns b hba hio => ?_⟩
  · have hstep : ∀ (a' : A) (pc : LockPc), s'.call = Function.update s.call a' pc →
        (pc = .sleep c → c.inFiber = true) → c.inFiber = true := by
      intro a' pc hcall hpc
      rw [hcall] at hsleep
      by_cases haa : a = a'
      · rw [haa, Function.update_self] at hsleep
        exact hpc hsleep
      · rw [Function.update_of_ne haa] at hsleep
        exact h.fibers a c hsleep
    cases hm with
    | finds a' c' pc ha hz hpc =>
      apply hstep a' _ rfl
      intro hsl
      have hcc : c' = c := by
        rcases hpc with rfl | rfl
        · exact LockPc.sleep.inj hsl
        · exact absurd hsl (by simp)
      rw [hcc] at ha
      have hcaller : (s.call a').caller = some c := by rw [ha]; rfl
      have hswept : c = .swept → False := by
        rintro rfl
        -- everybody else is out, so that the counter is zero
        have hsweep : s.sweep a' = .out := by
          have hfits := hctx.fits a'
          cases hw : s.sweep a' with
          | out => rfl
          | start hibernating =>
            rw [hw] at hfits
            exact absurd (ha.symm.trans hfits.2) (by simp)
          | pausing hibernating =>
            rw [hw] at hfits
            exact absurd (ha.symm.trans hfits.2) (by simp)
          | waking hibernating =>
            rw [hw] at hfits
            exact absurd (hfits.2 .swept hcaller) (by decide)
        have halone := h.alone a' (.inr hcaller)
        apply hz
        rw [hacc.total]
        apply count_eq_zero
        intro b
        by_cases hb : b = a'
        · rw [hb, ha]
          rfl
        · rw [hctx.out_of_alone hsweep hcaller halone hb]
          rfl
      cases c with
      | swept => exact (hswept rfl).elim
      | refused => exact absurd hcaller (h.accepted a')
      | construct => rfl
      | destroy => rfl
      | waitForZero => rfl
    | update a' c' now ha =>
      apply hstep a' _ (updateNext_call a' c' now)
      split <;> simp
    | enter a' c' ha hc n => exact hstep a' _ rfl (by simp)
    | refuseRegular a' now ha => exact hstep a' _ rfl (by simp)
    | expiredRegular a' ha hc => exact hstep a' _ rfl (by simp)
    | takes a' c' ha hz => exact hstep a' _ rfl (by simp)
    | backOff a' c' ha => exact hstep a' _ rfl (by simp)
    | sleep a' c' ha hc => exact hstep a' _ rfl (by simp)
    | handle a' c' ha => exact hstep a' _ rfl (by simp)
    | assign a' c' task ha => exact hstep a' _ rfl (by simp)
    | tryUnlock a' c' ha h1 => exact hstep a' _ rfl (by simp)
    | wakeSleepers a' c' ha => exact hstep a' _ rfl (by simp)
    | release a' c' ha h2 n => exact hstep a' _ rfl (by simp)
    | resume a' c' rest ha hw => exact hstep a' _ rfl (by simp)
    | _ => exact h.fibers a c hsleep
  · obtain hold | hfiber | ⟨hswept, -⟩ | ⟨-, now, hnow⟩ := caller_step hctx hm hrefused
    · exact h.accepted a hold
    · exact absurd hfiber (by decide)
    · exact absurd hswept (by decide)
    · rw [hnow] at hy hm
      cases hm with
      | refuseHibernating a now ha =>
        have hsame : (s.call a).caller = some .refused := hrefused
        exact h.accepted a hsame
      | refuseRegular a now ha => exact absurd (ha.symm.trans hy) (by simp)
  · rw [← Bool.not_eq_true]
    intro hdis
    obtain hruns | hexpire := runsSweep_step hctx hm hruns
    · obtain hdis | hevent := dispatches_netStep hctx hm hdis
      · exact absurd (h.alone a hruns b hba hio) (by simp [hdis])
      · rw [hevent] at hy
        exact hy a hruns
    · obtain hdis | hevent := dispatches_netStep hctx hm hdis
      · rw [hexpire] at hy
        exact absurd (hy b hba hio) (by simp [hdis])
      · exact absurd (hexpire.symm.trans hevent) (by simp)

/-! ## All runs -/

theorem alone_init : Alone io (netMachine io).init :=
  ⟨fun _ _ h => absurd h (by simp [netMachine]), fun _ => by simp [netMachine, LockPc.caller],
    fun _ h => absurd h (by simp [RunsSweep, netMachine, LockPc.caller])⟩

/-- In a run in which no regular sweep is refused, and the at-rest functions of regular sweeps run
while no other io thread is in a callback, only fibers wait for the mutex. -/
theorem only_fibers_suspend (hs : (netMachine io).Reachable (Undisturbed io) s) :
    OnlyFibersSuspend s := by
  have hinv : Contexts io s ∧ Account s ∧ Alone io s := by
    refine hs.invariant (P := fun s => Contexts io s ∧ Account s ∧ Alone io s)
      ⟨contexts_init, account_init, alone_init⟩ ?_
    intro s y h hy he
    have hm := netMoves_of_enabled he
    exact ⟨h.1.step hm, h.2.1.step h.1 hm, h.2.2.step h.1 h.2.1 hm hy⟩
  exact hinv.2.2.fibers

instance (s : NetState A) (a : A) : Decidable (RunsSweep s a) :=
  inferInstanceAs (Decidable (_ ∨ _))

instance (s : NetState A) (y : NetAction A) : Decidable (Undisturbed io s y) :=
  match y with
  | .expire a false => inferInstanceAs
      (Decidable (∀ b, b ≠ a → io b = true → (s.dispatch.pc b).dispatches = false))
  | .io (.event _) => inferInstanceAs (Decidable (∀ a, ¬RunsSweep s a))
  | .refuse a _ => inferInstanceAs (Decidable (s.sweep a = .start true))
  | .expire _ true | .newCaller | .enter _ _ | .hibernate _ | .runTask _ _ | .pause _
  | .detach _ _ | .expired _ | .fetchAdd _ | .backOff _ | .sleep _ | .handle _ | .update _ _
  | .assign _ | .tryUnlock _ | .wakeSleepers _ | .release _ | .resume _ => isTrue trivial
  | .io (.begin_ _ _) | .io (.lockCom _) | .io (.write _) | .io (.test _) | .io (.call _ _)
  | .io (.wake _) | .io (.spurious _) | .io (.takePause _) | .io (.count _ _) | .io (.top _)
  | .io (.lockAtRest _) | .io (.runAtRest _) | .io (.endAtRest _) | .io (.finish _)
  | .io (.beginEach _) | .io (.takeEach _) | .io (.exec _ _) => isTrue trivial

/-- Two io threads. The sweep of the thread 0 has run its at-rest function, and locks the mutex
after a fiber of the thread 1 has been in it. -/
theorem only_fibers_suspend_two : ∃ s : NetState (Fin 2), OnlyFibersSuspend s ∧
    s.call 0 = .locked .swept ∧ s.numNetPipes = 2 := by
  have h : ∃ s, (netMachine fun _ : Fin 2 => true).Reachable (Undisturbed fun _ => true) s ∧
      decide (s.call 0 = .locked .swept ∧ s.numNetPipes = 2) = true := by
    apply Machine.reachable_of_replay (l := [.newCaller,
      .io (.top 0), .io (.event 0), .enter 0 .construct, .fetchAdd 0, .update 0 ⟨1, 0⟩,
      .assign 0, .tryUnlock 0, .wakeSleepers 0, .release 0,
      .io (.top 1), .io (.event 1), .enter 1 .construct, .fetchAdd 1, .update 1 ⟨1, 0⟩,
      .runTask 0 (⟨⟨3, 0⟩, 1⟩, false), .tryUnlock 1, .wakeSleepers 1, .release 1,
      .io (.finish 1), .io (.top 1), .pause 0, .io (.lockCom 0), .io (.write 0), .io (.test 0),
      .io (.takePause 1), .io (.count 1 (some 0)), .io (.wake 0), .detach 0 false,
      .io (.wake 1), .io (.wake 0), .io (.top 1), .io (.finish 0), .io (.top 0),
      .io (.lockAtRest 0), .expire 0 false, .expired 0, .fetchAdd 0])
    decide +kernel
  obtain ⟨s, hs, hstate⟩ := h
  exact ⟨s, only_fibers_suspend hs, of_decide_eq_true hstate⟩

/-- Three io threads. The sweep of the thread 0 is refused because the thread 1 pauses the io
threads, and finds the mutex locked by a fiber of the thread 2. -/
theorem refused_sweep_suspends : ∃ s : NetState (Fin 3),
    (netMachine fun _ : Fin 3 => true).Reachable Machine.anyStep s ∧ ¬OnlyFibersSuspend s := by
  have h : ∃ s, (netMachine fun _ : Fin 3 => true).Reachable Machine.anyStep s ∧
      decide (s.call 0 = .sleep .refused) = true := by
    apply Machine.reachable_of_replay (l := [.newCaller,
      .io (.top 0), .io (.event 0), .enter 0 .construct, .fetchAdd 0, .update 0 ⟨1, 0⟩,
      .assign 0, .tryUnlock 0, .wakeSleepers 0, .release 0,
      .runTask 0 (⟨⟨3, 0⟩, 1⟩, false), .io (.top 1), .io (.event 1), .hibernate 1, .pause 1,
      .io (.top 2), .io (.event 2), .enter 2 .construct, .fetchAdd 2,
      .refuse 0 ⟨3, 0⟩, .fetchAdd 0])
    decide +kernel
  obtain ⟨s, hs, hstate⟩ := h
  refine ⟨s, hs, fun hfibers => ?_⟩
  exact absurd (hfibers 0 .refused (of_decide_eq_true hstate)) (by decide)

end Anon.Fiber.NetPipes
