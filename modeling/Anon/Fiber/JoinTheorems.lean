import Anon.Fiber.WakeListsTheorems

/-!
# `fiber::join`

`stop_fiber` clears `running_` under `stop_mutex_`, on the stack of the fiber that ends; its last
switch and the work of the parent (`oc_exit_fiber`) come after it has released the mutex.

* `join_holds`: if every `join` that gets hold of the mutex does so while the fiber has not
  cleared `running_` or when the parent is done with it, then `join` returns only after the
  last switch.
* `join_breaks`: a `join` that gets hold of it in between returns while the fiber is still on its
  own stack.
-/

namespace Anon.Fiber.Wake

open WakeState

variable {F T M C : Type} [DecidableEq F] [DecidableEq T] [DecidableEq M] [DecidableEq C]
  {s s' : WakeState F T M C} {t : T}

/-- The fiber whose `stop_mutex_` a `join` is about to ask for. -/
def Doing.joins : Doing F M C → Option F
  | .running _ (.lock (.join g)) => some g
  | _ => none

/-- A `join` gets hold of `stop_mutex_` only while `running_` is set or when the parent is done
with the fiber. -/
def Timely (s : WakeState F T M C) : WakeAction F T M C → Prop
  | .step t _ => ∀ g, g ∈ (s.doing t).joins → s.state (.stop g) = 0 →
      s.running g = true ∨ s.life g = .finished
  | _ => True

instance decidableTimely (s : WakeState F T M C) :
    (a : WakeAction F T M C) → Decidable (Timely s a)
  | .step t _ => inferInstanceAs (Decidable (∀ g, g ∈ (s.doing t).joins →
      s.state (.stop g) = 0 → s.running g = true ∨ s.life g = .finished))
  | .fire _ _ | .start _ _ | .resume _ | .return_ _ | .lock _ _ | .unlock _ _ | .wait _ _ _
  | .notifyOne _ _ _ | .notifyAll _ _ _ _ | .join _ _ | .suspend _ | .exit _ => isTrue trivial

/-- A fiber in `join` has seen `running_` only while it was set or when the parent was done. -/
structure JoinInv (s : WakeState F T M C) : Prop where
  test : ∀ t f g, s.doing t = .running f (.joinTest g) →
    s.running g = true ∨ s.life g = .finished
  unlock : ∀ t f g u, s.doing t = .running f (.unlock (.join g) u) → s.life g = .finished
  joined : ∀ g, s.joined g = true → s.life g = .finished

/-- Once the parent is done with a fiber, this stays so. -/
theorem finished_mono [Fintype T] (h : WakeInv s) (hm : Moves s t s') {g : F}
    (hg : s.life g = .finished) : s'.life g = .finished := by
  cases hm with
  | start f ht hf =>
    have hne : g ≠ f := by
      rintro rfl
      rw [hg] at hf
      exact absurd hf (by simp)
    simpa [hne] using hg
  | switchExit f ht =>
    have hne : g ≠ f := by
      rintro rfl
      rw [h.life_of_running ht] at hg
      exact absurd hg (by simp)
    simpa [hne] using hg
  | exit f ht =>
    by_cases hne : g = f
    · simp [hne]
    · simpa [hne] using hg
  | notifyOne f m c ht ho => rwa [(listWork_notifyOne s t (.user m c)).life]
  | notifyAll f m c n ht ho hw => rwa [(listWork_notifyAll s t (.user m c) n).life]
  | condPush f k n ht hw =>
    show (s.condPush t k f n).life g = .finished
    rwa [(listWork_condPush s t k f n).life]
  | exitNotify f n ht hw =>
    have hl := listWork_notifyAll { s with running := Function.update s.running f false } t
      (.stop f) n
    exact (congrFun hl.life g).trans hg
  | wake k m hk ht =>
    show (s.wakeSleepers t m).life g = .finished
    rwa [(listWork_wakeSleepers s t m).life]
  | _ => exact hg

/-- What a step has to say about the thread that takes it. -/
structure JoinStep (s : WakeState F T M C) (d : Doing F M C) : Prop where
  test : ∀ f g, d = .running f (.joinTest g) → s.running g = true ∨ s.life g = .finished
  unlock : ∀ f g u, d = .running f (.unlock (.join g) u) → s.life g = .finished

omit [DecidableEq F] [DecidableEq T] [DecidableEq M] [DecidableEq C] in
theorem joinStep_of_ne {d : Doing F M C} (ht : ∀ f g, d ≠ .running f (.joinTest g))
    (hu : ∀ f g u, d ≠ .running f (.unlock (.join g) u)) : JoinStep s d :=
  ⟨fun f g hd => absurd hd (ht f g), fun f g u hd => absurd hd (hu f g u)⟩

omit [DecidableEq F] [DecidableEq M] [DecidableEq C] in
/-- A step of thread `t` that does not clear a `running_`. -/
theorem JoinInv.frame (h : JoinInv s) {d : Doing F M C}
    (hdoing : s'.doing = Function.update s.doing t d) (hrun : s'.running = s.running)
    (hlife : ∀ g, s.life g = .finished → s'.life g = .finished)
    (hjoined : ∀ g, s'.joined g = true → s.joined g = true ∨ s.life g = .finished)
    (hd : JoinStep s d) : JoinInv s' := by
  constructor
  · intro t' f g ht'
    rw [hrun]
    have hor : s.running g = true ∨ s.life g = .finished := by
      rw [hdoing] at ht'
      by_cases htt : t' = t
      · rw [htt, Function.update_self] at ht'
        exact hd.test f g ht'
      · rw [Function.update_of_ne htt] at ht'
        exact h.test t' f g ht'
    exact hor.imp id (hlife g)
  · intro t' f g u ht'
    apply hlife
    rw [hdoing] at ht'
    by_cases htt : t' = t
    · rw [htt, Function.update_self] at ht'
      exact hd.unlock f g u ht'
    · rw [Function.update_of_ne htt] at ht'
      exact h.unlock t' f g u ht'
  · intro g hg
    apply hlife
    rcases hjoined g hg with hj | hj
    · exact h.joined g hj
    · exact hj

/-- The exiting fiber holds its `stop_mutex_`, so nobody is testing `running_`. -/
theorem JoinInv.exitNotify [Fintype T] (h : JoinInv s) (hinv : WakeInv s) {f : F} {n : ℕ}
    (ht : s.doing t = .running f .exitNotify) :
    JoinInv (({ s with running := Function.update s.running f false }.condNotifyAll t
      (.stop f) n).setDoing t (.running f (.unlock .exit .grab))) := by
  have hl := listWork_notifyAll { s with running := Function.update s.running f false } t
    (.stop f) n
  have hold : (s.doing t).holding t = some (.stop f, .fiber f) := by rw [ht]; rfl
  constructor
  · intro t' f' g ht'
    rw [hl.setDoing t] at ht'
    by_cases htt : t' = t
    · rw [htt, Function.update_self] at ht'
      exact absurd ht' (by simp)
    · rw [Function.update_of_ne htt] at ht'
      have hne : g ≠ f := by
        rintro rfl
        have hold' : (s.doing t').holding t' = some (.stop g, .fiber f') := by
          rw [show s.doing t' = _ from ht']
          rfl
        exact htt (hinv.holds.alone hinv.onStacks hold hold')
      rcases h.test t' f' g ht' with hr | hr
      · left
        exact (congrFun hl.running g).trans ((Function.update_of_ne hne _ _).trans hr)
      · right
        exact (congrFun hl.life g).trans hr
  · intro t' f' g u ht'
    rw [hl.setDoing t] at ht'
    by_cases htt : t' = t
    · rw [htt, Function.update_self] at ht'
      exact absurd ht' (by simp)
    · rw [Function.update_of_ne htt] at ht'
      exact (congrFun hl.life g).trans (h.unlock t' f' g u ht')
  · intro g hg
    have hj : s.joined g = true := (congrFun hl.joined g).symm.trans hg
    exact (congrFun hl.life g).trans (h.joined g hj)

theorem JoinInv.step [Fintype T] (h : JoinInv s) (hinv : WakeInv s)
    (hacq : ∀ f g, s.doing t = .running f (.lock (.join g)) → s.state (.stop g) = 0 →
      s.running g = true ∨ s.life g = .finished)
    (hm : Moves s t s') : JoinInv s' := by
  have hlife : ∀ g, s.life g = .finished → s'.life g = .finished :=
    fun g => finished_mono hinv hm
  have hsame : ∀ g, s.joined g = true → s.joined g = true ∨ s.life g = .finished :=
    fun _ hg => .inl hg
  cases hm with
  | fire f ht hf => exact h.frame rfl rfl hlife hsame (joinStep_of_ne (by simp) (by simp))
  | start f ht hf => exact h.frame rfl rfl hlife hsame (joinStep_of_ne (by simp) (by simp))
  | resume f ht hw =>
    refine h.frame rfl rfl hlife hsame ?_
    cases s.context f <;> exact joinStep_of_ne (by simp [resumeStep]) (by simp [resumeStep])
  | returnIdle ht hw hn => exact h.frame rfl rfl hlife hsame (joinStep_of_ne (by simp) (by simp))
  | returnTo g nest ht hn => exact h.frame rfl rfl hlife hsame (joinStep_of_ne (by simp) (by simp))
  | enter f at_ at_' ht hat =>
    refine h.frame rfl rfl hlife hsame ?_
    cases hat with
    | joinDone g hr =>
      refine ⟨by simp, ?_⟩
      intro f' g' u hd
      simp only [Doing.running.injEq, FiberStep.unlock.injEq, Call.join.injEq] at hd
      rw [← hd.2.1]
      rcases h.test t f g ht with hr' | hr'
      · rw [hr] at hr'
        exact absurd hr' (by simp)
      · exact hr'
    | _ => exact joinStep_of_ne (by simp) (by simp)
  | notifyOne f m c ht ho =>
    have hl := listWork_notifyOne s t (.user m c)
    refine h.frame (t := t) (d := .running f .user) ?_ hl.running hlife ?_
      (joinStep_of_ne (by simp) (by simp))
    · rw [hl.doing, ← ht, Function.update_eq_self]
    · rw [hl.joined]
      exact hsame
  | notifyAll f m c n ht ho hw =>
    have hl := listWork_notifyAll s t (.user m c) n
    refine h.frame (t := t) (d := .running f .user) ?_ hl.running hlife ?_
      (joinStep_of_ne (by simp) (by simp))
    · rw [hl.doing, ← ht, Function.update_eq_self]
    · rw [hl.joined]
      exact hsame
  | acquire f c ht hs =>
    refine h.frame rfl rfl hlife hsame ?_
    cases c with
    | user m => exact joinStep_of_ne (by simp [Call.locked]) (by simp [Call.locked])
    | exit => exact joinStep_of_ne (by simp [Call.locked]) (by simp [Call.locked])
    | join g =>
      refine ⟨?_, by simp [Call.locked]⟩
      intro f' g' hd
      simp only [Call.locked, Doing.running.injEq, FiberStep.joinTest.injEq] at hd
      rw [← hd.2]
      exact hacq f g ht hs
  | sleep f c ht hs | contend f c ht hs | backOff f c ht | push f c ht =>
    exact h.frame rfl rfl hlife hsame (joinStep_of_ne (by simp) (by simp))
  | condPush f k n ht hw =>
    have hl := listWork_condPush s t k f n
    refine h.frame (hl.setDoing t _) hl.running hlife ?_ (joinStep_of_ne (by simp) (by simp))
    intro g hg
    exact .inl ((congrFun hl.joined g).symm.trans hg)
  | exitNotify f n ht hw => exact h.exitNotify hinv ht
  | grab k m hk ht hs =>
    refine h.frame rfl rfl hlife hsame ?_
    cases hk with
    | parent f m => exact joinStep_of_ne (by simp) (by simp)
    | fiber f c =>
      refine ⟨by simp, ?_⟩
      intro f' g u hd
      simp only [Doing.running.injEq, FiberStep.unlock.injEq] at hd
      apply h.unlock t f g .grab
      rw [ht, hd.2.1]
  | wake k m hk ht =>
    have hl := listWork_wakeSleepers s t m
    refine h.frame (hl.setDoing t _) hl.running hlife
      (fun g hg => .inl ((congrFun hl.joined g).symm.trans hg)) ?_
    cases hk with
    | parent f m => exact joinStep_of_ne (by simp) (by simp)
    | fiber f c =>
      refine ⟨by simp, ?_⟩
      intro f' g u hd
      simp only [Doing.running.injEq, FiberStep.unlock.injEq] at hd
      apply h.unlock t f g .wake
      rw [ht, hd.2.1]
  | release f c joined ht hs hj =>
    refine h.frame rfl rfl hlife ?_ ?_
    · intro g hg
      rcases hj with rfl | ⟨g', rfl, rfl⟩
      · exact .inl hg
      · by_cases hgg : g = g'
        · right
          rw [hgg]
          exact h.unlock t f g' .release ht
        · left
          simpa [hgg] using hg
    · cases c <;> exact joinStep_of_ne (by simp [Call.unlocked]) (by simp [Call.unlocked])
  | releaseParent f m ht hs | switchMutex f c ht | switchCond f k ht | switchExternal f ht
  | switchExit f ht | decrement f m ht | register f ht | exit f ht =>
    exact h.frame rfl rfl hlife hsame (joinStep_of_ne (by simp) (by simp))

omit [DecidableEq T] [DecidableEq M] [DecidableEq C] in
/-- A thread in `lock` can only take its next step. -/
theorem step_of_lock {a : WakeAction F T M C} (h : s.enabled a) {f : F} {c : Call F M}
    (ht : s.doing a.thread = .running f (.lock c)) : ∃ n, a = .step a.thread n := by
  have huser : s.runsUser a.thread = none := by
    rw [runsUser, ht]
  cases a with
  | step t n => exact ⟨n, rfl⟩
  | fire t f' => exact absurd (h.1.symm.trans ht) (by simp)
  | resume t => exact absurd (h.1.symm.trans ht) (by simp)
  | return_ t => exact absurd (h.1.symm.trans ht) (by simp)
  | start t f' =>
    rcases h.1 with hi | hu
    · exact absurd (hi.symm.trans ht) (by simp)
    · rw [show s.runsUser t = none from huser] at hu
      exact absurd hu (by simp)
  | lock t m | join t g | suspend t | exit t =>
    rw [WakeState.enabled, show s.runsUser t = none from huser] at h
    exact absurd h (by simp)
  | unlock t m | wait t m c' | notifyOne t m c' =>
    obtain ⟨f', hf', -⟩ := holdsUser_eq h
    rw [show s.runsUser t = none from huser] at hf'
    exact absurd hf' (by simp)
  | notifyAll t m c' n =>
    obtain ⟨f', hf', -⟩ := holdsUser_eq h.1
    rw [show s.runsUser t = none from huser] at hf'
    exact absurd hf' (by simp)

omit [DecidableEq T] [DecidableEq M] [DecidableEq C] in
/-- What the condition says of a `join` that gets hold of the mutex. -/
theorem Timely.acquire {a : WakeAction F T M C} (hc : Timely s a) (h : s.enabled a) (f g : F)
    (ht : s.doing a.thread = .running f (.lock (.join g))) (hs : s.state (.stop g) = 0) :
    s.running g = true ∨ s.life g = .finished := by
  obtain ⟨n, ha⟩ := step_of_lock h ht
  rw [ha] at hc
  apply hc g _ hs
  rw [ht]
  rfl

theorem joinInv_of_reachable [Fintype T] (hs : (wakeMachine F T M C).Reachable Timely s) :
    WakeInv s ∧ JoinInv s := by
  refine hs.invariant (P := fun s => WakeInv s ∧ JoinInv s) ⟨wakeInv_init, ?_⟩ ?_
  · constructor
    · intro t f g ht
      exact absurd ht (by simp [wakeMachine])
    · intro t f g u ht
      exact absurd ht (by simp [wakeMachine])
    · intro g hg
      exact absurd hg (by simp [wakeMachine])
  · intro s a hinv hc he
    have hm := moves_of_enabled he
    exact ⟨hinv.1.step hm, hinv.2.step hinv.1 (hc.acquire he) hm⟩

/-- `join` returns only after the last switch of the fiber: when every `join` that gets hold of
`stop_mutex_` does so while `running_` is set or when the parent is done with the fiber, a fiber
that some `join` has returned for is on no stack and in no parent's hands. -/
theorem join_holds [Fintype T] (hs : (wakeMachine F T M C).Reachable Timely s) (g : F)
    (hg : s.joined g = true) :
    s.life g = .finished ∧ (∀ t, ¬ s.onStack t g) ∧ ∀ t, s.doing t ≠ .handle g .exit := by
  obtain ⟨hinv, hjoin⟩ := joinInv_of_reachable hs
  have hlife := hjoin.joined g hg
  have hoff : s.place g = .off := (hinv.books.off g).mpr (.inr hlife)
  refine ⟨hlife, fun t ht => ?_, fun t ht => ?_⟩
  · have hth := hinv.onStacks.thread_of_onStack ht
    rw [hoff] at hth
    exact absurd hth (by simp [Place.thread])
  · rw [hinv.life_of_exit ht] at hlife
    exact absurd hlife (by simp)

/-- A fiber waits in `join` of the other one until that has ended on the other thread. -/
def joinedRun : List (WakeAction Bool Bool Unit Unit) :=
  [.start false false, .resume false, .start true true, .resume true, .join true false,
    .step true 0, .step true 0, .step true 0, .step true 0, .step true 0, .step true 0,
    .step true 0, .exit false, .step false 0, .step false 0, .step false 0, .step false 0,
    .step false 0, .step false 0, .step false 0, .resume false, .step false 0, .step false 0,
    .step false 0, .step false 0, .step false 0]

/-- In that run the condition holds, and `join` returns after the end. -/
theorem join_holds_waiting : ∃ s : WakeState Bool Bool Unit Unit,
    s.joined false = true ∧ s.life false = .finished ∧ ∀ t, ¬ s.onStack t false := by
  have hrun : ((wakeMachine Bool Bool Unit Unit).replay Timely joinedRun
      (wakeMachine Bool Bool Unit Unit).init).any (fun s => s.joined false) = true := by
    decide +kernel
  obtain ⟨s, hs, hp⟩ := Machine.reachable_of_replay hrun
  have hall := join_holds hs false hp
  exact ⟨s, hp, hall.1, hall.2.1⟩

/-- A fiber has released its `stop_mutex_` but not switched yet when the other one joins it. -/
def earlyRun : List (WakeAction Bool Bool Unit Unit) :=
  [.start false false, .resume false, .exit false, .step false 0, .step false 0, .step false 0,
    .step false 0, .step false 0, .start true true, .resume true, .join true false,
    .step true 0, .step true 0, .step true 0, .step true 0, .step true 0]

/-- `join` has returned, and the fiber is still on its own stack. -/
theorem join_breaks : ∃ s : WakeState Bool Bool Unit Unit,
    (wakeMachine Bool Bool Unit Unit).Reachable Machine.anyStep s ∧
      s.joined false = true ∧ s.life false = .live ∧ s.onStack false false := by
  have hrun : ((wakeMachine Bool Bool Unit Unit).replay Machine.anyStep earlyRun
      (wakeMachine Bool Bool Unit Unit).init).any (fun s => s.joined false &&
        decide (s.life false = .live ∧ s.doing false = .running false .switchExit)) = true := by
    decide +kernel
  obtain ⟨s, hs, hp⟩ := Machine.reachable_of_replay hrun
  simp only [Bool.and_eq_true, decide_eq_true_eq] at hp
  exact ⟨s, hs, hp.1, hp.2.1, .inl ⟨_, hp.2.2⟩⟩

end Anon.Fiber.Wake
