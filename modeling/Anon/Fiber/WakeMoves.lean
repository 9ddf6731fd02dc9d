import Anon.Fiber.WakeLists

/-!
# The steps of suspended fibers

* `Moves` says once what a step of the machine can do; every invariant is a case analysis over
  it, and `moves_of_enabled` says that there are no other steps.
* `ListWork`: what a piece of work on the wake lists leaves alone.
-/

namespace Anon.Fiber.Wake

open WakeState

variable {F T M C : Type}

/-! ## What a party has to do with a mutex -/

/-- The two contexts that execute `unlock` of `m`: a running fiber, and a parent on behalf of a
fiber that waits on a condition. -/
inductive Unlocker : (UnlockStep → Doing F M C) → MutexId F M → Prop
  | fiber (f : F) (c : Call F M) : Unlocker (fun u => .running f (.unlock c u)) (c.mutex f)
  | parent (f : F) (m : MutexId F M) : Unlocker (fun u => .handle f (.condWait m u)) m

/-- The mutex in whose `state_` an `unlock` has a share besides the holder's. -/
def UnlockStep.transit (m : MutexId F M) : UnlockStep → Option (MutexId F M)
  | .grab => none
  | .wake | .release => some m

/-- The mutex in whose `state_` a party in transit has a share. -/
def Doing.transit : Doing F M C → Option (MutexId F M)
  | .running f (.backOff c) | .running f (.push c) | .running f (.switchMutex c) =>
    some (c.mutex f)
  | .running f (.unlock c u) => u.transit (c.mutex f)
  | .handle _ (.mutexSuspend m) => some m
  | .handle _ (.condWait m u) => u.transit m
  | _ => none

/-- The mutex whose wake list belongs to the party. -/
def Doing.access : Doing F M C → Option (MutexId F M)
  | .running _ (.backOff _) => none
  | d => d.transit

/-- The mutex that a fiber holds for what it is about to do. -/
def FiberStep.needs (f : F) : FiberStep F M C → Option (MutexId F M)
  | .joinTest g => some (.stop g)
  | .condPush k | .switchCond k => some k.mutex
  | .exitNotify => some (.stop f)
  | .unlock c _ => some (c.mutex f)
  | _ => none

/-- The mutex that a party holds for what it is about to do, and the party. -/
def Doing.holding (t : T) : Doing F M C → Option (MutexId F M × Party F T)
  | .running f at_ => (at_.needs f).map fun m => (m, .fiber f)
  | .handle _ (.condWait m _) => some (m, .parent t)
  | _ => none

/-- The mutex that the party is about to release. -/
def Doing.releasing : Doing F M C → Option (MutexId F M)
  | .running f (.unlock c .release) => some (c.mutex f)
  | .handle _ (.condWait m .release) => some m
  | _ => none

variable [DecidableEq F] [DecidableEq T] [DecidableEq M] [DecidableEq C]

/-! ## What a step can do -/

/-- A running fiber goes from one piece of code to another without touching anything shared. -/
inductive Enters (s : WakeState F T M C) (f : F) : FiberStep F M C → FiberStep F M C → Prop
  | lock (m : M) : Enters s f .user (.lock (.user m))
  | unlock (m : M) (ho : s.owner (.user m) = some (.fiber f)) :
      Enters s f .user (.unlock (.user m) .grab)
  | wait (m : M) (c : C) (ho : s.owner (.user m) = some (.fiber f)) :
      Enters s f .user (.condPush (.user m c))
  | join (g : F) : Enters s f .user (.lock (.join g))
  | suspend : Enters s f .user .switchExternal
  | exit : Enters s f .user (.lock .exit)
  | joinWait (g : F) (hr : s.running g = true) : Enters s f (.joinTest g) (.condPush (.stop g))
  | joinDone (g : F) (hr : s.running g = false) :
      Enters s f (.joinTest g) (.unlock (.join g) .grab)

/-- The fiber that a thread runs, or has in its hands as the parent. -/
def Doing.current : Doing F M C → List F
  | .running f _ | .handle f .register | .handle f .exit => [f]
  | _ => []

/-- The thread that takes the step. -/
def WakeAction.thread : WakeAction F T M C → T
  | .fire t _ | .start t _ | .resume t | .return_ t | .lock t _ | .unlock t _ | .wait t _ _
  | .notifyOne t _ _ | .notifyAll t _ _ _ | .join t _ | .suspend t | .exit t | .step t _ => t

/-- One step of the machine: the thread that takes it, what its guard gives, and the state it
leads to. -/
inductive Moves (s : WakeState F T M C) : T → WakeState F T M C → Prop
  | fire (t : T) (f : F) (ht : s.doing t = .idle) (hf : s.events f ≠ 0) :
      Moves s t ({ s with events := Function.update s.events f (s.events f - 1) }.wakeAll t f)
  | start (t : T) (f : F) (ht : s.doing t = .idle ∨ ∃ g, s.doing t = .running g .user)
      (hf : s.life f = .unstarted) :
      Moves s t ({ s with
        life := Function.update s.life f .live
        context := Function.update s.context f none
        nest := Function.update s.nest t ((s.doing t).current ++ s.nest t) }.wakeAll t f)
  | resume (t : T) (f : F) (ht : s.doing t = .wakeAll) (hw : s.head (.thread t) = some f) :
      Moves s t (({ s with
        head := Function.update s.head (.thread t) (s.nextWake f) }.setPlace f
        (.executing t)).setDoing t (.running f (resumeStep (s.context f))))
  | returnIdle (t : T) (ht : s.doing t = .wakeAll) (hw : s.head (.thread t) = none)
      (hn : s.nest t = []) : Moves s t (s.setDoing t .idle)
  | returnTo (t : T) (g : F) (nest : List F) (ht : s.doing t = .wakeAll)
      (hn : s.nest t = g :: nest) :
      Moves s t ({ s with nest := Function.update s.nest t nest }.setDoing t (.running g .user))
  | enter (t : T) (f : F) (at_ at_' : FiberStep F M C) (ht : s.doing t = .running f at_)
      (hat : Enters s f at_ at_') : Moves s t (s.setDoing t (.running f at_'))
  | notifyOne (t : T) (f : F) (m : M) (c : C) (ht : s.doing t = .running f .user)
      (ho : s.owner (.user m) = some (.fiber f)) : Moves s t (s.condNotifyOne t (.user m c))
  | notifyAll (t : T) (f : F) (m : M) (c : C) (n : ℕ) (ht : s.doing t = .running f .user)
      (ho : s.owner (.user m) = some (.fiber f)) (hw : s.walks (.cond (.user m c)) n) :
      Moves s t (s.condNotifyAll t (.user m c) n)
  | acquire (t : T) (f : F) (c : Call F M) (ht : s.doing t = .running f (.lock c))
      (hs : s.state (c.mutex f) = 0) :
      Moves s t (((s.setState (c.mutex f) (s.state (c.mutex f) + 1)).setOwner (c.mutex f)
        (some (.fiber f))).setDoing t (.running f c.locked))
  | sleep (t : T) (f : F) (c : Call F M) (ht : s.doing t = .running f (.lock c))
      (hs : s.state (c.mutex f) = 1) :
      Moves s t ((s.setState (c.mutex f) (s.state (c.mutex f) + 1)).setDoing t
        (.running f (.push c)))
  | contend (t : T) (f : F) (c : Call F M) (ht : s.doing t = .running f (.lock c))
      (hs : s.state (c.mutex f) ≠ 0) :
      Moves s t ((s.setState (c.mutex f) (s.state (c.mutex f) + 1)).setDoing t
        (.running f (.backOff c)))
  | backOff (t : T) (f : F) (c : Call F M) (ht : s.doing t = .running f (.backOff c)) :
      Moves s t ((s.setState (c.mutex f) (s.state (c.mutex f) - 1)).setDoing t
        (.running f (.lock c)))
  | push (t : T) (f : F) (c : Call F M) (ht : s.doing t = .running f (.push c)) :
      Moves s t ((s.sleepTillWoken t (c.mutex f) f).setDoing t (.running f (.switchMutex c)))
  | condPush (t : T) (f : F) (k : CondId F M C) (n : ℕ)
      (ht : s.doing t = .running f (.condPush k)) (hw : (s.clearNext f).walks (.cond k) n) :
      Moves s t ((s.condPush t k f n).setDoing t (.running f (.switchCond k)))
  | exitNotify (t : T) (f : F) (n : ℕ) (ht : s.doing t = .running f .exitNotify)
      (hw : s.walks (.cond (.stop f)) n) :
      Moves s t (({ s with running := Function.update s.running f false }.condNotifyAll t
        (.stop f) n).setDoing t (.running f (.unlock .exit .grab)))
  | grab (t : T) (k : UnlockStep → Doing F M C) (m : MutexId F M) (hk : Unlocker k m)
      (ht : s.doing t = k .grab) (hs : s.state m = 1) :
      Moves s t ((s.setState m 2).setDoing t (k .wake))
  | wake (t : T) (k : UnlockStep → Doing F M C) (m : MutexId F M) (hk : Unlocker k m)
      (ht : s.doing t = k .wake) : Moves s t ((s.wakeSleepers t m).setDoing t (k .release))
  | release (t : T) (f : F) (c : Call F M) (joined : F → Bool)
      (ht : s.doing t = .running f (.unlock c .release)) (hs : s.state (c.mutex f) = 2)
      (hj : joined = s.joined ∨ ∃ g, c = .join g ∧ joined = Function.update s.joined g true) :
      Moves s t { ((s.setState (c.mutex f) 0).setOwner (c.mutex f) none).setDoing t
        (.running f c.unlocked) with joined := joined }
  | releaseParent (t : T) (f : F) (m : MutexId F M)
      (ht : s.doing t = .handle f (.condWait m .release)) (hs : s.state m = 2) :
      Moves s t (((s.setState m 0).setOwner m none).setDoing t .wakeAll)
  | switchMutex (t : T) (f : F) (c : Call F M) (ht : s.doing t = .running f (.switchMutex c)) :
      Moves s t (s.switchTo t f (some c) (.listed (.mutex (c.mutex f)))
        (.mutexSuspend (c.mutex f)))
  | switchCond (t : T) (f : F) (k : CondId F M C) (ht : s.doing t = .running f (.switchCond k)) :
      Moves s t ((s.switchTo t f (some k.call) (.listed (.cond k))
        (.condWait k.mutex .grab)).setOwner k.mutex (some (.parent t)))
  | switchExternal (t : T) (f : F) (ht : s.doing t = .running f .switchExternal) :
      Moves s t (s.switchTo t f none (.registering t) .register)
  | switchExit (t : T) (f : F) (ht : s.doing t = .running f .switchExit) :
      Moves s t { s.switchTo t f none (.exiting t) .exit with
        life := Function.update s.life f .ended }
  | decrement (t : T) (f : F) (m : MutexId F M) (ht : s.doing t = .handle f (.mutexSuspend m)) :
      Moves s t ((s.setState m (s.state m - 1)).setDoing t .wakeAll)
  | register (t : T) (f : F) (ht : s.doing t = .handle f .register) :
      Moves s t (({ s with events := Function.update s.events f (s.events f + 1) }.setPlace f
        .external).setDoing t .wakeAll)
  | exit (t : T) (f : F) (ht : s.doing t = .handle f .exit) :
      Moves s t (({ s with life := Function.update s.life f .finished }.setPlace f
        .off).setDoing t .wakeAll)

omit [DecidableEq F] [DecidableEq T] [DecidableEq M] [DecidableEq C] in
theorem runsUser_eq {s : WakeState F T M C} {t : T} {f : F} (h : s.runsUser t = some f) :
    s.doing t = .running f .user := by
  unfold runsUser at h
  split at h
  · next g ht =>
    rw [ht]
    simpa using h
  · exact absurd h (by simp)

omit [DecidableEq F] [DecidableEq T] [DecidableEq M] [DecidableEq C] in
theorem holdsUser_eq {s : WakeState F T M C} {t : T} {m : M} (h : s.holdsUser t m) :
    ∃ f, s.runsUser t = some f ∧ s.owner (.user m) = some (.fiber f) := by
  unfold holdsUser at h
  split at h
  · next f hf => exact ⟨f, hf, h⟩
  · exact h.elim

/-- A function that the running fiber enters is a move. -/
theorem moves_enter {s : WakeState F T M C} {t : T} {f : F} {at_ : FiberStep F M C}
    (hf : s.runsUser t = some f) (hat : Enters s f .user at_) : Moves s t (s.enter t at_) := by
  rw [WakeState.enter, hf]
  exact .enter t f .user at_ (runsUser_eq hf) hat

theorem moves_lock {s : WakeState F T M C} {t : T} {f : F} {c : Call F M}
    (ht : s.doing t = .running f (.lock c)) : Moves s t (s.lockFetchAdd t f c) := by
  rw [lockFetchAdd]
  split
  · exact .acquire t f c ht ‹_›
  · split
    · exact .sleep t f c ht ‹_›
    · exact .contend t f c ht ‹_›

/-- A step of a fiber in `unlock` is a move. -/
theorem moves_unlock {s : WakeState F T M C} {t : T} {n : ℕ} {f : F} {c : Call F M}
    {u : UnlockStep} (ht : s.doing t = .running f (.unlock c u))
    (hu : s.unlockEnabled (c.mutex f) u) : Moves s t (s.fiberNext t n f (.unlock c u)) := by
  cases u with
  | grab => exact .grab t _ _ (.fiber f c) ht hu
  | wake => exact .wake t _ _ (.fiber f c) ht
  | release =>
    cases c with
    | user m => exact .release t f (.user m) s.joined ht hu (.inl rfl)
    | exit => exact .release t f .exit s.joined ht hu (.inl rfl)
    | join g => exact .release t f (.join g) _ ht hu (.inr ⟨g, rfl, rfl⟩)

/-- A step of the running fiber is a move. -/
theorem moves_fiber {s : WakeState F T M C} {t : T} {n : ℕ} {f : F} {at_ : FiberStep F M C}
    (ht : s.doing t = .running f at_) (h : s.stepEnabled t n) :
    Moves s t (s.fiberNext t n f at_) := by
  rw [stepEnabled, ht] at h
  cases at_ with
  | user => exact h.elim
  | lock c => exact moves_lock ht
  | backOff c => exact .backOff t f c ht
  | push c => exact .push t f c ht
  | switchMutex c => exact .switchMutex t f c ht
  | joinTest g =>
    rw [fiberNext]
    refine .enter t f _ _ ht ?_
    cases hr : s.running g with
    | true => exact .joinWait g hr
    | false => exact .joinDone g hr
  | condPush k => exact .condPush t f k n ht h
  | switchCond k => exact .switchCond t f k ht
  | exitNotify => exact .exitNotify t f n ht h
  | unlock c u => exact moves_unlock ht h
  | switchExternal => exact .switchExternal t f ht
  | switchExit => exact .switchExit t f ht

/-- A step of a parent is a move. -/
theorem moves_parent {s : WakeState F T M C} {t : T} {n : ℕ} {f : F} {op : ParentOp F M}
    (ht : s.doing t = .handle f op) (h : s.stepEnabled t n) : Moves s t (s.parentNext t f op) := by
  rw [stepEnabled, ht] at h
  cases op with
  | mutexSuspend m => exact .decrement t f m ht
  | register => exact .register t f ht
  | exit => exact .exit t f ht
  | condWait m u =>
    cases u with
    | grab => exact .grab t _ _ (.parent f m) ht h
    | wake => exact .wake t _ _ (.parent f m) ht
    | release => exact .releaseParent t f m ht h

theorem moves_start {s : WakeState F T M C} {t : T} {f : F}
    (h : s.doing t = .idle ∨ (s.runsUser t).isSome) (hf : s.life f = .unstarted) :
    Moves s t (s.next (.start t f)) := by
  have hcur : (s.runsUser t).toList = (s.doing t).current := by
    rcases h with ht | h
    · simp [runsUser, ht, Doing.current]
    · obtain ⟨g, hg⟩ := Option.isSome_iff_exists.mp h
      simp [hg, runsUser_eq hg, Doing.current]
  simp only [WakeState.next, hcur]
  apply Moves.start t f _ hf
  rcases h with ht | h
  · exact .inl ht
  · obtain ⟨g, hg⟩ := Option.isSome_iff_exists.mp h
    exact .inr ⟨g, runsUser_eq hg⟩

/-- Every enabled action is one of the moves. -/
theorem moves_of_enabled {s : WakeState F T M C} {a : WakeAction F T M C} (h : s.enabled a) :
    Moves s a.thread (s.next a) := by
  cases a with
  | fire t f => exact .fire t f h.1 h.2
  | start t f => exact moves_start h.1 h.2
  | resume t =>
    obtain ⟨f, hf⟩ := Option.ne_none_iff_exists'.mp h.2
    simp only [WakeState.next, hf]
    exact .resume t f h.1 hf
  | return_ t =>
    simp only [WakeState.next]
    split
    · next hn => exact .returnIdle t h.1 h.2 hn
    · next g nest hn => exact .returnTo t g nest h.1 hn
  | lock t m =>
    obtain ⟨f, hf⟩ := Option.isSome_iff_exists.mp h
    exact moves_enter hf (.lock m)
  | unlock t m =>
    obtain ⟨f, hf, ho⟩ := holdsUser_eq h
    exact moves_enter hf (.unlock m ho)
  | wait t m c =>
    obtain ⟨f, hf, ho⟩ := holdsUser_eq h
    exact moves_enter hf (.wait m c ho)
  | notifyOne t m c =>
    obtain ⟨f, hf, ho⟩ := holdsUser_eq h
    exact .notifyOne t f m c (runsUser_eq hf) ho
  | notifyAll t m c n =>
    obtain ⟨f, hf, ho⟩ := holdsUser_eq h.1
    exact .notifyAll t f m c n (runsUser_eq hf) ho h.2
  | join t g =>
    obtain ⟨f, hf⟩ := Option.isSome_iff_exists.mp h
    exact moves_enter hf (.join g)
  | suspend t =>
    obtain ⟨f, hf⟩ := Option.isSome_iff_exists.mp h
    exact moves_enter hf .suspend
  | exit t =>
    obtain ⟨f, hf⟩ := Option.isSome_iff_exists.mp h
    exact moves_enter hf .exit
  | step t n =>
    simp only [WakeState.next, stepNext]
    split
    · next f at_ ht => exact moves_fiber ht h
    · next f op ht => exact moves_parent ht h
    · next hr hh =>
      simp only [WakeState.enabled, stepEnabled] at h
      split at h
      all_goals first | exact h.elim | exact absurd ‹_› (hr _ _) | exact absurd ‹_› (hh _ _)

variable {s s' : WakeState F T M C}

/-! ## Work on the lists -/

/-- Work on the lists moves fibers between them and leaves everything else alone. -/
structure ListWork (s s' : WakeState F T M C) : Prop where
  state : s'.state = s.state
  owner : s'.owner = s.owner
  doing : s'.doing = s.doing
  nest : s'.nest = s.nest
  context : s'.context = s.context
  events : s'.events = s.events
  running : s'.running = s.running
  life : s'.life = s.life
  joined : s'.joined = s.joined

omit [DecidableEq F] [DecidableEq T] [DecidableEq M] [DecidableEq C] in
theorem ListWork.refl (s : WakeState F T M C) : ListWork s s := by
  constructor <;> rfl

omit [DecidableEq F] [DecidableEq M] [DecidableEq C] in
/-- A step of thread `t` with work on the lists. -/
theorem ListWork.setDoing (h : ListWork s s') (t : T) (d : Doing F M C) :
    (s'.setDoing t d).doing = Function.update s.doing t d := by
  rw [← h.doing]
  rfl

theorem listWork_splice (s : WakeState F T M C) (i : WakeList F T M C) (t : T) (l : F) :
    ListWork s (s.spliceList i t l) := by
  constructor <;> rfl

theorem listWork_condPush (s : WakeState F T M C) (t : T) (k : CondId F M C) (f : F) (n : ℕ) :
    ListWork s (s.condPush t k f n) := by
  unfold WakeState.condPush
  split
  · constructor <;> rfl
  · dsimp only
    split <;> constructor <;> rfl

theorem listWork_notifyAll (s : WakeState F T M C) (t : T) (k : CondId F M C) (n : ℕ) :
    ListWork s (s.condNotifyAll t k n) := by
  unfold WakeState.condNotifyAll
  split
  · exact ListWork.refl s
  · split
    · exact ListWork.refl s
    · exact listWork_splice s _ t _

theorem listWork_notifyOne (s : WakeState F T M C) (t : T) (k : CondId F M C) :
    ListWork s (s.condNotifyOne t k) := by
  unfold WakeState.condNotifyOne
  split
  · exact ListWork.refl s
  · constructor <;> rfl

theorem listWork_wakeSleepers (s : WakeState F T M C) (t : T) (m : MutexId F M) :
    ListWork s (s.wakeSleepers t m) := by
  unfold WakeState.wakeSleepers
  split
  · constructor <;> rfl
  · exact ListWork.refl s

end Anon.Fiber.Wake
