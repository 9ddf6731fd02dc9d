import Mathlib
import Anon.Lib.Machine
import Anon.Lib.ListFamily

/-!
# Wake lists

The suspended fibers of `fiber.cpp`. A fiber has one link, `next_wake_`, and there are many heads:
the `fiber_wake_head_` of every `fiber_mutex`, the `wake_head_` of every `fiber_cond` (among
them the `stop_condition_` of every fiber, which `fiber::join` waits on) and the `wake_head_` of
every thread's `tls_io_params`.

A fiber puts itself on a list while it still runs, and then switches to its parent context,
`io_params::wake_all` of the thread; the parent acts on `opcode_` and goes on with the thread's own
list. A running fiber that starts another one (`fiber::in_fiber_start`) acts as the parent itself.

One action is one atomic step on a `state_` or one piece of work on a wake list. A wake
list is used by one party at a time: the list of a mutex by the party that raised its `state_`
from 1 to 2, the list of a condition by the holder of its mutex, the list of a thread by the
thread. A condition is used with one mutex, so it is named together with that mutex.
-/

namespace Anon.Fiber.Wake

/-- A `fiber_mutex`: one that the program declares, or the `stop_mutex_` of a fiber. -/
inductive MutexId (F M : Type)
  | user (m : M)
  | stop (f : F)
  deriving DecidableEq

/-- A `fiber_cond`: one that the program uses with the mutex `m`, or the `stop_condition_` of a
fiber. -/
inductive CondId (F M C : Type)
  | user (m : M) (c : C)
  | stop (f : F)
  deriving DecidableEq

/-- The heads of wake lists. -/
inductive WakeList (F T M C : Type)
  /-- `fiber_wake_head_` of a mutex -/
  | mutex (m : MutexId F M)
  /-- `wake_head_` of a condition -/
  | cond (k : CondId F M C)
  /-- `tls_io_params.wake_head_` of a thread -/
  | thread (t : T)
  deriving DecidableEq

/-- On whose behalf a fiber is in `fiber_mutex::lock` or `unlock`. -/
inductive Call (F M : Type)
  /-- The program's own, or the end of `fiber_cond::wait`. -/
  | user (m : M)
  /-- `fiber::join` of `g` -/
  | join (g : F)
  /-- `fiber::stop_fiber` of the fiber itself -/
  | exit
  deriving DecidableEq

/-- Where `fiber_mutex::unlock` is. -/
inductive UnlockStep
  /-- About to compare-exchange `state_` from 1 to 2. -/
  | grab
  /-- About to do `if (fiber_wake_head_) wake_sleepers();`. -/
  | wake
  /-- About to compare-exchange `state_` from 2 to 0. -/
  | release
  deriving DecidableEq

/-- Where a running fiber is. -/
inductive FiberStep (F M C : Type)
  /-- In the program's own code. -/
  | user
  /-- `lock`: about to do `state_.fetch_add(1)`. -/
  | lock (c : Call F M)
  /-- `lock`, default branch: about to do `state_.fetch_add(-1)`. -/
  | backOff (c : Call F M)
  /-- `sleep_till_woken`: about to put itself on the list of the mutex. -/
  | push (c : Call F M)
  /-- About to switch with `oc_mutex_suspend`. -/
  | switchMutex (c : Call F M)
  /-- `join`: about to test `running_` of `g`. -/
  | joinTest (g : F)
  /-- `fiber_cond::wait`: about to put itself on the list of the condition. -/
  | condPush (k : CondId F M C)
  /-- About to switch with `oc_cond_wait`. -/
  | switchCond (k : CondId F M C)
  /-- `stop_fiber`: about to do `running_ = false; stop_condition_.notify_all();`. -/
  | exitNotify
  | unlock (c : Call F M) (u : UnlockStep)
  /-- About to switch with `oc_read`, `oc_write` or `oc_sleep`. -/
  | switchExternal
  /-- About to switch with `oc_exit_fiber`. -/
  | switchExit
  deriving DecidableEq

/-- What the parent does about the `opcode_` of the fiber that switched to it. -/
inductive ParentOp (F M : Type)
  /-- About to do `mutex_state_->fetch_add(-1)`. -/
  | mutexSuspend (m : MutexId F M)
  /-- In `cond_mutex_->unlock()`. -/
  | condWait (m : MutexId F M) (u : UnlockStep)
  /-- About to hand the fiber to `epoll_ctl` or to `schedule_task`. -/
  | register
  /-- About to do what `oc_exit_fiber` asks for. -/
  | exit
  deriving DecidableEq

/-- What a thread is executing. -/
inductive Doing (F M C : Type)
  /-- Outside `wake_all`. -/
  | idle
  /-- At the head of the loop of `wake_all`. -/
  | wakeAll
  | running (f : F) (at_ : FiberStep F M C)
  /-- Back in `wake_all` after `f` switched to it. -/
  | handle (f : F) (op : ParentOp F M)
  deriving DecidableEq

inductive Life
  | unstarted
  | live
  /-- The final switch is made. -/
  | ended
  /-- The parent is done with it. -/
  | finished
  deriving DecidableEq

/-- Where a fiber is to be found. -/
inductive Place (F T M C : Type)
  /-- Not started, or finished. -/
  | off
  /-- On the stack of thread `t`. -/
  | executing (t : T)
  /-- On the stack of thread `t`, and already on list `i`. -/
  | switching (t : T) (i : WakeList F T M C)
  /-- Suspended on list `i`. -/
  | listed (i : WakeList F T M C)
  /-- Suspended, about to be handed to the event that resumes it by the parent on `t`. -/
  | registering (t : T)
  /-- Suspended until an event. -/
  | external
  /-- Past its final switch, in the hands of the parent on `t`. -/
  | exiting (t : T)
  deriving DecidableEq

/-- A party that can hold a mutex: a fiber, or the parent context of a thread that unlocks on
behalf of a fiber. -/
inductive Party (F T : Type)
  | fiber (f : F)
  | parent (t : T)
  deriving DecidableEq

/-- All fibers, threads, mutexes and conditions. -/
structure WakeState (F T M C : Type) where
  /-- `state_` -/
  state : MutexId F M → ℤ
  /-- `fiber_wake_tail_` -/
  tail : MutexId F M → Option F
  head : WakeList F T M C → Option F
  /-- `next_wake_` -/
  nextWake : F → Option F
  doing : T → Doing F M C
  /-- The fibers that act as parent contexts on a thread, innermost first. -/
  nest : T → List F
  /-- Where a suspended fiber goes on: inside `lock`, or in the program's own code. -/
  context : F → Option (Call F M)
  /-- Events registered to resume a fiber. -/
  events : F → ℕ
  /-- `running_` -/
  running : F → Bool
  /-- History: what has become of a fiber. -/
  life : F → Life
  /-- History: some `join` of the fiber has returned. -/
  joined : F → Bool
  /-- Bookkeeping: who holds a mutex. -/
  owner : MutexId F M → Option (Party F T)
  /-- Bookkeeping that no step reads. -/
  place : F → Place F T M C

inductive WakeAction (F T M C : Type)
  /-- An event resumes `f`: an idle thread calls `wake_all(f)`. -/
  | fire (t : T) (f : F)
  /-- `in_fiber_start` of `f`, called by an idle thread or by the running fiber. -/
  | start (t : T) (f : F)
  /-- The loop of `wake_all` pops `wake_head_` and switches to it. -/
  | resume (t : T)
  /-- The loop of `wake_all` finds `wake_head_` null and returns. -/
  | return_ (t : T)
  | lock (t : T) (m : M)
  | unlock (t : T) (m : M)
  | wait (t : T) (m : M) (c : C)
  | notifyOne (t : T) (m : M) (c : C)
  /-- `notify_all` where the loop to the last fiber follows `n` links. -/
  | notifyAll (t : T) (m : M) (c : C) (n : ℕ)
  | join (t : T) (g : F)
  /-- The running fiber is about to suspend on io or to sleep. -/
  | suspend (t : T)
  /-- The running fiber's function returns and it calls `stop_fiber`. -/
  | exit (t : T)
  /-- The next step of what is in progress on `t`; a loop over a wake list in it follows `n`
  links. -/
  | step (t : T) (n : ℕ)

variable {F T M C : Type}

/-- The mutex of the call when `f` makes it. -/
def Call.mutex (f : F) : Call F M → MutexId F M
  | .user m => .user m
  | .join g => .stop g
  | .exit => .stop f

/-- What follows a successful `lock`. -/
def Call.locked : Call F M → FiberStep F M C
  | .user _ => .user
  | .join g => .joinTest g
  | .exit => .exitNotify

/-- What follows a finished `unlock`. -/
def Call.unlocked : Call F M → FiberStep F M C
  | .user _ => .user
  | .join _ => .user
  | .exit => .switchExit

/-- The mutex that a condition is used with. -/
def CondId.mutex : CondId F M C → MutexId F M
  | .user m _ => .user m
  | .stop g => .stop g

/-- The call of `lock` with which `wait` ends. -/
def CondId.call : CondId F M C → Call F M
  | .user m _ => .user m
  | .stop g => .join g

/-- Where a fiber goes on when it is resumed. -/
def resumeStep : Option (Call F M) → FiberStep F M C
  | none => .user
  | some c => .lock c

/-- The step of `unlock` that follows; `none` when it returns. -/
def UnlockStep.then : UnlockStep → Option UnlockStep
  | .grab => some .wake
  | .wake => some .release
  | .release => none

variable [DecidableEq F] [DecidableEq T] [DecidableEq M] [DecidableEq C]

namespace WakeState

/-! ## Work on the lists -/

@[simp] def setDoing (s : WakeState F T M C) (t : T) (d : Doing F M C) : WakeState F T M C :=
  { s with doing := Function.update s.doing t d }

@[simp] def setPlace (s : WakeState F T M C) (f : F) (p : Place F T M C) : WakeState F T M C :=
  { s with place := Function.update s.place f p }

@[simp] def setOwner (s : WakeState F T M C) (m : MutexId F M) (p : Option (Party F T)) :
    WakeState F T M C :=
  { s with owner := Function.update s.owner m p }

@[simp] def setState (s : WakeState F T M C) (m : MutexId F M) (v : ℤ) : WakeState F T M C :=
  { s with state := Function.update s.state m v }

/-- `f->next_wake_ = head; head = f` -/
@[simp] def pushList (s : WakeState F T M C) (i : WakeList F T M C) (f : F) :
    WakeState F T M C :=
  { s with
    nextWake := Function.update s.nextWake f (s.head i)
    head := Function.update s.head i (some f) }

/-- `last->next_wake_ = params->wake_head_; params->wake_head_ = head; head = 0` -/
@[simp] def spliceList (s : WakeState F T M C) (i : WakeList F T M C) (t : T) (last : F) :
    WakeState F T M C :=
  { s with
    nextWake := Function.update s.nextWake last (s.head (.thread t))
    head := Function.update (Function.update s.head (.thread t) (s.head i)) i none
    place := fun f => if s.place f = .listed i then .listed (.thread t) else s.place f }

/-- The start of `wake_all(first)` on thread `t`. -/
@[simp] def wakeAll (s : WakeState F T M C) (t : T) (first : F) : WakeState F T M C :=
  ((s.pushList (.thread t) first).setPlace first (.listed (.thread t))).setDoing t .wakeAll

/-- `fiber_mutex::sleep_till_woken` up to the switch. -/
@[simp] def sleepTillWoken (s : WakeState F T M C) (t : T) (m : MutexId F M) (f : F) :
    WakeState F T M C :=
  let s' := { s with tail := Function.update s.tail m ((s.tail m).or (some f)) }
  (s'.pushList (.mutex m) f).setPlace f (.switching t (.mutex m))

/-- `if (fiber_wake_head_) wake_sleepers();` -/
def wakeSleepers (s : WakeState F T M C) (t : T) (m : MutexId F M) : WakeState F T M C :=
  match s.head (.mutex m), s.tail m with
  | some _, some last =>
    { s.spliceList (.mutex m) t last with tail := Function.update s.tail m none }
  | _, _ => s

/-- The loop from a head to the last fiber of the list ends after `n` links. -/
def walks (s : WakeState F T M C) (i : WakeList F T M C) (n : ℕ) : Prop :=
  match s.head i with
  | none => True
  | some first => (walk s.nextWake n first).isSome

/-- `f->next_wake_ = 0` -/
@[simp] def clearNext (s : WakeState F T M C) (f : F) : WakeState F T M C :=
  { s with nextWake := Function.update s.nextWake f none }

/-- `fiber_cond::wait` up to the switch. -/
def condPush (s : WakeState F T M C) (t : T) (k : CondId F M C) (f : F) (n : ℕ) :
    WakeState F T M C :=
  let s' := (s.clearNext f).setPlace f (.switching t (.cond k))
  match s.head (.cond k) with
  | none => { s' with head := Function.update s.head (.cond k) (some f) }
  | some first =>
    match walk s'.nextWake n first with
    | none => s'
    | some last => { s' with nextWake := Function.update s'.nextWake last (some f) }

/-- `fiber_cond::notify_all` -/
def condNotifyAll (s : WakeState F T M C) (t : T) (k : CondId F M C) (n : ℕ) :
    WakeState F T M C :=
  match s.head (.cond k) with
  | none => s
  | some first =>
    match walk s.nextWake n first with
    | none => s
    | some last => s.spliceList (.cond k) t last

/-- `fiber_cond::notify_one` -/
def condNotifyOne (s : WakeState F T M C) (t : T) (k : CondId F M C) : WakeState F T M C :=
  match s.head (.cond k) with
  | none => s
  | some first =>
    { s with
      nextWake := Function.update s.nextWake first (s.head (.thread t))
      head := Function.update (Function.update s.head (.thread t) (some first)) (.cond k)
        (s.nextWake first) }.setPlace first (.listed (.thread t))

/-! ## Steps -/

/-- The guard of a step of `unlock`. A failing compare-exchange changes nothing, so it is the
absence of a step. -/
def unlockEnabled (s : WakeState F T M C) (m : MutexId F M) : UnlockStep → Prop
  | .grab => s.state m = 1
  | .wake => True
  | .release => s.state m = 2

/-- A step of `fiber_mutex::unlock` on thread `t`. -/
def unlockEffect (s : WakeState F T M C) (t : T) (m : MutexId F M) :
    UnlockStep → WakeState F T M C
  | .grab => s.setState m 2
  | .wake => s.wakeSleepers t m
  | .release => (s.setState m 0).setOwner m none

/-- `fiber_mutex::lock`, the three cases of `switch (state_.fetch_add(1))`. -/
def lockFetchAdd (s : WakeState F T M C) (t : T) (f : F) (c : Call F M) : WakeState F T M C :=
  let m := c.mutex f
  let s' := s.setState m (s.state m + 1)
  if s.state m = 0 then (s'.setOwner m (some (.fiber f))).setDoing t (.running f c.locked)
  else if s.state m = 1 then s'.setDoing t (.running f (.push c))
  else s'.setDoing t (.running f (.backOff c))

/-- The switch of `f` to its parent, which then does `op`. -/
@[simp] def switchTo (s : WakeState F T M C) (t : T) (f : F) (context : Option (Call F M))
    (p : Place F T M C) (op : ParentOp F M) : WakeState F T M C :=
  ({ s with context := Function.update s.context f context }.setPlace f p).setDoing t
    (.handle f op)

/-- The guard of `WakeAction.step`. -/
def stepEnabled (s : WakeState F T M C) (t : T) (n : ℕ) : Prop :=
  match s.doing t with
  | .idle => False
  | .wakeAll => False
  | .running _ .user => False
  | .running f (.condPush k) => (s.clearNext f).walks (.cond k) n
  | .running f .exitNotify => s.walks (.cond (.stop f)) n
  | .running f (.unlock c u) => s.unlockEnabled (c.mutex f) u
  | .running _ _ => True
  | .handle _ (.condWait m u) => s.unlockEnabled m u
  | .handle _ _ => True

/-- A step of the running fiber `f`. -/
def fiberNext (s : WakeState F T M C) (t : T) (n : ℕ) (f : F) :
    FiberStep F M C → WakeState F T M C
  | .user => s
  | .lock c => s.lockFetchAdd t f c
  | .backOff c =>
    (s.setState (c.mutex f) (s.state (c.mutex f) - 1)).setDoing t (.running f (.lock c))
  | .push c => (s.sleepTillWoken t (c.mutex f) f).setDoing t (.running f (.switchMutex c))
  | .switchMutex c =>
    s.switchTo t f (some c) (.listed (.mutex (c.mutex f))) (.mutexSuspend (c.mutex f))
  | .joinTest g =>
    s.setDoing t (.running f
      (if s.running g then .condPush (.stop g) else .unlock (.join g) .grab))
  | .condPush k => (s.condPush t k f n).setDoing t (.running f (.switchCond k))
  | .switchCond k =>
    (s.switchTo t f (some k.call) (.listed (.cond k)) (.condWait k.mutex .grab)).setOwner
      k.mutex (some (.parent t))
  | .exitNotify =>
    ({ s with running := Function.update s.running f false }.condNotifyAll t (.stop f) n).setDoing
      t (.running f (.unlock .exit .grab))
  | .unlock c u =>
    match u.then with
    | some u' => (s.unlockEffect t (c.mutex f) u).setDoing t (.running f (.unlock c u'))
    | none =>
      let s' := (s.unlockEffect t (c.mutex f) u).setDoing t (.running f c.unlocked)
      match c with
      | .join g => { s' with joined := Function.update s.joined g true }
      | _ => s'
  | .switchExternal => s.switchTo t f none (.registering t) .register
  | .switchExit =>
    { s.switchTo t f none (.exiting t) .exit with life := Function.update s.life f .ended }

/-- A step of the parent on `t` after the switch of `f`. -/
def parentNext (s : WakeState F T M C) (t : T) (f : F) : ParentOp F M → WakeState F T M C
  | .mutexSuspend m => (s.setState m (s.state m - 1)).setDoing t .wakeAll
  | .condWait m u =>
    match u.then with
    | some u' => (s.unlockEffect t m u).setDoing t (.handle f (.condWait m u'))
    | none => (s.unlockEffect t m u).setDoing t .wakeAll
  | .register =>
    ({ s with events := Function.update s.events f (s.events f + 1) }.setPlace f
      .external).setDoing t .wakeAll
  | .exit =>
    ({ s with life := Function.update s.life f .finished }.setPlace f .off).setDoing t .wakeAll

/-- The effect of `WakeAction.step`. -/
def stepNext (s : WakeState F T M C) (t : T) (n : ℕ) : WakeState F T M C :=
  match s.doing t with
  | .running f at_ => s.fiberNext t n f at_
  | .handle f op => s.parentNext t f op
  | _ => s

/-- The running fiber is in the program's own code. -/
def runsUser (s : WakeState F T M C) (t : T) : Option F :=
  match s.doing t with
  | .running f .user => some f
  | _ => none

/-- The running fiber is in the program's own code and holds the mutex. -/
def holdsUser (s : WakeState F T M C) (t : T) (m : M) : Prop :=
  match s.runsUser t with
  | some f => s.owner (.user m) = some (.fiber f)
  | none => False

def enabled (s : WakeState F T M C) : WakeAction F T M C → Prop
  | .fire t f => s.doing t = .idle ∧ s.events f ≠ 0
  | .start t f => (s.doing t = .idle ∨ (s.runsUser t).isSome) ∧ s.life f = .unstarted
  | .resume t => s.doing t = .wakeAll ∧ s.head (.thread t) ≠ none
  | .return_ t => s.doing t = .wakeAll ∧ s.head (.thread t) = none
  | .lock t _ | .join t _ | .suspend t | .exit t => (s.runsUser t).isSome
  | .unlock t m | .wait t m _ | .notifyOne t m _ => s.holdsUser t m
  | .notifyAll t m c n => s.holdsUser t m ∧ s.walks (.cond (.user m c)) n
  | .step t n => s.stepEnabled t n

/-- The running fiber enters a function at `at_`. -/
def enter (s : WakeState F T M C) (t : T) (at_ : FiberStep F M C) : WakeState F T M C :=
  match s.runsUser t with
  | some f => s.setDoing t (.running f at_)
  | none => s

def next (s : WakeState F T M C) : WakeAction F T M C → WakeState F T M C
  | .fire t f =>
    { s with events := Function.update s.events f (s.events f - 1) }.wakeAll t f
  | .start t f =>
    let s' := { s with
      life := Function.update s.life f .live
      context := Function.update s.context f none
      -- a fiber that starts another one acts as its parent
      nest := Function.update s.nest t ((s.runsUser t).toList ++ s.nest t) }
    s'.wakeAll t f
  | .resume t =>
    match s.head (.thread t) with
    | some f =>
      ({ s with head := Function.update s.head (.thread t) (s.nextWake f) }.setPlace f
        (.executing t)).setDoing t (.running f (resumeStep (s.context f)))
    | none => s
  | .return_ t =>
    match s.nest t with
    | [] => s.setDoing t .idle
    | g :: nest =>
      { s with nest := Function.update s.nest t nest }.setDoing t (.running g .user)
  | .lock t m => s.enter t (.lock (.user m))
  | .unlock t m => s.enter t (.unlock (.user m) .grab)
  | .wait t m c => s.enter t (.condPush (.user m c))
  | .notifyOne t m c => s.condNotifyOne t (.user m c)
  | .notifyAll t m c n => s.condNotifyAll t (.user m c) n
  | .join t g => s.enter t (.lock (.join g))
  | .suspend t => s.enter t .switchExternal
  | .exit t => s.enter t (.lock .exit)
  | .step t n => s.stepNext t n

instance decidableWalks (s : WakeState F T M C) (i : WakeList F T M C) (n : ℕ) :
    Decidable (s.walks i n) := by
  unfold walks
  split <;> infer_instance

instance decidableUnlockEnabled (s : WakeState F T M C) (m : MutexId F M) :
    (u : UnlockStep) → Decidable (s.unlockEnabled m u)
  | .grab => inferInstanceAs (Decidable (s.state m = 1))
  | .wake => inferInstanceAs (Decidable True)
  | .release => inferInstanceAs (Decidable (s.state m = 2))

instance decidableStepEnabled (s : WakeState F T M C) (t : T) (n : ℕ) :
    Decidable (s.stepEnabled t n) := by
  unfold stepEnabled
  split <;> infer_instance

instance decidableHoldsUser (s : WakeState F T M C) (t : T) (m : M) :
    Decidable (s.holdsUser t m) := by
  unfold holdsUser
  split <;> infer_instance

instance decidableEnabled (s : WakeState F T M C) (a : WakeAction F T M C) :
    Decidable (s.enabled a) := by
  cases a <;> simp only [enabled] <;> infer_instance

end WakeState

/-- Fresh mutexes and conditions, all threads outside `wake_all`, and no fiber started. -/
def wakeMachine (F T M C : Type) [DecidableEq F] [DecidableEq T] [DecidableEq M]
    [DecidableEq C] : Machine (WakeState F T M C) (WakeAction F T M C) where
  init :=
    { state := fun _ => 0
      tail := fun _ => none
      head := fun _ => none
      nextWake := fun _ => none
      doing := fun _ => .idle
      nest := fun _ => []
      context := fun _ => none
      events := fun _ => 0
      running := fun _ => true
      life := fun _ => .unstarted
      joined := fun _ => false
      owner := fun _ => none
      place := fun _ => .off }
  enabled := WakeState.enabled
  next := WakeState.next

instance decidableWakeEnabled (s : WakeState F T M C) (a : WakeAction F T M C) :
    Decidable ((wakeMachine F T M C).enabled s a) :=
  inferInstanceAs (Decidable (s.enabled a))

/-! ## Suspended fibers -/

/-- The fiber is found from the head of the list. -/
def WakeState.onList (s : WakeState F T M C) (i : WakeList F T M C) (f : F) : Prop :=
  OnList s.nextWake (s.head i) f

/-- The fiber is on the stack of the thread: running, or acting as a parent. -/
def WakeState.onStack (s : WakeState F T M C) (t : T) (f : F) : Prop :=
  (∃ at_, s.doing t = .running f at_) ∨ f ∈ s.nest t

/-- Started, not past its final switch, and on no thread's stack. -/
def WakeState.suspended (s : WakeState F T M C) (f : F) : Prop :=
  s.life f = .live ∧ ∀ t, ¬ s.onStack t f

/-- The parent is about to hand the fiber to the event that will resume it. -/
def WakeState.registering (s : WakeState F T M C) (t : T) (f : F) : Prop :=
  s.doing t = .handle f .register

/-- The fiber still runs, and is about to switch to its parent. -/
def WakeState.switches (s : WakeState F T M C) (t : T) (f : F) : Prop :=
  (∃ c, s.doing t = .running f (.switchMutex c)) ∨ ∃ k, s.doing t = .running f (.switchCond k)

/-- The fiber is on exactly one wake list, or waits for exactly one event, or is just being handed
to one event. -/
def WakeState.waits (s : WakeState F T M C) (f : F) : Prop :=
  ((∃! i, s.onList i f) ∧ s.events f = 0 ∧ ∀ t, ¬ s.registering t f) ∨
  ((∀ i, ¬ s.onList i f) ∧ s.events f = 1 ∧ ∀ t, ¬ s.registering t f) ∨
  ((∀ i, ¬ s.onList i f) ∧ s.events f = 0 ∧ ∃! t, s.registering t f)

/-! ## Users of a mutex -/

/-- The step reads or writes the mutex or a condition that is used with it. -/
def FiberStep.uses (mtx : M) : FiberStep F M C → Prop
  | .lock c | .backOff c | .push c | .switchMutex c | .unlock c _ => c = .user mtx
  | .condPush k | .switchCond k => k.mutex = .user mtx
  | _ => False

def ParentOp.uses (mtx : M) : ParentOp F M → Prop
  | .mutexSuspend m | .condWait m _ => m = .user mtx
  | _ => False

end Anon.Fiber.Wake
