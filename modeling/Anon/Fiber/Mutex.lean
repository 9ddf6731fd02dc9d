import Anon.Lib.Machine
import Mathlib.Data.Int.Basic
import Mathlib.Tactic.Basic

/-!
# `fiber_mutex`

The hand-built lock of `fiber.h`: an atomic counter `state_`, and an intrusive list of the
fibers that wait for the mutex, entered at `fiber_wake_head_` and protected by nothing but
the counter.

Fibers run on OS threads. A thread is in `io_params::wake_all`, whose loop pops fibers from
the thread's own `wake_head_` list and switches to them; a fiber that suspends switches back to
that loop (its parent context), which then acts on the fiber's `opcode_`. A running fiber may
start another one (`fiber::in_fiber_start`); it then acts as the parent itself, so a thread
carries the stack of the fibers that do so.

One action is one atomic step: an operation on `state_`, or one read or write of the wake list.
A fiber that suspends on anything but this mutex (io, a timer, another lock, a condition) is
`parked` and comes back through a `wake_all` of any thread.
-/

namespace Anon.Fiber

/-- Where `fiber_mutex::unlock` is. -/
inductive UnlockStep
  /-- In the first loop: about to compare-exchange `state_` from 1 to 2. -/
  | grab
  /-- About to test `fiber_wake_head_`. -/
  | test
  /-- `wake_sleepers`: about to write `fiber_wake_tail_->next_wake_ = params->wake_head_`. -/
  | spliceTail
  /-- About to write `params->wake_head_ = fiber_wake_head_`. -/
  | spliceHead
  /-- About to write `fiber_wake_head_ = 0`. -/
  | clearHead
  /-- About to write `fiber_wake_tail_ = 0`. -/
  | clearTail
  /-- In the last loop: about to compare-exchange `state_` from 2 to 0. -/
  | release
  deriving DecidableEq

/-- Where a running fiber is, as far as this mutex is concerned. -/
inductive FiberStep
  /-- Neither in `lock` nor in `unlock`. -/
  | user
  /-- `lock`: about to do `state_.fetch_add(1)`. -/
  | fetchAdd
  /-- `lock`, default branch: about to do `state_.fetch_add(-1)` and try again. -/
  | backOff
  /-- `sleep_till_woken`: about to do `if (!fiber_wake_tail_) fiber_wake_tail_ = curF`. -/
  | pushTail
  /-- About to write `curF->next_wake_ = fiber_wake_head_`. -/
  | pushNext
  /-- About to write `fiber_wake_head_ = curF`. -/
  | pushHead
  /-- On the wake list, about to switch to the parent with `oc_mutex_suspend`. -/
  | switching
  | unlock (u : UnlockStep)
  deriving DecidableEq

/-- What an OS thread is executing; `nest` are the fibers that act as parent contexts below,
innermost first. -/
inductive Thread (F : Type)
  /-- In the epoll loop, outside `wake_all`. -/
  | idle
  /-- At the head of the loop of `wake_all`. -/
  | wakeAll (nest : List F)
  /-- Running the fiber `f`. -/
  | running (f : F) (nest : List F) (at_ : FiberStep)
  /-- Back in `wake_all` after `f` switched with `oc_mutex_suspend`: about to do
  `mutex_state_->fetch_add(-1)`. -/
  | mutexSuspend (f : F) (nest : List F)
  /-- Back in `wake_all` after a switch with `oc_cond_wait`: in `cond_mutex_->unlock()`. -/
  | condWait (nest : List F) (u : UnlockStep)
  deriving DecidableEq

/-- Where a fiber is to be found. -/
inductive Place (T : Type)
  /-- Not yet started, or suspended on something else than this mutex. -/
  | parked
  /-- On the stack of thread `t`. -/
  | running (t : T)
  /-- On the mutex's wake list. -/
  | asleep
  /-- On the `wake_head_` list of thread `t`; with `retry` it goes on inside `lock`. -/
  | toBeResumed (t : T) (retry : Bool)
  deriving DecidableEq

/-- The mutex together with the fibers and threads that use it. -/
structure MutexState (F T : Type) where
  /-- `state_` -/
  state : ℤ
  /-- `fiber_wake_head_` -/
  fiberWakeHead : Option F
  /-- `fiber_wake_tail_` -/
  fiberWakeTail : Option F
  /-- `next_wake_` of every fiber -/
  nextWake : F → Option F
  /-- `tls_io_params.wake_head_` of every thread -/
  wakeHead : T → Option F
  thread : T → Thread F
  place : F → Place T
  /-- The fiber is between a returned `lock` and the end of its `unlock`. -/
  holds : F → Bool

inductive MutexAction (F T : Type)
  /-- An idle thread calls `wake_all(f)` (from `io_avail`, a timer task or a start command). -/
  | wake (t : T) (f : F)
  /-- The running fiber starts `f` with `in_fiber_start`. -/
  | start (t : T) (f : F)
  /-- The loop of `wake_all` pops `wake_head_` and switches to it. -/
  | resume (t : T)
  /-- The loop of `wake_all` finds `wake_head_` null and returns. -/
  | return_ (t : T)
  /-- The running fiber suspends on something else, or ends. -/
  | suspend (t : T)
  /-- The running fiber calls `lock`. -/
  | lock (t : T)
  /-- The running fiber, which holds the mutex, calls `unlock`. -/
  | unlock (t : T)
  /-- The running fiber, which holds the mutex, waits on a condition and switches to its
  parent, telling it to unlock the mutex. -/
  | condWait (t : T)
  /-- The next atomic step of the `lock` or `unlock` in progress on `t`. -/
  | step (t : T)

variable {F T : Type} [DecidableEq F] [DecidableEq T]

namespace MutexState

/-- The guard of the next step of `unlock`. A failing compare-exchange changes nothing, so it is
the absence of a step. -/
def unlockEnabled (s : MutexState F T) : UnlockStep → Prop
  | .grab => s.state = 1
  | .release => s.state = 2
  | _ => True

/-- What a step of `unlock` on thread `t` does to the mutex and the wake lists. -/
def unlockEffect (s : MutexState F T) (t : T) : UnlockStep → MutexState F T
  | .grab => { s with state := 2 }
  | .test => s
  | .spliceTail =>
    match s.fiberWakeTail with
    | none => s
    | some l => { s with nextWake := Function.update s.nextWake l (s.wakeHead t) }
  | .spliceHead =>
    { s with
      wakeHead := Function.update s.wakeHead t s.fiberWakeHead
      place := fun f => if s.place f = .asleep then .toBeResumed t true else s.place f }
  | .clearHead => { s with fiberWakeHead := none }
  | .clearTail => { s with fiberWakeTail := none }
  | .release => { s with state := 0 }

/-- The step of `unlock` that follows; `none` when it returns. -/
def unlockThen (s : MutexState F T) : UnlockStep → Option UnlockStep
  | .grab => some .test
  | .test => some (if s.fiberWakeHead = none then .release else .spliceTail)
  | .spliceTail => some .spliceHead
  | .spliceHead => some .clearHead
  | .clearHead => some .clearTail
  | .clearTail => some .release
  | .release => none

@[simp] def setThread (s : MutexState F T) (t : T) (th : Thread F) : MutexState F T :=
  { s with thread := Function.update s.thread t th }

@[simp] def setPlace (s : MutexState F T) (f : F) (p : Place T) : MutexState F T :=
  { s with place := Function.update s.place f p }

@[simp] def setHolds (s : MutexState F T) (f : F) (b : Bool) : MutexState F T :=
  { s with holds := Function.update s.holds f b }

/-- `first->next_wake_ = wake_head_; wake_head_ = first`, at the start of `wake_all`. -/
@[simp] def pushWakeHead (s : MutexState F T) (t : T) (first : F) : MutexState F T :=
  { s with
    nextWake := Function.update s.nextWake first (s.wakeHead t)
    wakeHead := Function.update s.wakeHead t (some first)
    place := Function.update s.place first (.toBeResumed t false) }

/-- `fiber_mutex::lock`, the three cases of `switch (state_.fetch_add(1))`. -/
def lockFetchAdd (s : MutexState F T) (t : T) (f : F) (nest : List F) : MutexState F T :=
  let s' := { s with state := s.state + 1 }
  if s.state = 0 then (s'.setHolds f true).setThread t (.running f nest .user)
  else if s.state = 1 then s'.setThread t (.running f nest .pushTail)
  else s'.setThread t (.running f nest .backOff)

/-- The guard of `MutexAction.step`. -/
def stepEnabled (s : MutexState F T) (t : T) : Prop :=
  match s.thread t with
  | .running _ _ .user => False
  | .running _ _ (.unlock u) => s.unlockEnabled u
  | .running _ _ _ => True
  | .mutexSuspend _ _ => True
  | .condWait _ u => s.unlockEnabled u
  | _ => False

/-- The effect of `MutexAction.step`. -/
def stepNext (s : MutexState F T) (t : T) : MutexState F T :=
  match s.thread t with
  | .running f nest .fetchAdd => s.lockFetchAdd t f nest
  | .running f nest .backOff =>
    { s with state := s.state - 1 }.setThread t (.running f nest .fetchAdd)
  | .running f nest .pushTail =>
    { s with fiberWakeTail := s.fiberWakeTail.or (some f) }.setThread t
      (.running f nest .pushNext)
  | .running f nest .pushNext =>
    { s with nextWake := Function.update s.nextWake f s.fiberWakeHead }.setThread t
      (.running f nest .pushHead)
  | .running f nest .pushHead =>
    ({ s with fiberWakeHead := some f }.setPlace f .asleep).setThread t
      (.running f nest .switching)
  | .running f nest .switching => s.setThread t (.mutexSuspend f nest)
  | .running f nest (.unlock u) =>
    match s.unlockThen u with
    | some u' => (s.unlockEffect t u).setThread t (.running f nest (.unlock u'))
    | none => ((s.unlockEffect t u).setHolds f false).setThread t (.running f nest .user)
  | .mutexSuspend _ nest => { s with state := s.state - 1 }.setThread t (.wakeAll nest)
  | .condWait nest u =>
    match s.unlockThen u with
    | some u' => (s.unlockEffect t u).setThread t (.condWait nest u')
    | none => (s.unlockEffect t u).setThread t (.wakeAll nest)
  | _ => s

def enabled (s : MutexState F T) : MutexAction F T → Prop
  | .wake t f => s.thread t = .idle ∧ s.place f = .parked
  | .start t f =>
    match s.thread t with
    | .running _ _ .user => s.place f = .parked
    | _ => False
  | .resume t =>
    match s.thread t with
    | .wakeAll _ => (s.wakeHead t).isSome
    | _ => False
  | .return_ t =>
    match s.thread t with
    | .wakeAll _ => s.wakeHead t = none
    | _ => False
  | .suspend t | .lock t =>
    match s.thread t with
    | .running _ _ .user => True
    | _ => False
  | .unlock t | .condWait t =>
    match s.thread t with
    | .running f _ .user => s.holds f = true
    | _ => False
  | .step t => s.stepEnabled t

def next (s : MutexState F T) : MutexAction F T → MutexState F T
  | .wake t f => (s.pushWakeHead t f).setThread t (.wakeAll [])
  | .start t f =>
    match s.thread t with
    | .running g nest _ => (s.pushWakeHead t f).setThread t (.wakeAll (g :: nest))
    | _ => s
  | .resume t =>
    match s.thread t, s.wakeHead t with
    | .wakeAll nest, some f =>
      -- a fiber woken by `wake_sleepers` goes on inside `lock`
      let at_ : FiberStep := if s.place f = .toBeResumed t true then .fetchAdd else .user
      ({ s with wakeHead := Function.update s.wakeHead t (s.nextWake f) }.setPlace f
        (.running t)).setThread t (.running f nest at_)
    | _, _ => s
  | .return_ t =>
    match s.thread t with
    | .wakeAll [] => s.setThread t .idle
    | .wakeAll (g :: nest) => s.setThread t (.running g nest .user)
    | _ => s
  | .suspend t =>
    match s.thread t with
    | .running f nest _ => (s.setPlace f .parked).setThread t (.wakeAll nest)
    | _ => s
  | .lock t =>
    match s.thread t with
    | .running f nest _ => s.setThread t (.running f nest .fetchAdd)
    | _ => s
  | .unlock t =>
    match s.thread t with
    | .running f nest _ => s.setThread t (.running f nest (.unlock .grab))
    | _ => s
  | .condWait t =>
    match s.thread t with
    | .running f nest _ =>
      ((s.setHolds f false).setPlace f .parked).setThread t (.condWait nest .grab)
    | _ => s
  | .step t => s.stepNext t

instance (s : MutexState F T) : (u : UnlockStep) → Decidable (s.unlockEnabled u)
  | .grab => inferInstanceAs (Decidable (s.state = 1))
  | .release => inferInstanceAs (Decidable (s.state = 2))
  | .test | .spliceTail | .spliceHead | .clearHead | .clearTail => inferInstanceAs (Decidable True)

instance (s : MutexState F T) (t : T) : Decidable (s.stepEnabled t) := by
  unfold stepEnabled
  split <;> infer_instance

instance (s : MutexState F T) (a : MutexAction F T) : Decidable (s.enabled a) := by
  cases a <;> simp only [enabled] <;> (try split) <;> infer_instance

end MutexState

/-- A fresh mutex (`state_(0), fiber_wake_head_(0), fiber_wake_tail_(0)`), all threads in their
epoll loops and no fiber started. -/
def mutexMachine (F T : Type) [DecidableEq F] [DecidableEq T] :
    Machine (MutexState F T) (MutexAction F T) where
  init :=
    { state := 0
      fiberWakeHead := none
      fiberWakeTail := none
      nextWake := fun _ => none
      wakeHead := fun _ => none
      thread := fun _ => .idle
      place := fun _ => .parked
      holds := fun _ => false }
  enabled := MutexState.enabled
  next := MutexState.next

instance (s : MutexState F T) (a : MutexAction F T) :
    Decidable ((mutexMachine F T).enabled s a) :=
  inferInstanceAs (Decidable (s.enabled a))

/-! ## The parties of the mutex -/

/-- A party that can be between a returned `lock` and the end of the matching `unlock`: a fiber,
or the parent context of a thread that unlocks on behalf of a fiber. -/
inductive Owner (F T : Type)
  | fiber (f : F)
  | parent (t : T)

/-- The party is between a returned `lock` and the end of its `unlock`. -/
def MutexState.owns (s : MutexState F T) : Owner F T → Prop
  | .fiber f => s.holds f = true
  | .parent t => ∃ nest u, s.thread t = .condWait nest u

/-- The step of `unlock` reads or writes the wake list. -/
def UnlockStep.usesList : UnlockStep → Prop
  | .grab | .release => False
  | .test | .spliceTail | .spliceHead | .clearHead | .clearTail => True

/-- The thread is about to read or write the wake list. -/
def MutexState.usesList (s : MutexState F T) (t : T) : Prop :=
  match s.thread t with
  | .running _ _ .pushTail | .running _ _ .pushNext | .running _ _ .pushHead => True
  | .running _ _ (.unlock u) | .condWait _ u => u.usesList
  | _ => False

end Anon.Fiber
