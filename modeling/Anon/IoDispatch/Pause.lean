import Anon.Lib.Counting
import Anon.Lib.Machine

/-!
# Pausing the io threads

`while_paused`, `while_paused2` and `on_each` of `io_dispatch`, the commands they send to the io
threads through the control pipe, and the loop of an io thread around them: its top, where it
settles the countdown of `while_paused2`, and `epoll_wait`.

The threads are the io threads (`io a = true`) and any others. An action is a stretch of code of
one thread up to the next point where it waits for a lock or a condition, or up to an access of
data that no lock protects; a thread that has locked `pause_com_mutex_` or `pause_outer_mutex_`
keeps it in `com` or `outer` from one action to the next. A thread waits on a condition with
`asleep := true` until it is notified; awake, it needs the lock to look at the state again.

A call that finds `pause_outer_mutex_` locked returns false and changes nothing, so it has no
action. Functions given to `while_paused` or `while_paused2` may throw; the ones given to `on_each`
return. The fields from `calls` on record what happened and are never read.
-/

namespace Anon.IoDispatch

inductive PauseKind
  | whilePaused
  | whilePaused2
  deriving DecidableEq

/-- Only `while_paused2` has to be called from an io thread. -/
def PauseKind.fromIo : PauseKind → Bool
  | .whilePaused => false
  | .whilePaused2 => true

/-- A command in the control pipe, with the call that wrote it. -/
inductive Command
  /-- `k_pause` -/
  | pause (p : ℕ)
  /-- `k_on_each` with its function object -/
  | onEach (c : ℕ)
  deriving DecidableEq

/-- What a thread is about to do. -/
inductive Pc
  /-- At the top of the loop in `epoll_loop`. -/
  | top
  /-- The countdown has reached zero: about to lock `pause_com_mutex_`. -/
  | atRestLock
  /-- Running the at-rest functions, of which `todo` are left. -/
  | atRest (todo : List ℕ)
  /-- In `epoll_wait`. -/
  | epoll
  /-- In an event's callback or a fiber; for a thread that is not an io thread, anywhere. -/
  | user
  /-- Has read `k_pause`: about to lock `pause_com_mutex_`. -/
  | pauseCmd (p : ℕ)
  /-- Paused: waits on `resume_cond_` with `pause_com_mutex_`. -/
  | resumeWait (p : ℕ) (asleep : Bool)
  /-- Has read `k_on_each`: about to lock `pause_outer_mutex_`. -/
  | eachCmd (c : ℕ)
  /-- Has executed the function: waits on `resume_cond_` with `pause_outer_mutex_`. -/
  | eachResumeWait (c : ℕ) (asleep : Bool)
  /-- Has locked `pause_outer_mutex_`: about to lock `pause_com_mutex_`. -/
  | locked (k : PauseKind) (p : ℕ)
  /-- Has `n` pause commands left to write. -/
  | writing (k : PauseKind) (p n : ℕ)
  /-- Waits on `pause_cond_` with `pause_com_mutex_`. -/
  | pauseWait (k : PauseKind) (p : ℕ) (asleep : Bool)
  /-- All io threads are paused: calling the function. -/
  | calling (k : PauseKind) (p : ℕ)
  /-- `while_paused2`: waits on `resume2_cond_` with `pause_com_mutex_`. -/
  | doneWait (p : ℕ) (asleep : Bool)
  /-- `on_each`: waits on `pause_cond_` with `pause_outer_mutex_`. -/
  | eachWait (c : ℕ) (asleep : Bool)
  deriving DecidableEq

namespace Pc

/-- `resume_cond_.notify_all()` -/
def notifyResume : Pc → Pc
  | resumeWait p _ => resumeWait p false
  | eachResumeWait c _ => eachResumeWait c false
  | pc => pc

/-- `resume2_cond_.notify_all()` -/
def notifyResume2 : Pc → Pc
  | doneWait p _ => doneWait p false
  | pc => pc

/-- The notification of `pause_cond_` reaches this thread. -/
def notifyPause : Pc → Pc
  | pauseWait k p _ => pauseWait k p false
  | eachWait c _ => eachWait c false
  | pc => pc

/-- The thread sleeps on `pause_cond_`. -/
def sleepsOnPause : Pc → Bool
  | pauseWait _ _ asleep => asleep
  | eachWait _ asleep => asleep
  | _ => false

/-- A wakeup without a notification. -/
def spurious : Pc → Option Pc
  | resumeWait p true => some (resumeWait p false)
  | eachResumeWait c true => some (eachResumeWait c false)
  | pauseWait k p true => some (pauseWait k p false)
  | doneWait p true => some (doneWait p false)
  | eachWait c true => some (eachWait c false)
  | _ => none

end Pc

structure PauseState (A : Type) where
  /-- The holder of `pause_outer_mutex_`. -/
  outer : Option A
  /-- The holder of `pause_com_mutex_`. -/
  com : Option A
  /-- `num_paused_threads_` -/
  numPaused : ℤ
  /-- `num_pause_done_threads_` -/
  numPauseDone : ℤ
  /-- `thread_countdown_` -/
  threadCountdown : ℤ
  /-- The commands written to `send_ctl_fd_` and not yet read. -/
  pipe : List Command
  /-- The control pipe is armed in epoll (it is registered with `EPOLLONESHOT`). -/
  armed : Bool
  /-- `at_rest_functions_`, each named by its registration. -/
  atRestFunctions : List ℕ
  /-- `tls_iod_params.countdown_` of every thread -/
  countdown : A → ℤ
  pc : A → Pc
  /-- The number of calls that locked `pause_outer_mutex_`; names the next one. -/
  calls : ℕ
  /-- The number of functions called by `while_paused2`; names the next registration. -/
  registrations : ℕ
  /-- The registrations that left a function. -/
  registered : List ℕ
  /-- The at-rest functions that were run. -/
  ran : List ℕ
  /-- `registrations` when the thread last came to the top of its loop. -/
  topped : A → ℕ
  /-- The pauses whose function was called. -/
  called : List ℕ
  /-- The pauses that returned true. -/
  returned : List ℕ
  /-- The `on_each` calls that returned true. -/
  eachReturned : List ℕ
  /-- The executions of the functions of `on_each` calls. -/
  executed : List (ℕ × A)
  /-- The `on_each` calls that made a function object. -/
  objects : List ℕ
  /-- The `on_each` calls whose function object was deleted. -/
  freed : List ℕ

inductive PauseAction (A : Type)
  /-- `while_paused` or `while_paused2`: lock `pause_outer_mutex_`. -/
  | begin_ (k : PauseKind) (a : A)
  /-- Lock `pause_com_mutex_` and set `num_paused_threads_`. -/
  | lockCom (a : A)
  /-- Write a `k_pause` command. -/
  | write (a : A)
  /-- All commands are written: test `num_paused_threads_`. -/
  | test (a : A)
  /-- Call the function, resume the io threads and return or wait for them. -/
  | call (a : A) (throws : Bool)
  /-- A thread that was notified locks the mutex again and tests its condition. -/
  | wake (a : A)
  /-- A thread stops sleeping although nobody notified it. -/
  | spurious (a : A)
  /-- An io thread gets the control pipe from epoll and reads `k_pause`. -/
  | takePause (a : A)
  /-- It counts itself as paused; `w` is the thread that `notify_one` wakes, if any. -/
  | count (a : A) (w : Option A)
  /-- The top of the loop up to `ncd == 0`. -/
  | top (a : A)
  /-- Lock `pause_com_mutex_` for the at-rest functions. -/
  | lockAtRest (a : A)
  /-- Run the next at-rest function. -/
  | runAtRest (a : A)
  /-- Clear the at-rest functions and go on to `epoll_wait`. -/
  | endAtRest (a : A)
  /-- An io thread gets an event from epoll. -/
  | event (a : A)
  /-- The callback of the event returns. -/
  | finish (a : A)
  /-- `on_each`: lock `pause_outer_mutex_`, write the command and start to wait. -/
  | beginEach (a : A)
  /-- An io thread gets the control pipe from epoll and reads `k_on_each`. -/
  | takeEach (a : A)
  /-- It executes the function and passes the command on; `w` as for `count`. -/
  | exec (a : A) (w : Option A)

variable {A : Type} [Fintype A] [DecidableEq A] (io : A → Bool)

/-- One for an io thread. -/
def ioWeight (b : Bool) : ℤ := if b then 1 else 0

/-- `num_threads_` -/
def numThreads : ℤ := count ioWeight io

/-- The value of `num_paused_threads_` that a pause starts with. -/
def own (k : PauseKind) (a : A) : ℤ :=
  match k with
  | .whilePaused => ioWeight (io a)
  | .whilePaused2 => 1

namespace PauseState

@[simp] def setPc (s : PauseState A) (a : A) (pc : Pc) : PauseState A :=
  { s with pc := Function.update s.pc a pc }

@[simp] def mapPc (s : PauseState A) (f : Pc → Pc) : PauseState A :=
  { s with pc := fun b => f (s.pc b) }

/-- `notify_one` on `pause_cond_` wakes `w`. -/
def notifyOne (s : PauseState A) : Option A → PauseState A
  | none => s
  | some b => s.setPc b (s.pc b).notifyPause

/-- `notify_one` can choose `w`: a thread that sleeps on `pause_cond_` if there is one. -/
def canNotify (s : PauseState A) : Option A → Prop
  | none => ∀ b, (s.pc b).sleepsOnPause = false
  | some b => (s.pc b).sleepsOnPause = true

/-- A pause returns true. -/
@[simp] def return_ (s : PauseState A) (a : A) (p : ℕ) : PauseState A :=
  { s with returned := p :: s.returned }.setPc a .user

/-- The rest of `while_paused` after its function, or its unwinding if the function threw. -/
def endWhilePaused (s : PauseState A) (a : A) (p : ℕ) (throws : Bool) : PauseState A :=
  let s := { s with com := none, outer := none, called := p :: s.called }
  if throws then s.setPc a .user
  else ({ s with numPaused := 0 }.mapPc Pc.notifyResume).return_ a p

/-- `add_at_rest_fn(f())`, or the handler of the exception that `f` threw. -/
@[simp] def addAtRestFn (s : PauseState A) (throws : Bool) : PauseState A :=
  { s with
    atRestFunctions :=
      if throws then s.atRestFunctions else s.registrations :: s.atRestFunctions
    registered := if throws then s.registered else s.registrations :: s.registered
    registrations := s.registrations + 1 }

/-- The rest of `while_paused2` from its function up to its last wait. -/
def endWhilePaused2 (s : PauseState A) (a : A) (p : ℕ) (throws : Bool) : PauseState A :=
  let s := s.addAtRestFn throws
  let s := { s with
    called := p :: s.called
    threadCountdown := s.threadCountdown + numThreads io
    countdown := Function.update s.countdown a (s.countdown a + 1)
    numPaused := 0
    numPauseDone := 1
    com := none }
  let s := s.mapPc Pc.notifyResume
  if numThreads io = 1 then { s with outer := none }.return_ a p
  else s.setPc a (.doneWait p true)

/-- The rest of `on_each` once all io threads are counted. -/
def endEach (s : PauseState A) (a : A) (c : ℕ) : PauseState A :=
  ({ s with
    executed := if io a then (c, a) :: s.executed else s.executed
    numPaused := 0
    eachReturned := c :: s.eachReturned }.mapPc Pc.notifyResume).setPc a .user

/-- A thread that was notified and can lock its mutex tests its condition. -/
def wakeNext (s : PauseState A) (a : A) : PauseState A :=
  match s.pc a with
  | .resumeWait p _ =>
    if s.numPaused = 0 then
      let s := { s with
        numPauseDone := s.numPauseDone + 1
        countdown := Function.update s.countdown a (s.countdown a + 1) }.setPc a .top
      if s.numPauseDone = numThreads io then s.mapPc Pc.notifyResume2 else s
    else s.setPc a (.resumeWait p true)
  | .pauseWait k p _ =>
    if s.numPaused = numThreads io then { s with com := some a }.setPc a (.calling k p)
    else s.setPc a (.pauseWait k p true)
  | .doneWait p _ =>
    if s.numPauseDone = numThreads io then { s with outer := none }.return_ a p
    else s.setPc a (.doneWait p true)
  | .eachWait c _ =>
    if s.numPaused = numThreads io then s.endEach io a c else s.setPc a (.eachWait c true)
  | .eachResumeWait c _ =>
    if s.numPaused = 0 then s.setPc a .top else s.setPc a (.eachResumeWait c true)
  | _ => s

/-- The mutex that a thread locks again after its wait is free. -/
def wakeEnabled (s : PauseState A) (a : A) : Prop :=
  match s.pc a with
  | .resumeWait _ false | .pauseWait _ _ false | .doneWait _ false => s.com = none
  | .eachWait _ false | .eachResumeWait _ false => s.outer = none
  | _ => False

/-- The top of the loop: `ncd = thread_countdown_ -= cd` if there is a countdown. -/
def topNext (s : PauseState A) (a : A) : PauseState A :=
  let s := { s with topped := Function.update s.topped a s.registrations }
  if s.countdown a = 0 then s.setPc a .epoll
  else
    let ncd := s.threadCountdown - s.countdown a
    let s := { s with
      threadCountdown := ncd
      countdown := Function.update s.countdown a 0 }
    if ncd = 0 then s.setPc a .atRestLock else s.setPc a .epoll

/-- `on_each` up to its wait; without another io thread there is nothing to wait for. -/
def beginEachNext (s : PauseState A) (a : A) : PauseState A :=
  let c := s.calls
  let s := { s with calls := s.calls + 1, numPaused := ioWeight (io a) }
  if ioWeight (io a) < numThreads io then
    { s with pipe := s.pipe ++ [Command.onEach c], objects := c :: s.objects }.setPc a
      (.eachWait c true)
  else s.endEach io a c

/-- `++num_paused_threads_`, with the notification if it is the last one. -/
def countPaused (s : PauseState A) (w : Option A) : PauseState A :=
  let s := { s with numPaused := s.numPaused + 1 }
  if s.numPaused = numThreads io then s.notifyOne w else s

/-- The command of an `on_each` after its function was executed: pass it on, or delete the
function object and notify the caller. -/
def passOn (s : PauseState A) (c : ℕ) (w : Option A) : PauseState A :=
  let s := { s with numPaused := s.numPaused + 1 }
  if s.numPaused = numThreads io then { s with freed := c :: s.freed }.notifyOne w
  else { s with pipe := s.pipe ++ [Command.onEach c] }

def enabled (s : PauseState A) : PauseAction A → Prop
  | .begin_ k a =>
    s.pc a = .user ∧ s.outer = none ∧ (k.fromIo = true → io a = true)
  | .lockCom a =>
    match s.pc a with
    | .locked _ _ => s.com = none
    | _ => False
  | .write a =>
    match s.pc a with
    | .writing _ _ n => n ≠ 0
    | _ => False
  | .test a =>
    match s.pc a with
    | .writing _ _ n => n = 0
    | _ => False
  | .call a _ =>
    match s.pc a with
    | .calling _ _ => True
    | _ => False
  | .wake a => s.wakeEnabled a
  | .spurious a => (s.pc a).spurious.isSome
  | .takePause a =>
    match s.pipe with
    | .pause _ :: _ => s.pc a = .epoll ∧ s.armed = true
    | _ => False
  | .count a w =>
    match s.pc a with
    | .pauseCmd _ => s.com = none ∧ s.canNotify w
    | _ => False
  | .top a => s.pc a = .top
  | .lockAtRest a => s.pc a = .atRestLock ∧ s.com = none
  | .runAtRest a =>
    match s.pc a with
    | .atRest todo => todo ≠ []
    | _ => False
  | .endAtRest a => s.pc a = .atRest []
  | .event a => s.pc a = .epoll
  | .finish a => s.pc a = .user ∧ io a = true
  | .beginEach a => s.pc a = .user ∧ s.outer = none
  | .takeEach a =>
    match s.pipe with
    | .onEach _ :: _ => s.pc a = .epoll ∧ s.armed = true
    | _ => False
  | .exec a w =>
    match s.pc a with
    | .eachCmd _ => s.outer = none ∧ s.canNotify w
    | _ => False

def next (s : PauseState A) : PauseAction A → PauseState A
  | .begin_ k a =>
    { s with outer := some a, calls := s.calls + 1 }.setPc a (.locked k s.calls)
  | .lockCom a =>
    match s.pc a with
    | .locked k p =>
      { s with com := some a, numPaused := own io k a }.setPc a
        (.writing k p (numThreads io - own io k a).toNat)
    | _ => s
  | .write a =>
    match s.pc a with
    | .writing k p n =>
      { s with pipe := s.pipe ++ [Command.pause p] }.setPc a (.writing k p (n - 1))
    | _ => s
  | .test a =>
    match s.pc a with
    | .writing k p _ =>
      if s.numPaused = numThreads io then s.setPc a (.calling k p)
      else { s with com := none }.setPc a (.pauseWait k p true)
    | _ => s
  | .call a throws =>
    match s.pc a with
    | .calling .whilePaused p => s.endWhilePaused a p throws
    | .calling .whilePaused2 p => s.endWhilePaused2 io a p throws
    | _ => s
  | .wake a => s.wakeNext io a
  | .spurious a =>
    match (s.pc a).spurious with
    | some pc => s.setPc a pc
    | none => s
  | .takePause a =>
    match s.pipe with
    | .pause p :: rest => { s with pipe := rest, armed := false }.setPc a (.pauseCmd p)
    | _ => s
  | .count a w =>
    match s.pc a with
    | .pauseCmd p => ({ s with armed := true }.countPaused io w).setPc a (.resumeWait p true)
    | _ => s
  | .top a => s.topNext a
  | .lockAtRest a => { s with com := some a }.setPc a (.atRest s.atRestFunctions)
  | .runAtRest a =>
    match s.pc a with
    | .atRest (f :: todo) => { s with ran := f :: s.ran }.setPc a (.atRest todo)
    | _ => s
  | .endAtRest a => { s with atRestFunctions := [], com := none }.setPc a .epoll
  | .event a => s.setPc a .user
  | .finish a => s.setPc a .top
  | .beginEach a => s.beginEachNext io a
  | .takeEach a =>
    match s.pipe with
    | .onEach c :: rest => { s with pipe := rest, armed := false }.setPc a (.eachCmd c)
    | _ => s
  | .exec a w =>
    match s.pc a with
    | .eachCmd c =>
      ({ s with armed := true, executed := (c, a) :: s.executed }.passOn io c w).setPc a
        (.eachResumeWait c true)
    | _ => s

instance (s : PauseState A) (w : Option A) : Decidable (s.canNotify w) := by
  cases w <;> simp only [canNotify] <;> infer_instance

instance (s : PauseState A) (a : A) : Decidable (s.wakeEnabled a) := by
  unfold wakeEnabled
  split <;> infer_instance

instance (s : PauseState A) (x : PauseAction A) : Decidable (s.enabled io x) := by
  cases x <;> simp only [enabled] <;> (try split) <;> infer_instance

end PauseState

/-- All threads are where they are right after `io_dispatch::start`. -/
def pauseMachine : Machine (PauseState A) (PauseAction A) where
  init :=
    { outer := none
      com := none
      numPaused := 0
      numPauseDone := 0
      threadCountdown := 0
      pipe := []
      armed := true
      atRestFunctions := []
      countdown := fun _ => 0
      pc := fun a => if io a then .top else .user
      calls := 0
      registrations := 0
      registered := []
      ran := []
      topped := fun _ => 0
      called := []
      returned := []
      eachReturned := []
      executed := []
      objects := []
      freed := [] }
  enabled := PauseState.enabled io
  next := PauseState.next io

instance (s : PauseState A) (x : PauseAction A) : Decidable ((pauseMachine io).enabled s x) :=
  inferInstanceAs (Decidable (s.enabled io x))

end Anon.IoDispatch
