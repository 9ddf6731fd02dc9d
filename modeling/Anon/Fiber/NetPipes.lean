import Anon.IoDispatch.PauseTheorems
import Anon.IoDispatch.Timer

/-!
# Network pipes and their sweep

The constructor and the destructor of a network `fiber_pipe`, `wait_for_zero_net_pipes`, and
`io_params::sweep_timed_out_pipes` as far as they have to do with `zero_net_pipes_mutex_`,
`num_net_pipes_` and `next_pipe_sweep_`. The pauses and the at-rest functions are those of the
machine of `io_dispatch`, one state of which is a part of the state here.

The mutex is its counter `state_` and its wake list, one action for each atomic operation. A fiber
that finds it locked leaves its thread; where no fiber runs, `sleep_till_woken` has none to put
to sleep, and the thread goes no further. The timer tasks that sweep are a collection without an
order: when they are executed is up to the run.
-/

namespace Anon.Fiber.NetPipes

open Anon.IoDispatch

/-- Who locks `zero_net_pipes_mutex_`. -/
inductive NetCall
  /-- The constructor of a network `fiber_pipe`. -/
  | construct
  /-- Its destructor. -/
  | destroy
  /-- `wait_for_zero_net_pipes` -/
  | waitForZero
  /-- A regular sweep, at the end of its at-rest function. -/
  | swept
  /-- A regular sweep whose `while_paused2` returned false. -/
  | refused
  deriving DecidableEq

/-- A fiber runs it. -/
def NetCall.inFiber : NetCall → Bool
  | construct | destroy | waitForZero => true
  | swept | refused => false

/-- What a thread is about to do with `zero_net_pipes_mutex_`. -/
inductive LockPc
  /-- Nothing. -/
  | out
  /-- `lock`: about to `fetch_add` 1. -/
  | lock (c : NetCall)
  /-- Found 2 or more: about to `fetch_add` -1 and to try again. -/
  | backOff (c : NetCall)
  /-- Found 1: in `sleep_till_woken`. -/
  | sleep (c : NetCall)
  /-- The fiber is on the wake list and has switched to its parent, which is about to
  `fetch_add` -1. -/
  | suspended (c : NetCall)
  /-- Has the mutex: about to look at the counters. -/
  | locked (c : NetCall)
  /-- Has scheduled a regular sweep: about to assign it to `next_pipe_sweep_`. -/
  | assign (c : NetCall) (task : ScheduledTask)
  /-- `unlock`: about to exchange 1 for 2. -/
  | unlock (c : NetCall)
  /-- About to move the wake list to the one of the thread. -/
  | wake (c : NetCall)
  /-- About to exchange 2 for 0. -/
  | release (c : NetCall)
  deriving DecidableEq

/-- Where a thread is in `sweep_timed_out_pipes(h)`. -/
inductive SweepPc
  | out
  /-- About to call `while_paused2`. -/
  | start (h : Bool)
  /-- In `while_paused2`, up to its function. -/
  | pausing (h : Bool)
  /-- In the at-rest function: resumes the fibers that have timed out. -/
  | waking (h : Bool)
  deriving DecidableEq

/-- A default `scheduled_task`. -/
def noTask : ScheduledTask := ⟨Timespec.zero, 0⟩

/-- `k_net_io_sweep_time` -/
def kNetIoSweepTime : ℤ := 2

/-- `operator+` of a point in time and seconds. -/
def addSeconds (spec : Timespec) (seconds : ℤ) : Timespec := { spec with sec := spec.sec + seconds }

structure NetState (A : Type) where
  /-- `io_dispatch` -/
  dispatch : PauseState A
  /-- `state_` of the mutex -/
  state : ℤ
  /-- The fibers on the wake list of the mutex. -/
  asleep : List NetCall
  /-- The fibers on the wake list of every thread that go on to lock the mutex. -/
  woken : A → List NetCall
  /-- The fibers that wait on `zero_net_pipes_cond_`. -/
  zeroWaiters : ℕ
  /-- `num_net_pipes_` -/
  numNetPipes : ℤ
  /-- `next_pipe_sweep_` -/
  nextPipeSweep : ScheduledTask
  /-- `next_id_`: how many `virt_caller`s have been made. -/
  callers : ℕ
  /-- The sweeps among the timer tasks, each with its `orhibernating`. -/
  tasks : List (ScheduledTask × Bool)
  /-- The at-rest functions of sweeps that have not been started, each by its registration. -/
  restFunctions : List (ℕ × Bool)
  sweep : A → SweepPc
  call : A → LockPc
  /-- The network pipes that are there to be destroyed. -/
  pipes : ℕ

inductive NetAction (A : Type)
  /-- A step of `io_dispatch`, and of the code that uses it, that no sweep has a part in. -/
  | io (x : PauseAction A)
  /-- A `virt_caller` is made for something else. -/
  | newCaller
  /-- A fiber constructs or destroys a network pipe, or calls `wait_for_zero_net_pipes`. -/
  | enter (a : A) (c : NetCall)
  /-- A fiber calls `sweep_hibernating_pipes`. -/
  | hibernate (a : A)
  /-- The timer's callback executes a sweep. -/
  | runTask (a : A) (e : ScheduledTask × Bool)
  /-- `while_paused2` locks `pause_outer_mutex_`. -/
  | pause (a : A)
  /-- `while_paused2` returns false. -/
  | refuse (a : A) (now : Timespec)
  /-- The function that `while_paused2` calls. -/
  | detach (a : A) (throws : Bool)
  /-- The next at-rest function starts, and is the one of a sweep. -/
  | expire (a : A) (h : Bool)
  /-- All fibers that have timed out have been resumed. -/
  | expired (a : A)
  /-- `state_.fetch_add(1)` -/
  | fetchAdd (a : A)
  /-- `state_.fetch_add(-1)` after finding 2 or more. -/
  | backOff (a : A)
  /-- The fiber puts itself on the wake list and switches to its parent. -/
  | sleep (a : A)
  /-- The parent's `fetch_add(-1)`. -/
  | handle (a : A)
  /-- What is done with the mutex, up to a `schedule_task` if there is one. -/
  | update (a : A) (now : Timespec)
  /-- The assignment to `next_pipe_sweep_`. -/
  | assign (a : A)
  | tryUnlock (a : A)
  | wakeSleepers (a : A)
  | release (a : A)
  /-- The thread switches to the next fiber on its wake list. -/
  | resume (a : A)

variable {A : Type} [Fintype A] [DecidableEq A] (io : A → Bool)

namespace NetState

@[simp] def setCall (s : NetState A) (a : A) (pc : LockPc) : NetState A :=
  { s with call := Function.update s.call a pc }

@[simp] def setSweep (s : NetState A) (a : A) (pc : SweepPc) : NetState A :=
  { s with sweep := Function.update s.sweep a pc }

/-- A fiber can run on the thread: in a callback, or resumed by a sweep. -/
def runsFiber (s : NetState A) (a : A) : Prop :=
  s.call a = .out ∧
    match s.sweep a with
    | .out => s.dispatch.pc a = .user ∧ io a = true
    | .waking _ => True
    | .start _ | .pausing _ => False

/-- The thread is in code that is modelled here and has to go on with it first. -/
def busy (s : NetState A) (a : A) : Bool :=
  s.call a ≠ .out ||
    match s.sweep a with
    | .start _ | .waking _ => true
    | .out | .pausing _ => false

/-- The step calls the function of a sweep. -/
def callsSweep (s : NetState A) : PauseAction A → Bool
  | .call a _ =>
    match s.sweep a with
    | .pausing _ => true
    | .out | .start _ | .waking _ => false
  | .runAtRest a =>
    match s.dispatch.pc a with
    | .atRest (f :: _) => f ∈ s.restFunctions.map Prod.fst
    | _ => false
  | _ => false

/-- The task that `schedule_task` makes at the time `now`. Its id is an `int`, named here by its
32 bits. -/
def newTask (s : NetState A) (now : Timespec) : ScheduledTask :=
  ⟨addSeconds now kNetIoSweepTime, s.callers % 2 ^ 32⟩

/-- `schedule_task` of a sweep. -/
@[simp] def scheduleSweep (s : NetState A) (now : Timespec) (orhibernating : Bool) : NetState A :=
  { s with callers := s.callers + 1, tasks := (s.newTask now, orhibernating) :: s.tasks }

/-- What is done with the mutex schedules a regular sweep. -/
def schedules (s : NetState A) : NetCall → Bool
  | .construct => s.numNetPipes + 1 = 1 ∧ s.nextPipeSweep.id = noTask.id
  | .swept | .refused => 0 < s.numNetPipes
  | .destroy | .waitForZero => false

/-- What is done with the mutex when no sweep is scheduled. -/
def account (s : NetState A) (a : A) : NetCall → NetState A
  | .construct => { s with numNetPipes := s.numNetPipes + 1 }
  | .destroy =>
    let s := { s with numNetPipes := s.numNetPipes - 1 }
    if s.numNetPipes = 0 then
      { s with
        zeroWaiters := 0
        woken := Function.update s.woken a
          (List.replicate s.zeroWaiters .waitForZero ++ s.woken a) }
    else s
  | .waitForZero => if s.numNetPipes = 0 then s else { s with zeroWaiters := s.zeroWaiters + 1 }
  | .swept => { s with nextPipeSweep := noTask }
  | .refused => s

/-- What is done with the mutex, up to a `schedule_task` if there is one. -/
def updateNext (s : NetState A) (a : A) (c : NetCall) (now : Timespec) : NetState A :=
  if s.schedules c then
    let task := s.newTask now
    match c with
    | .construct =>
      ({ s with numNetPipes := s.numNetPipes + 1 }.scheduleSweep now false).setCall a
        (.assign c task)
    | _ => (s.scheduleSweep now false).setCall a (.assign c task)
  else (s.account a c).setCall a (.unlock c)

def enabled (s : NetState A) : NetAction A → Prop
  | .io x => s.dispatch.enabled io x ∧ s.busy x.actor = false ∧ s.callsSweep x = false
  | .newCaller => True
  | .enter a c => s.runsFiber io a ∧ c.inFiber = true ∧ (c = NetCall.destroy → 0 < s.pipes)
  | .hibernate a => s.runsFiber io a ∧ s.sweep a = .out
  | .runTask a e => s.runsFiber io a ∧ s.sweep a = .out ∧ e ∈ s.tasks
  | .pause a =>
    match s.sweep a with
    | .start _ => s.dispatch.enabled io (.begin_ .whilePaused2 a)
    | _ => False
  | .refuse a _ =>
    match s.sweep a with
    | .start _ => s.dispatch.outer ≠ none
    | _ => False
  | .detach a throws =>
    match s.sweep a with
    | .pausing _ => s.dispatch.enabled io (.call a throws)
    | _ => False
  | .expire a h =>
    match s.dispatch.pc a with
    | .atRest (f :: _) => s.busy a = false ∧ (f, h) ∈ s.restFunctions
    | _ => False
  | .expired a =>
    match s.sweep a with
    | .waking _ => s.call a = .out
    | _ => False
  | .fetchAdd a =>
    match s.call a with
    | .lock _ => True
    | _ => False
  | .backOff a =>
    match s.call a with
    | .backOff _ => True
    | _ => False
  | .sleep a =>
    match s.call a with
    | .sleep c => c.inFiber = true
    | _ => False
  | .handle a =>
    match s.call a with
    | .suspended _ => True
    | _ => False
  | .update a _ =>
    match s.call a with
    | .locked _ => True
    | _ => False
  | .assign a =>
    match s.call a with
    | .assign _ _ => True
    | _ => False
  | .tryUnlock a =>
    match s.call a with
    | .unlock _ => s.state = 1
    | _ => False
  | .wakeSleepers a =>
    match s.call a with
    | .wake _ => True
    | _ => False
  | .release a =>
    match s.call a with
    | .release _ => s.state = 2
    | _ => False
  | .resume a => s.runsFiber io a ∧ s.woken a ≠ []

def next (s : NetState A) : NetAction A → NetState A
  | .io x => { s with dispatch := s.dispatch.next io x }
  | .newCaller => { s with callers := s.callers + 1 }
  | .enter a c =>
    { s with pipes := if c = NetCall.destroy then s.pipes - 1 else s.pipes }.setCall a (.lock c)
  | .hibernate a => s.setSweep a (.start true)
  | .runTask a e => { s with tasks := s.tasks.erase e }.setSweep a (.start e.2)
  | .pause a =>
    match s.sweep a with
    | .start h =>
      { s with dispatch := s.dispatch.next io (.begin_ .whilePaused2 a) }.setSweep a (.pausing h)
    | _ => s
  | .refuse a now =>
    match s.sweep a with
    | .start true => (s.scheduleSweep now true).setSweep a .out
    | .start false => (s.setSweep a .out).setCall a (.lock .refused)
    | _ => s
  | .detach a throws =>
    match s.sweep a with
    | .pausing h =>
      { s with
        dispatch := s.dispatch.next io (.call a throws)
        restFunctions :=
          if throws then s.restFunctions
          else (s.dispatch.registrations, h) :: s.restFunctions }.setSweep a .out
    | _ => s
  | .expire a h =>
    match s.dispatch.pc a with
    | .atRest (f :: _) =>
      { s with
        dispatch := s.dispatch.next io (.runAtRest a)
        restFunctions := s.restFunctions.erase (f, h) }.setSweep a (.waking h)
    | _ => s
  | .expired a =>
    match s.sweep a with
    | .waking true => s.setSweep a .out
    | .waking false => (s.setSweep a .out).setCall a (.lock .swept)
    | _ => s
  | .fetchAdd a =>
    match s.call a with
    | .lock c =>
      { s with state := s.state + 1 }.setCall a
        (if s.state = 0 then .locked c else if s.state = 1 then .sleep c else .backOff c)
    | _ => s
  | .backOff a =>
    match s.call a with
    | .backOff c => { s with state := s.state - 1 }.setCall a (.lock c)
    | _ => s
  | .sleep a =>
    match s.call a with
    | .sleep c => { s with asleep := c :: s.asleep }.setCall a (.suspended c)
    | _ => s
  | .handle a => { s with state := s.state - 1 }.setCall a .out
  | .update a now =>
    match s.call a with
    | .locked c => s.updateNext a c now
    | _ => s
  | .assign a =>
    match s.call a with
    | .assign c task => { s with nextPipeSweep := task }.setCall a (.unlock c)
    | _ => s
  | .tryUnlock a =>
    match s.call a with
    | .unlock c => { s with state := 2 }.setCall a (.wake c)
    | _ => s
  | .wakeSleepers a =>
    match s.call a with
    | .wake c =>
      { s with
        asleep := []
        woken := Function.update s.woken a (s.asleep ++ s.woken a) }.setCall a (.release c)
    | _ => s
  | .release a =>
    match s.call a with
    | .release c =>
      { s with
        state := 0
        pipes := if c = NetCall.construct then s.pipes + 1 else s.pipes }.setCall a .out
    | _ => s
  | .resume a =>
    match s.woken a with
    | c :: rest =>
      { s with woken := Function.update s.woken a rest }.setCall a (.lock c)
    | [] => s

instance (s : NetState A) (a : A) : Decidable (s.runsFiber io a) := by
  unfold runsFiber
  split <;> infer_instance

instance (s : NetState A) (x : NetAction A) : Decidable (s.enabled io x) := by
  cases x <;> simp only [enabled] <;> (try split) <;> infer_instance

end NetState

/-- There is no network pipe, and no sweep has been scheduled. -/
def netMachine : Machine (NetState A) (NetAction A) where
  init :=
    { dispatch := (pauseMachine io).init
      state := 0
      asleep := []
      woken := fun _ => []
      zeroWaiters := 0
      numNetPipes := 0
      nextPipeSweep := noTask
      callers := 0
      tasks := []
      restFunctions := []
      sweep := fun _ => .out
      call := fun _ => .out
      pipes := 0 }
  enabled := NetState.enabled io
  next := NetState.next io

instance (s : NetState A) (x : NetAction A) : Decidable ((netMachine io).enabled s x) :=
  inferInstanceAs (Decidable (s.enabled io x))

end Anon.Fiber.NetPipes
