import Anon.Lib.Counting
import Anon.Lib.Machine
import Anon.Lib.Multimap
import Anon.Timespec

/-!
# Timer tasks

`schedule_task_`, `remove_task` and the handler of the timer in `io_dispatch`. The tasks wait in
`task_map_`, which `task_mutex_` protects; the timer of the kernel is armed for one absolute
point in time, becomes readable when the clock has reached it, and stays readable until its file
descriptor is read or it is set again.

Any thread may schedule and remove tasks at any time, from within a task as well, and any thread
may be told that the timer is readable. An action is a stretch of code up to the next access to
something that another thread may change in between. The fields from `scheduled` on record what
happened and are never read.
-/

namespace Anon.IoDispatch

/-- What a thread is about to do. -/
inductive TimerPc
  /-- Anything but the code modelled here; the body of a task is a part of it. -/
  | user
  /-- `schedule_task_` has inserted a task: about to set the timer if the task comes first. -/
  | inserted (when_ : Timespec)
  /-- `epoll_wait` has reported the timer: about to read it. -/
  | timerEvent
  /-- Has read the timer: about to ask for the current time. -/
  | hasRead
  /-- About to lock `task_mutex_`. -/
  | hasNow (now : Timespec)
  /-- In the loop that takes the tasks that are due. -/
  | popping (now : Timespec)
  deriving DecidableEq

/-- A `scheduled_task`: what `remove_task` looks for. -/
structure ScheduledTask where
  when_ : Timespec
  id : ℕ
  deriving DecidableEq

structure TimerState (A : Type) where
  /-- The holder of `task_mutex_`. -/
  taskMutex : Option A
  /-- `task_map_`, with the ids of the tasks. -/
  taskMap : Multimap Timespec ℕ
  /-- The point in time the timer is armed for. -/
  armed : Option Timespec
  /-- The timer has expired since it was last read or set. -/
  readable : Bool
  clock : Timespec
  /-- `ready_tasks` of every thread, without the ones that have been executed. -/
  readyTasks : A → List ℕ
  pc : A → TimerPc
  /-- The ids of all tasks ever scheduled. -/
  scheduled : List ℕ
  /-- The tasks that were executed. -/
  executed : List ℕ
  /-- The tasks that `remove_task` returned true for. -/
  removed : List ℕ

inductive TimerAction (A : Type)
  /-- `schedule_task_`: lock `task_mutex_` and insert the task. -/
  | schedule (a : A) (id : ℕ) (when_ : Timespec)
  /-- Set the timer if the task comes first, and unlock. -/
  | arm (a : A)
  | remove (a : A) (task : ScheduledTask)
  /-- A thread learns from epoll that the timer is readable. -/
  | event (a : A)
  /-- It reads the timer; only the first of several threads gets something to read. -/
  | read (a : A)
  | takeNow (a : A)
  /-- Lock `task_mutex_`. -/
  | lockTasks (a : A)
  /-- Take the first task, which is due. -/
  | pop (a : A)
  /-- The first task is not due: set the timer for it, and unlock. -/
  | rearm (a : A)
  /-- Execute the next of the tasks that were taken. -/
  | exec (a : A)
  /-- The clock has reached the point in time the timer is armed for. -/
  | expire
  /-- Time passes. -/
  | tick (clock : Timespec)

/-- The loop of `remove_task`, from an iterator on: what is left if it erases an entry. -/
def removeFrom (task : ScheduledTask) : Multimap Timespec ℕ → Option (Multimap Timespec ℕ)
  | [] => none
  | e :: rest =>
    if e.2 = task.id then some rest
    else if e.1 = task.when_ then (removeFrom task rest).map (e :: ·)
    else none

/-- `remove_task` on `task_map_`: what is left if it erases an entry. -/
def removeTask (task : ScheduledTask) (m : Multimap Timespec ℕ) :
    Option (Multimap Timespec ℕ) :=
  (removeFrom task (m.find task.when_)).map (m.before task.when_ ++ ·)

namespace TimerState

variable {A : Type} [DecidableEq A]

@[simp] def setPc (s : TimerState A) (a : A) (pc : TimerPc) : TimerState A :=
  { s with pc := Function.update s.pc a pc }

/-- `timerfd_settime` with an absolute time: forgets an expiration that was not read, and a value
of zero disarms the timer. -/
def setTimer (s : TimerState A) (when_ : Timespec) : TimerState A :=
  { s with armed := if when_ = Timespec.zero then none else some when_, readable := false }

def enabled (s : TimerState A) : TimerAction A → Prop
  | .schedule a _ _ => s.pc a = .user ∧ s.taskMutex = none
  | .arm a =>
    match s.pc a with
    | .inserted _ => True
    | _ => False
  | .remove a _ => s.pc a = .user ∧ s.taskMutex = none
  | .event a => s.pc a = .user ∧ s.readyTasks a = [] ∧ s.readable = true
  | .read a => s.pc a = .timerEvent
  | .takeNow a => s.pc a = .hasRead
  | .lockTasks a =>
    match s.pc a with
    | .hasNow _ => s.taskMutex = none
    | _ => False
  | .pop a =>
    match s.pc a, s.taskMap with
    | .popping now, e :: _ => e.1 ≤ now
    | _, _ => False
  | .rearm a =>
    match s.pc a, s.taskMap with
    | .popping _, [] => True
    | .popping now, e :: _ => ¬e.1 ≤ now
    | _, _ => False
  | .exec a => s.pc a = .user ∧ s.readyTasks a ≠ []
  | .expire =>
    match s.armed with
    | some when_ => when_ ≤ s.clock
    | none => False
  | .tick clock => s.clock ≤ clock

/-- `schedule_task_` after the insertion. -/
def armNext (s : TimerState A) (a : A) (when_ : Timespec) : TimerState A :=
  let s' :=
    match s.taskMap with
    | e :: _ => if e.1 = when_ then s.setTimer when_ else s
    | [] => s
  { s' with taskMutex := none }.setPc a .user

/-- The handler after its loop. -/
def rearmNext (s : TimerState A) (a : A) : TimerState A :=
  let s' :=
    match s.taskMap with
    | e :: _ => s.setTimer e.1
    | [] => s
  { s' with taskMutex := none }.setPc a .user

def next (s : TimerState A) : TimerAction A → TimerState A
  | .schedule a id when_ =>
    { s with
      taskMutex := some a
      taskMap := s.taskMap.insert when_ id
      scheduled := id :: s.scheduled }.setPc a (.inserted when_)
  | .arm a =>
    match s.pc a with
    | .inserted when_ => s.armNext a when_
    | _ => s
  | .remove _ task =>
    match removeTask task s.taskMap with
    | some m => { s with taskMap := m, removed := task.id :: s.removed }
    | none => s
  | .event a => s.setPc a .timerEvent
  | .read a =>
    if s.readable then { s with readable := false }.setPc a .hasRead else s.setPc a .user
  | .takeNow a => s.setPc a (.hasNow s.clock)
  | .lockTasks a =>
    match s.pc a with
    | .hasNow now => { s with taskMutex := some a }.setPc a (.popping now)
    | _ => s
  | .pop a =>
    match s.taskMap with
    | e :: rest =>
      { s with
        taskMap := rest
        readyTasks := Function.update s.readyTasks a (s.readyTasks a ++ [e.2]) }
    | [] => s
  | .rearm a => s.rearmNext a
  | .exec a =>
    match s.readyTasks a with
    | id :: rest =>
      { s with
        readyTasks := Function.update s.readyTasks a rest
        executed := id :: s.executed }
    | [] => s
  | .expire => { s with armed := none, readable := true }
  | .tick clock => { s with clock := clock }

instance (s : TimerState A) (x : TimerAction A) : Decidable (s.enabled x) := by
  cases x <;> simp only [enabled] <;> (try split) <;> infer_instance

end TimerState

/-- The state right after `io_dispatch::start`. -/
def timerMachine (A : Type) [DecidableEq A] : Machine (TimerState A) (TimerAction A) where
  init :=
    { taskMutex := none
      taskMap := []
      armed := none
      readable := false
      clock := Timespec.zero
      readyTasks := fun _ => []
      pc := fun _ => .user
      scheduled := []
      executed := []
      removed := [] }
  enabled := TimerState.enabled
  next := TimerState.next

instance {A : Type} [DecidableEq A] (s : TimerState A) (x : TimerAction A) :
    Decidable ((timerMachine A).enabled s x) := inferInstanceAs (Decidable (s.enabled x))

end Anon.IoDispatch
