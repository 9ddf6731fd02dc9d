import Anon.Fiber.NetPipes

/-!
# Timeouts of pipes

`sleep_until_data_available`, `sleep_until_write_possible`, the resumption of a fiber by an event,
and the two phases of `sweep_timed_out_pipes`, as far as they have to do with the pipes. The first
phase runs while all io threads are paused, and the second one when all events that had been
returned by `epoll_wait` are processed.

* `FiberPipe`: a pipe, and what epoll knows of its file descriptor.
* `SweepState.resume`: what a fiber does when it comes back from its parent.
* `SweepState.detachAll`: the loop of the first phase.
* `sweepMachine`: any interleaving of fibers, events and sweeps.
* `Careful`, `Orderly`: a condition on the steps of a run, and what sweeps are to do.
-/

namespace Anon.Fiber.PipeSweep

open NetPipes (addSeconds)

/-- `forever` -/
def forever : Timespec := ⟨2 ^ 63 - 1, 1000000000 - 1⟩

/-- Where a fiber is. -/
inductive FiberPlace (P : Type)
  | running
  /-- Has switched to its parent, which is about to call `epoll_ctl`. -/
  | switched (pipe : P)
  | suspended (pipe : P)
  deriving DecidableEq

variable {P F : Type}

/-- The pipe that a fiber sleeps on. -/
def FiberPlace.pipe : FiberPlace P → Option P
  | running => none
  | switched p => some p
  | suspended p => some p

structure FiberPipe (F : Type) where
  ioFiber : Option F
  maxIoBlockTime : ℤ
  ioTimeout : Timespec
  attached : Bool
  hibernating : Bool
  /-- The file descriptor is in the interest list of epoll. -/
  registered : Bool
  /-- It is, and no event has been returned since `epoll_ctl`. -/
  armed : Bool
  /-- A thread has an event that it has not processed. -/
  event : Bool

/-- What the constructor makes. -/
def FiberPipe.new : FiberPipe F := ⟨none, 0, forever, false, false, false, false, false⟩

/-- A sweep, named by a number of its own. -/
structure Sweep where
  id : ℕ
  ct : Timespec
  orhibernating : Bool
  deriving DecidableEq

/-- The test of both phases. -/
def FiberPipe.due (pipe : FiberPipe F) (sweep : Sweep) : Bool :=
  pipe.ioTimeout < sweep.ct || (sweep.orhibernating && pipe.hibernating)

/-- How a fiber was resumed. -/
inductive Cause
  | io
  | timeout
  deriving DecidableEq

/-- A record of a resumption. -/
structure Resumption (F : Type) where
  fiber : F
  /-- The suspension of the fiber that it ends. -/
  suspension : ℕ
  cause : Cause
  /-- The fiber was suspended on the pipe with the event, or on a pipe that was past its deadline
  or, in a hibernation sweep, hibernating. -/
  rightly : Bool

/-- A record of an `EPOLL_CTL_DEL` of a first phase. -/
structure Detachment (P F : Type) where
  sweep : ℕ
  pipe : P
  /-- Epoll knew the file descriptor. -/
  attached : Bool
  /-- The fibers that are suspended on the pipe, with the number of the suspension. -/
  suspended : F → Option ℕ
  /-- A thread had an event for the pipe. -/
  event : Bool

/-- What resumes the fibers: an event that is on its way is processed before the second phase. -/
def Detachment.cause (d : Detachment P F) : Cause := if d.event then .io else .timeout

structure SweepState (P F : Type) where
  /-- The pipes that exist. -/
  alive : P → Bool
  pipe : P → FiberPipe F
  /-- The list that begins with `first_`. -/
  list : List P
  timeoutPipe : F → Option P
  place : F → FiberPlace P
  /-- The sweeps whose second phase is still to run. -/
  sweeps : List Sweep
  /-- What second phases have put on their lists `timed_out` and have not resumed. -/
  timedOut : List (P × Sweep)
  /-- The number of the next sweep. -/
  nextSweep : ℕ
  /-- How often a fiber has been suspended. -/
  suspensions : F → ℕ
  resumptions : List (Resumption F)
  detachments : List (Detachment P F)

inductive SweepAction (P F : Type)
  | construct (p : P)
  | destroy (p : P)
  | limitIoBlockTime (p : P) (seconds : ℤ)
  | setHibernating (p : P) (hibernating : Bool)
  /-- `sleep_until_data_available` or `sleep_until_write_possible`, up to the switch. -/
  | sleepUntil (f : F) (p : P) (now : Timespec)
  /-- The parent calls `epoll_ctl` for a fiber. -/
  | epollCtl (f : F)
  /-- A call of `epoll_wait` returns an event. -/
  | epollWait (p : P)
  /-- The event is processed. -/
  | ioAvail (p : P)
  | firstPhase (ct : Timespec) (orhibernating : Bool)
  /-- The second phase, up to the first fiber that it resumes. -/
  | secondPhase (sweep : Sweep)
  /-- A second phase resumes the fiber of a pipe on its list. -/
  | timeOut (p : P) (sweep : Sweep)

variable [DecidableEq P] [DecidableEq F]

namespace SweepState

variable (s : SweepState P F)

def setPipe (p : P) (pipe : FiberPipe F) : SweepState P F :=
  { s with pipe := Function.update s.pipe p pipe }

/-- `wake_all` of a fiber, from the parent's switch to the end of `sleep_until_data_available` or
`sleep_until_write_possible`. -/
def resume (f : F) (cause : Cause) (rightly : Bool) : SweepState P F :=
  let s := { s with resumptions := ⟨f, s.suspensions f, cause, rightly⟩ :: s.resumptions }
  match (s.place f).pipe with
  | some p =>
    { s.setPipe p { s.pipe p with ioFiber := none, ioTimeout := forever } with
      place := Function.update s.place f .running
      timeoutPipe := Function.update s.timeoutPipe f none }
  | none => s

/-- The parent's part of a suspension; `EPOLL_CTL_ADD` fails for a file descriptor that epoll knows,
and `EPOLL_CTL_MOD` for one that it does not know. -/
def attach (p : P) : SweepState P F :=
  let pipe := s.pipe p
  let arms : Bool := pipe.registered = pipe.attached
  s.setPipe p { pipe with
    attached := true
    registered := pipe.registered || arms
    armed := pipe.armed || arms }

/-- The record of an `EPOLL_CTL_DEL`. -/
def detachment (sweep : Sweep) (p : P) : Detachment P F where
  sweep := sweep.id
  pipe := p
  attached := (s.pipe p).registered
  suspended f := if s.place f = .suspended p then some (s.suspensions f) else none
  event := (s.pipe p).event

/-- `EPOLL_CTL_DEL`, where epoll knows the file descriptor, and `attached_ = false`. -/
def detach (sweep : Sweep) (p : P) : SweepState P F :=
  { s.setPipe p { s.pipe p with attached := false, registered := false, armed := false } with
    detachments := s.detachment sweep p :: s.detachments }

/-- The loop of the first phase, which ends with an exception where `EPOLL_CTL_DEL` fails. -/
def detachAll (sweep : Sweep) : List P → SweepState P F → SweepState P F × Bool
  | [], s => (s, true)
  | p :: pipes, s =>
    if (s.pipe p).due sweep then
      if (s.pipe p).registered then detachAll sweep pipes (s.detach sweep p)
      else ({ s with detachments := s.detachment sweep p :: s.detachments }, false)
    else detachAll sweep pipes s

/-- The test of the second phase. -/
def expires (sweep : Sweep) (p : P) : Bool :=
  (s.pipe p).due sweep && !(s.pipe p).attached &&
    match (s.pipe p).ioFiber with
    | some f => s.timeoutPipe f = some p
    | none => false

def enabled : SweepAction P F → Prop
  | .construct p => s.alive p = false
  | .destroy p | .limitIoBlockTime p _ | .setHibernating p _ => s.alive p = true
  | .sleepUntil f p _ => s.place f = .running ∧ s.alive p = true
  | .epollCtl f =>
    match s.place f with
    | .switched _ => True
    | _ => False
  | .epollWait p => (s.pipe p).armed = true
  | .ioAvail p => (s.pipe p).event = true
  | .firstPhase _ _ => ∀ f p, s.place f ≠ .switched p
  | .secondPhase sweep =>
    sweep ∈ s.sweeps ∧ (∀ f p, s.place f ≠ .switched p) ∧ ∀ p, (s.pipe p).event = false
  | .timeOut p sweep => (p, sweep) ∈ s.timedOut

def next : SweepAction P F → SweepState P F
  | .construct p =>
    { s.setPipe p .new with alive := Function.update s.alive p true, list := p :: s.list }
  | .destroy p =>
    { s.setPipe p { s.pipe p with registered := false, armed := false } with
      alive := Function.update s.alive p false
      list := s.list.erase p }
  | .limitIoBlockTime p seconds => s.setPipe p { s.pipe p with maxIoBlockTime := seconds }
  | .setHibernating p hibernating => s.setPipe p { s.pipe p with hibernating := hibernating }
  | .sleepUntil f p now =>
    let pipe := s.pipe p
    { s.setPipe p { pipe with
        ioFiber := some f
        ioTimeout :=
          if 0 < pipe.maxIoBlockTime then addSeconds now pipe.maxIoBlockTime
          else pipe.ioTimeout } with
      timeoutPipe := Function.update s.timeoutPipe f (some p)
      place := Function.update s.place f (.switched p)
      suspensions := Function.update s.suspensions f (s.suspensions f + 1) }
  | .epollCtl f =>
    match s.place f with
    | .switched p => { s.attach p with place := Function.update s.place f (.suspended p) }
    | _ => s
  | .epollWait p => s.setPipe p { s.pipe p with armed := false, event := true }
  | .ioAvail p =>
    let s := s.setPipe p { s.pipe p with event := false }
    match (s.pipe p).ioFiber with
    | some f => s.resume f .io (s.place f = .suspended p)
    | none => s
  | .firstPhase ct orhibernating =>
    let sweep := ⟨s.nextSweep, ct, orhibernating⟩
    let s := { s with nextSweep := s.nextSweep + 1 }
    match detachAll sweep s.list s with
    | (s, true) => { s with sweeps := sweep :: s.sweeps }
    | (s, false) => s
  | .secondPhase sweep =>
    { s with
      sweeps := s.sweeps.erase sweep
      list := s.list.filter fun p => !s.expires sweep p
      timedOut := (s.list.filter fun p => s.expires sweep p).map (·, sweep) ++ s.timedOut }
  | .timeOut p sweep =>
    let s := { s with timedOut := s.timedOut.erase (p, sweep) }
    match (s.pipe p).ioFiber with
    | some f =>
      s.resume f .timeout (s.place f = .suspended p && (s.pipe p).due sweep)
    | none => s

instance [Fintype P] [Fintype F] (x : SweepAction P F) : Decidable (s.enabled x) := by
  cases x <;> simp only [enabled] <;> (try split) <;> infer_instance

end SweepState

/-- There is no pipe, and every fiber is running. -/
def sweepMachine : Machine (SweepState P F) (SweepAction P F) where
  init :=
    { alive := fun _ => false
      pipe := fun _ => .new
      list := []
      timeoutPipe := fun _ => none
      place := fun _ => .running
      sweeps := []
      timedOut := []
      nextSweep := 0
      suspensions := fun _ => 0
      resumptions := []
      detachments := [] }
  enabled := SweepState.enabled
  next := SweepState.next

instance [Fintype P] [Fintype F] (s : SweepState P F) (x : SweepAction P F) :
    Decidable (sweepMachine.enabled s x) :=
  inferInstanceAs (Decidable (s.enabled x))

/-- The condition on the steps of a run.

Only one fiber at a time uses a pipe, which is not destroyed, and does not cease to be hibernating,
while the fiber sleeps on it. A first phase finds no pipe to detach that is not attached, which
`release` makes sure of and the first phase does not. -/
def Careful (s : SweepState P F) : SweepAction P F → Prop
  | .sleepUntil _ p _ => (s.pipe p).ioFiber = none
  | .destroy p => (s.pipe p).ioFiber = none
  | .setHibernating p hibernating => hibernating = true ∨ (s.pipe p).ioFiber = none
  | .firstPhase ct orhibernating =>
    ∀ p ∈ s.list, (s.pipe p).due ⟨s.nextSweep, ct, orhibernating⟩ = true →
      (s.pipe p).attached = true
  | _ => True

instance (s : SweepState P F) (x : SweepAction P F) : Decidable (Careful s x) := by
  cases x <;> simp only [Careful] <;> infer_instance

namespace SweepState

variable (s : SweepState P F)

/-- The suspension of the fiber has ended. -/
def Ended (f : F) (n : ℕ) (cause : Cause) : Prop :=
  ∃ r ∈ s.resumptions, r.fiber = f ∧ r.suspension = n ∧ r.cause = cause

/-- The second phase has run, and has no fiber of the pipe left to resume. -/
def Over (d : Detachment P F) : Prop :=
  (∀ sweep ∈ s.sweeps, sweep.id ≠ d.sweep) ∧ ∀ e ∈ s.timedOut, e.1 ≠ d.pipe

/-- What sweeps are to do, where `cause` says what resumes the fibers of a detached pipe. -/
structure Orderly (cause : Detachment P F → Cause) : Prop where
  attached : ∀ d ∈ s.detachments, d.attached = true
  /-- No suspension ends twice. -/
  once : (s.resumptions.map fun r => (r.fiber, r.suspension)).Nodup
  rightly : ∀ r ∈ s.resumptions, r.rightly = true
  resumed : ∀ d ∈ s.detachments, s.Over d → ∀ f n, d.suspended f = some n →
    s.Ended f n (cause d)

instance (f : F) (n : ℕ) (cause : Cause) : Decidable (s.Ended f n cause) :=
  inferInstanceAs (Decidable (∃ r ∈ s.resumptions, _))

instance (d : Detachment P F) : Decidable (s.Over d) :=
  inferInstanceAs (Decidable (_ ∧ _))

end SweepState

end Anon.Fiber.PipeSweep
