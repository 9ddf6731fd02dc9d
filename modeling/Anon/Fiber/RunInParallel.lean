import Anon.Fiber.WakeLists

/-!
# `fiber::run_in_parallel`

One call of `run_in_parallel`, with the fibers that run its functions. The counter, the message, the
mutex and the condition are locals of the caller; the workers have references to them. What the
fibers do with the mutex, the condition and their threads is a run of `wakeMachine`: the mutex is
`mtx`, which nobody else uses, and the condition is `cond`.

* `CallerPc`, `WorkerPc`: where the caller and the workers are in the text.
* `Parallel`: the locals, and a record of what the functions did.
* `parallelMachine`: any interleaving, among any other fibers.
-/

namespace Anon.Fiber.Wake

/-- What a function throws. -/
inductive Thrown
  /-- A `std::exception` with its `what()`. -/
  | std (what : String)
  | other
  deriving DecidableEq

/-- What the catch blocks record. -/
def Thrown.message : Thrown → String
  | .std what => what
  | .other => "unknown"

inductive Outcome
  | returned
  | threw (e : Thrown)
  deriving DecidableEq

/-- What the exception of `run_in_parallel` says. -/
def errorText (errorStr : String) : String := "run_in_parallel caught exception: " ++ errorStr

/-- Where the caller is. -/
inductive CallerPc
  | before
  /-- In the loop that starts the fibers. -/
  | starting
  /-- In the constructor of `l`, or in `cond.wait(l)`. -/
  | locking
  /-- Past the loop that waits: in the destructor of `l`, with what it throws. -/
  | leaving (error : Option String)
  | ended (error : Option String)
  deriving DecidableEq

/-- Where a worker is in its lambda. -/
inductive WorkerPc
  /-- Not past `fn()`. -/
  | running
  /-- In the constructor of the `l` of a catch block, with what it records. -/
  | catching (message : String)
  /-- In the destructor of that `l`. -/
  | caught
  /-- In the constructor of the last `l`. -/
  | locking
  /-- About to call `notify_all`. -/
  | notifying
  /-- About to destroy the last `l`. -/
  | notified
  /-- In the destructor of the last `l`, or past it. -/
  | completed
  deriving DecidableEq

/-- What a fiber is in the call. -/
inductive Role (n : ℕ)
  | other
  | caller
  | worker (i : Fin n)
  deriving DecidableEq

/-- The locals of the call, and what the functions did. -/
structure Parallel (F T M C : Type) (n : ℕ) where
  wake : WakeState F T M C
  role : F → Role n
  callerPc : CallerPc
  workerPc : Fin n → WorkerPc
  /-- How many fibers were started. -/
  started : ℕ
  numCompleted : ℕ
  errorStr : String
  hitError : Bool
  /-- What the functions that have ended did. -/
  outcome : Fin n → Option Outcome
  /-- Whose catch blocks have had the mutex, in this order, with their messages. -/
  catches : List (Fin n × String)

inductive ParallelAction (F T M C : Type)
  /-- A step that is not in the text of `run_in_parallel`. -/
  | wake (a : WakeAction F T M C)
  /-- The running fiber calls `run_in_parallel`. -/
  | call (t : T)
  /-- `run_in_fiber` of the next function, whose fiber will be `f`. -/
  | runInFiber (t : T) (f : F)
  /-- The loop that starts the fibers is done. -/
  | allStarted (t : T)
  /-- The test of `while (num_completed < num_fns)`, and what follows. -/
  | check (t : T)
  /-- The caller is out of the destructor of `l`. -/
  | leave (t : T) (error : Option String)
  /-- `fn()` ends. -/
  | fnEnds (t : T) (o : Outcome)
  /-- The body of a catch block. -/
  | record (t : T) (message : String)
  /-- The worker is out of the catch block. -/
  | endCatch (t : T)
  /-- `if (++num_completed == num_fns)` -/
  | complete (t : T)
  /-- `notify_all`, whose loop follows `k` links. -/
  | notify (t : T) (k : ℕ)
  /-- The end of the lambda. -/
  | endLambda (t : T)

variable {F T M C : Type} {n : ℕ}

def CallerPc.hasEnded : CallerPc → Bool
  | .ended _ => true
  | _ => false

namespace Parallel

/-- The fiber runs code that is not in the text of `run_in_parallel`: a function, what
`run_in_fiber` does, or what comes before or after. -/
def free (s : Parallel F T M C n) (f : F) : Prop :=
  match s.role f with
  | .other => True
  | .caller => s.callerPc = .starting ∨ s.callerPc.hasEnded = true
  | .worker i => s.workerPc i = .running ∨ s.workerPc i = .completed

/-- The thread is about to read or write a local of the call. -/
def touches (mtx : M) (s : Parallel F T M C n) (t : T) : Prop :=
  match s.wake.doing t with
  | .running f .user => ¬s.free f
  | .running _ at_ => at_.uses mtx
  | .handle _ op => op.uses mtx
  | _ => False

/-- The fiber may come to its end. -/
def mayExit (s : Parallel F T M C n) (f : F) : Prop :=
  match s.role f with
  | .other => True
  | .caller => s.callerPc.hasEnded = true
  | .worker i => s.workerPc i = .completed

variable [DecidableEq F] [DecidableEq T] [DecidableEq M] [DecidableEq C]

def setCaller (s : Parallel F T M C n) (pc : CallerPc) : Parallel F T M C n :=
  { s with callerPc := pc }

def setWorker (s : Parallel F T M C n) (i : Fin n) (pc : WorkerPc) : Parallel F T M C n :=
  { s with workerPc := Function.update s.workerPc i pc }

def setRole (s : Parallel F T M C n) (f : F) (r : Role n) : Parallel F T M C n :=
  { s with role := Function.update s.role f r }

/-- A step of the fibers and the threads. -/
def act (s : Parallel F T M C n) (a : WakeAction F T M C) : Parallel F T M C n :=
  { s with wake := s.wake.next a }

/-- What the fiber that runs on the thread, in the program's own code, is in the call. -/
def roleOn (s : Parallel F T M C n) (t : T) : Option (Role n) := (s.wake.runsUser t).map s.role

/-- The function whose worker runs on the thread. -/
def workerOn (s : Parallel F T M C n) (t : T) : Option (Fin n) :=
  match s.roleOn t with
  | some (.worker i) => some i
  | _ => none

/-- Code that is not in the text of `run_in_parallel` does anything without its mutex. -/
def wakeAllowed (mtx : M) (s : Parallel F T M C n) : WakeAction F T M C → Prop
  | .fire _ _ | .resume _ | .return_ _ | .step _ _ => True
  | .start t _ | .join t _ | .suspend t => ∀ f ∈ s.wake.runsUser t, s.free f
  | .exit t => ∀ f ∈ s.wake.runsUser t, s.mayExit f
  | .lock t m | .unlock t m | .wait t m _ | .notifyOne t m _ | .notifyAll t m _ _ =>
    m ≠ mtx ∧ ∀ f ∈ s.wake.runsUser t, s.free f

def enabled (mtx : M) (cond : C) (s : Parallel F T M C n) : ParallelAction F T M C → Prop
  | .wake a => s.wake.enabled a ∧ s.wakeAllowed mtx a
  | .call t => s.roleOn t = some .other ∧ s.callerPc = .before
  | .runInFiber t f => s.roleOn t = some .caller ∧ s.callerPc = .starting ∧ s.started < n ∧
      s.role f = .other ∧ s.wake.life f = .unstarted
  | .allStarted t => s.roleOn t = some .caller ∧ s.callerPc = .starting ∧ s.started = n
  | .check t => s.roleOn t = some .caller ∧ s.callerPc = .locking
  | .leave t error => s.roleOn t = some .caller ∧ s.callerPc = .leaving error
  | .fnEnds t _ => (s.workerOn t).map s.workerPc = some .running
  | .record t message => (s.workerOn t).map s.workerPc = some (.catching message)
  | .endCatch t => (s.workerOn t).map s.workerPc = some .caught
  | .complete t => (s.workerOn t).map s.workerPc = some .locking
  | .notify t k => (s.workerOn t).map s.workerPc = some .notifying ∧
      s.wake.walks (.cond (.user mtx cond)) k
  | .endLambda t => (s.workerOn t).map s.workerPc = some .notified

/-- `run_in_fiber` of the next function. -/
def runInFiber (s : Parallel F T M C n) (f : F) : Parallel F T M C n :=
  if h : s.started < n then
    { s with started := s.started + 1 }.setRole f (.worker ⟨s.started, h⟩)
  else s

/-- The test of the loop that waits. -/
def check (mtx : M) (cond : C) (s : Parallel F T M C n) (t : T) : Parallel F T M C n :=
  if s.numCompleted < n then s.act (.wait t mtx cond)
  else
    (s.setCaller (.leaving (if s.hitError then some (errorText s.errorStr) else none))).act
      (.unlock t mtx)

/-- What a worker does after `fn()`. -/
def fnEnds (mtx : M) (s : Parallel F T M C n) (t : T) (i : Fin n) (o : Outcome) :
    Parallel F T M C n :=
  let pc : WorkerPc :=
    match o with
    | .returned => .locking
    | .threw e => .catching e.message
  ({ s with outcome := Function.update s.outcome i (some o) }.setWorker i pc).act (.lock t mtx)

/-- The body of a catch block. -/
def record (mtx : M) (s : Parallel F T M C n) (t : T) (i : Fin n) (message : String) :
    Parallel F T M C n :=
  let s' := { s with
    errorStr := if s.hitError then s.errorStr else message
    hitError := true
    catches := s.catches ++ [(i, message)] }
  (s'.setWorker i .caught).act (.unlock t mtx)

/-- `if (++num_completed == num_fns)` -/
def complete (mtx : M) (s : Parallel F T M C n) (t : T) (i : Fin n) : Parallel F T M C n :=
  let s' := { s with numCompleted := s.numCompleted + 1 }
  if s'.numCompleted = n then s'.setWorker i .notifying
  else (s'.setWorker i .completed).act (.unlock t mtx)

/-- A step of the worker that runs on the thread. -/
def onWorker (s : Parallel F T M C n) (t : T) (step : Fin n → Parallel F T M C n) :
    Parallel F T M C n :=
  match s.workerOn t with
  | some i => step i
  | none => s

def next (mtx : M) (cond : C) (s : Parallel F T M C n) :
    ParallelAction F T M C → Parallel F T M C n
  | .wake a => s.act a
  | .call t =>
    match s.wake.runsUser t with
    | some f => (s.setRole f .caller).setCaller .starting
    | none => s
  | .runInFiber _ f => s.runInFiber f
  | .allStarted t => (s.setCaller .locking).act (.lock t mtx)
  | .check t => s.check mtx cond t
  | .leave _ error => s.setCaller (.ended error)
  | .fnEnds t o => s.onWorker t fun i => s.fnEnds mtx t i o
  | .record t message => s.onWorker t fun i => s.record mtx t i message
  | .endCatch t => s.onWorker t fun i => (s.setWorker i .locking).act (.lock t mtx)
  | .complete t => s.onWorker t fun i => s.complete mtx t i
  | .notify t k => s.onWorker t fun i => (s.setWorker i .notified).act (.notifyAll t mtx cond k)
  | .endLambda t => s.onWorker t fun i => (s.setWorker i .completed).act (.unlock t mtx)

instance decidableFree (s : Parallel F T M C n) (f : F) : Decidable (s.free f) := by
  unfold free
  split <;> infer_instance

instance decidableMayExit (s : Parallel F T M C n) (f : F) : Decidable (s.mayExit f) := by
  unfold mayExit
  split <;> infer_instance

instance decidableWakeAllowed (mtx : M) (s : Parallel F T M C n) (a : WakeAction F T M C) :
    Decidable (s.wakeAllowed mtx a) :=
  match a with
  | .fire _ _ | .resume _ | .return_ _ | .step _ _ => inferInstanceAs (Decidable True)
  | .start t _ | .join t _ | .suspend t =>
    inferInstanceAs (Decidable (∀ f ∈ s.wake.runsUser t, s.free f))
  | .exit t => inferInstanceAs (Decidable (∀ f ∈ s.wake.runsUser t, s.mayExit f))
  | .lock t m | .unlock t m | .wait t m _ | .notifyOne t m _ | .notifyAll t m _ _ =>
    inferInstanceAs (Decidable (m ≠ mtx ∧ ∀ f ∈ s.wake.runsUser t, s.free f))

instance decidableEnabled (mtx : M) (cond : C) (s : Parallel F T M C n)
    (a : ParallelAction F T M C) : Decidable (s.enabled mtx cond a) := by
  cases a <;> simp only [enabled] <;> infer_instance

end Parallel

/-- No fiber has been started, and `run_in_parallel` of `n` functions is still to be called. -/
def parallelMachine (F T M C : Type) (n : ℕ) [DecidableEq F] [DecidableEq T] [DecidableEq M]
    [DecidableEq C] (mtx : M) (cond : C) :
    Machine (Parallel F T M C n) (ParallelAction F T M C) where
  init :=
    { wake := (wakeMachine F T M C).init
      role := fun _ => .other
      callerPc := .before
      workerPc := fun _ => .running
      started := 0
      numCompleted := 0
      errorStr := ""
      hitError := false
      outcome := fun _ => none
      catches := [] }
  enabled := Parallel.enabled mtx cond
  next := Parallel.next mtx cond

instance decidableParallelEnabled [DecidableEq F] [DecidableEq T] [DecidableEq M] [DecidableEq C]
    (mtx : M) (cond : C) (s : Parallel F T M C n) (a : ParallelAction F T M C) :
    Decidable ((parallelMachine F T M C n mtx cond).enabled s a) :=
  inferInstanceAs (Decidable (s.enabled mtx cond a))

end Anon.Fiber.Wake
