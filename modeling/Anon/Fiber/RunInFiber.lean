import Anon.BigEndian
import Anon.Lib.Exclusive
import Anon.Lib.Machine

/-!
# Functions that run in fibers

`fiber::run_in_fiber`, from the call to the exit of the fiber. A function that is not called on an
io thread itself is put into a `virt_caller`, and the pointer to it goes through a command pipe, as
nine bytes: threads write them to `send_ctl_fd_`, fibers to `on_one_pipe_`, one fiber at a time and
with as many writes as it takes. An `io_ctl_handler` reads them on the other side.

* `Channel`: the two pipes.
* `HandlerPhase`: a handler, which is armed again after it has read a whole command.
* `SpawnState`: callers, pipes, handlers, fibers, and the threads in `wait_for_zero_fibers`.
* `spawnMachine`: any interleaving of them.
* `Accounts`: what is expected.

The other commands of `send_ctl_fd_` are those of `while_paused` and `on_each`.
-/

namespace Anon.Fiber

/-- The bytes of a `virt_caller_ *`. -/
abbrev Pointer := Vector UInt8 8

/-- `io_dispatch::k_on_one` -/
def kOnOne : UInt8 := 3

/-- `on_one_command` -/
def onOneCommand (tc : Pointer) : Bytes := kOnOne :: tc.toList

/-- `k_oo_command_buf_size` -/
def ooCommandBufSize : ℕ := 9

/-- The command pipes. -/
inductive Channel
  | sendCtl
  | onOne
  deriving DecidableEq

inductive HandlerPhase
  | armed
  /-- The first byte is read, and it was `k_on_one`. -/
  | reading
  /-- It was no command: the handler is never armed again. -/
  | ignored
  deriving DecidableEq

/-- Where a `virt_caller` is. -/
inductive CommandPlace
  /-- A thread is about to write it. -/
  | sending
  /-- A fiber wants `on_one_mutex_`. -/
  | wanting
  /-- A fiber has `on_one_mutex_`. -/
  | writing
  /-- All of its bytes are written. -/
  | queued (ch : Channel)
  /-- An io thread has read it. -/
  | executing
  /-- The io thread is in `exec`, behind the start of the fiber. -/
  | started
  deriving DecidableEq

/-- Where a function is that a fiber runs. -/
inductive FunctionPlace
  | running
  /-- The fiber has switched to its parent for the last time. -/
  | exiting
  | done
  deriving DecidableEq

/-- A thread in `wait_for_zero_fibers`. -/
inductive WaitPhase
  | outside
  | asleep
  | woken
  deriving DecidableEq

structure SpawnState where
  /-- `num_running_fibers_` -/
  numRunningFibers : ℤ
  /-- The functions in the live objects. -/
  caller : Pointer → Option ℕ
  commands : CommandPlace → List Pointer
  functions : FunctionPlace → List ℕ
  /-- `total_bytes_written` of the fiber that has `on_one_mutex_`. -/
  totalBytesWritten : ℕ
  /-- The bytes in a pipe. -/
  stream : Channel → Bytes
  handler : Channel → HandlerPhase
  waiter : ℕ → WaitPhase
  /-- How many calls were counted. -/
  made : ℕ
  /-- The functions that were started, the last one first. -/
  starts : List ℕ
  /-- For each return of `wait_for_zero_fibers`, how many calls had been counted. -/
  returns : List ℕ
  /-- A `write` has taken only a part of a command. -/
  cut : Bool
  /-- A handler has read less than a pointer, and `do_error` has thrown. -/
  failed : Bool
  /-- A pointer was used that points to no object. -/
  dangling : Bool

inductive SpawnAction
  /-- `run_in_fiber`, up to the write; `new` has returned `tc`. -/
  | runInFiber (fromFiber : Bool) (tc : Pointer)
  /-- `run_in_fiber` on an io thread outside of a fiber, or the constructor. -/
  | construct
  /-- A thread writes its command. -/
  | send (tc : Pointer)
  /-- A fiber locks `on_one_mutex_`. -/
  | lock (tc : Pointer)
  /-- `write` of the fiber has returned `n`. -/
  | write (n : ℕ)
  /-- A handler reads the first byte of a command. -/
  | ioAvail (ch : Channel)
  /-- It reads the pointer, and is armed. -/
  | readCaller (ch : Channel)
  /-- `exec`, up to the start of the fiber. -/
  | exec (tc : Pointer)
  | delete (tc : Pointer)
  /-- The function returns or throws, and the fiber stops. -/
  | stopFiber (id : ℕ)
  /-- `oc_exit_fiber` -/
  | exitFiber (id : ℕ)
  /-- `wait_for_zero_fibers`, up to its first sleep. -/
  | waitForZeroFibers (w : ℕ)
  /-- A thread wakes up, with or without a notification. -/
  | wake (w : ℕ)

namespace SpawnState

variable (s : SpawnState)

/-- The object goes to another place. -/
def moveCommand (tc : Pointer) (a b : CommandPlace) : SpawnState :=
  { s with commands := transfer s.commands tc a b }

/-- The function goes to another place. -/
def moveFunction (id : ℕ) (a b : FunctionPlace) : SpawnState :=
  { s with functions := transfer s.functions id a b }

/-- A fiber starts to run a function. -/
def start (id : ℕ) : SpawnState :=
  { s with
    functions := Function.update s.functions .running (s.functions .running ++ [id])
    starts := id :: s.starts }

/-- Bytes come to the end of a pipe. -/
def push (ch : Channel) (bytes : Bytes) : SpawnState :=
  { s with stream := Function.update s.stream ch (s.stream ch ++ bytes) }

/-- The test in the loop of `wait_for_zero_fibers`. -/
def testZero (w : ℕ) : SpawnState :=
  if s.numRunningFibers ≠ 0 then { s with waiter := Function.update s.waiter w .asleep }
  else
    { s with waiter := Function.update s.waiter w .outside, returns := s.made :: s.returns }

def enabled (x : SpawnAction) : Prop :=
  s.failed = false ∧
    match x with
    | .runInFiber _ tc => s.caller tc = none
    | .construct => True
    | .send tc => tc ∈ s.commands .sending
    | .lock tc => tc ∈ s.commands .wanting ∧ s.commands .writing = []
    | .write n => s.commands .writing ≠ [] ∧ 0 < n ∧ s.totalBytesWritten + n ≤ ooCommandBufSize
    | .ioAvail ch => s.handler ch = .armed ∧ s.stream ch ≠ []
    | .readCaller ch => s.handler ch = .reading
    | .exec tc => tc ∈ s.commands .executing
    | .delete tc => tc ∈ s.commands .started
    | .stopFiber id => id ∈ s.functions .running
    | .exitFiber id => id ∈ s.functions .exiting
    | .waitForZeroFibers w => s.waiter w = .outside
    | .wake w => s.waiter w ≠ .outside

def next : SpawnAction → SpawnState
  | .runInFiber fromFiber tc =>
    let place := if fromFiber then .wanting else .sending
    { s with
      numRunningFibers := s.numRunningFibers + 1
      made := s.made + 1
      caller := Function.update s.caller tc (some s.made)
      commands := Function.update s.commands place (s.commands place ++ [tc]) }
  | .construct =>
    { s.start s.made with numRunningFibers := s.numRunningFibers + 1, made := s.made + 1 }
  | .send tc => (s.moveCommand tc .sending (.queued .sendCtl)).push .sendCtl (onOneCommand tc)
  | .lock tc => { s.moveCommand tc .wanting .writing with totalBytesWritten := 0 }
  | .write n =>
    match s.commands .writing with
    | tc :: _ =>
      let buf := ((onOneCommand tc).drop s.totalBytesWritten).take n
      let s := s.push .onOne buf
      if s.totalBytesWritten + n < ooCommandBufSize then
        { s with totalBytesWritten := s.totalBytesWritten + n, cut := true }
      else { s.moveCommand tc .writing (.queued .onOne) with totalBytesWritten := 0 }
    | [] => s
  | .ioAvail ch =>
    match s.stream ch with
    | cmd :: rest =>
      { s with
        stream := Function.update s.stream ch rest
        handler := Function.update s.handler ch (if cmd = kOnOne then .reading else .ignored) }
    | [] => s
  | .readCaller ch =>
    if h : ((s.stream ch).take 8).toArray.size = 8 then
      let tc : Pointer := ⟨((s.stream ch).take 8).toArray, h⟩
      { s.moveCommand tc (.queued ch) .executing with
        stream := Function.update s.stream ch ((s.stream ch).drop 8)
        handler := Function.update s.handler ch .armed }
    else { s with failed := true }
  | .exec tc =>
    match s.caller tc with
    | some id => (s.moveCommand tc .executing .started).start id
    | none => { s with dangling := true }
  | .delete tc =>
    { s with
      caller := Function.update s.caller tc none
      commands := discard s.commands tc .started
      dangling := s.dangling || (s.caller tc).isNone }
  | .stopFiber id => s.moveFunction id .running .exiting
  | .exitFiber id =>
    let s := s.moveFunction id .exiting .done
    let s := { s with numRunningFibers := s.numRunningFibers - 1 }
    if s.numRunningFibers = 0 then
      -- `notify_all`
      { s with waiter := fun w => if s.waiter w = .asleep then .woken else s.waiter w }
    else s
  | .waitForZeroFibers w => s.testZero w
  | .wake w => s.testZero w

instance (x : SpawnAction) : Decidable (s.enabled x) := by
  cases x <;> exact inferInstanceAs (Decidable (_ ∧ _))

end SpawnState

/-- There are no fibers, and the handlers are armed. -/
def spawnMachine : Machine SpawnState SpawnAction where
  init :=
    { numRunningFibers := 0
      caller := fun _ => none
      commands := fun _ => []
      functions := fun _ => []
      totalBytesWritten := 0
      stream := fun _ => []
      handler := fun _ => .armed
      waiter := fun _ => .outside
      made := 0
      starts := []
      returns := []
      cut := false
      failed := false
      dangling := false }
  enabled := SpawnState.enabled
  next := SpawnState.next

instance (s : SpawnState) (x : SpawnAction) : Decidable (spawnMachine.enabled s x) :=
  inferInstanceAs (Decidable (s.enabled x))

/-! ## What is expected -/

namespace SpawnState

variable (s : SpawnState)

/-- A call whose function no fiber has started. -/
def Waiting (id : ℕ) : Prop :=
  ∃ place tc, place ≠ .started ∧ tc ∈ s.commands place ∧ s.caller tc = some id

/-- Only new calls, the ends of functions, and threads that wait or wake up are left to happen. -/
def AtRest : Prop :=
  ∀ x, s.enabled x → match x with
    | .runInFiber _ _ | .construct | .stopFiber _ | .waitForZeroFibers _ | .wake _ => True
    | _ => False

/-- What `run_in_fiber` and `wait_for_zero_fibers` are to do. -/
structure Accounts : Prop where
  /-- Each function is started once, or is still on its way to a fiber. -/
  startsOnce : s.starts.Nodup
  started : ∀ id < s.made, id ∈ s.starts ↔ ¬s.Waiting id
  /-- A function that is started is at one place. -/
  placed : Distributed s.functions {id | id ∈ s.starts}
  /-- The live objects are those that somebody still has, each of them once. -/
  owned : Distributed s.commands {tc | (s.caller tc).isSome}
  dangling : s.dangling = false
  counted : s.numRunningFibers + (s.functions .done).length = s.made
  /-- A wait ends when all functions have ended that were counted before. -/
  waited : ∀ n ∈ s.returns, ∀ id < n, id ∈ s.functions .done
  /-- The commands of several fibers do not mix; only a cut one is read too early. -/
  framed : s.failed = true → s.cut = true
  commanded : ∀ ch, s.handler ch ≠ .ignored
  /-- When nothing is on its way, all functions are started, and when no function is running,
  nobody is asleep. -/
  rest : s.AtRest → s.failed = false →
    (∀ id < s.made, id ∈ s.starts) ∧ (s.functions .running = [] → ∀ w, s.waiter w ≠ .asleep)

end SpawnState

end Anon.Fiber
