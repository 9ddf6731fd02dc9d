import Anon.Dns.GetAddrinfo
import Anon.Lib.Exclusive
import Anon.Lib.Machine

/-!
# The service that looks names up

`addrinfo_service` and `dns_lookup::get_addrinfo`: a caller writes a pointer to the socket of the
service, whose thread reads it, calls `getaddrinfo`, and starts a fiber that fills in the variables
of the caller. The caller waits for that, with a mutex and a condition on its stack.

* `Call`: what is on the stack of a caller.
* `Reply`: the fiber that the thread has started.
* `serviceMachine`: any interleaving of callers, thread and fibers, and the end of the service.
* `Answers`: what the service is to do.
-/

namespace Anon.Dns.Service

open Epc (SockaddrIn6)

/-- `sprintf(&portString[0], "%d", port)` -/
def portString (port : ℤ) : Bytes := ascii (toString port)

/-- The size of `portString`. -/
def portStringSize : ℕ := 8

inductive CallPhase
  /-- Wants the mutex. -/
  | locking
  /-- Has it. -/
  | testing
  /-- In `cond.wait`. -/
  | sleeping
  | returned (err : ℤ) (addrs : List SockaddrIn6)
  deriving DecidableEq

def CallPhase.isReturned : CallPhase → Bool
  | .returned _ _ => true
  | _ => false

/-- A call of `get_addrinfo`. -/
structure Call where
  host : Bytes
  port : ℤ
  err : ℤ
  addrs : List SockaddrIn6
  done : Bool
  /-- The state of the mutex. -/
  locked : Bool
  phase : CallPhase

inductive ReplyPhase
  | started
  | locked
  | filled
  | notified
  deriving DecidableEq

/-- The fiber that runs the lambda of a caller. -/
structure Reply where
  id : ℕ
  err : ℤ
  addrs : List SockaddrIn6
  phase : ReplyPhase
  deriving DecidableEq

/-- The caller goes on; in `cond.wait` it unlocks the mutex. -/
def Call.proceed (call : Call) : Call :=
  match call.phase with
  | .locking => { call with locked := true, phase := .testing }
  | .testing =>
    { call with
      locked := false
      phase := if call.done then .returned call.err call.addrs else .sleeping }
  | _ => call

/-- The fiber goes on, in the variables of the caller. -/
def Reply.run (r : Reply) (call : Call) : Call × Option Reply :=
  match r.phase with
  | .started => ({ call with locked := true }, some { r with phase := .locked })
  | .locked =>
    ({ call with err := r.err, addrs := r.addrs, done := true }, some { r with phase := .filled })
  | .filled =>
    -- a caller that sleeps wants the mutex again
    let phase := if call.phase = .sleeping then .locking else call.phase
    ({ call with phase := phase }, some { r with phase := .notified })
  | .notified => ({ call with locked := false }, none)

/-- Where the thread is. -/
inductive ThreadPlace
  | reading
  | resolving (id : ℕ)
  | exited
  deriving DecidableEq

/-- A record of a call of `getaddrinfo`. -/
structure Query where
  id : ℕ
  host : Bytes
  portString : Bytes
  err : ℤ
  found : List SockaddrIn6

structure ServiceState where
  /-- `singleton` is not null. -/
  singleton : Bool
  /-- How many calls were made before `stop_thread` has written its null pointer. -/
  stopped : Option ℕ
  /-- The pointers that were written and not read. -/
  socket : List (Option ℕ)
  thread : ThreadPlace
  /-- How many calls were made. -/
  made : ℕ
  calls : ℕ → Call
  replies : List Reply
  queries : List Query
  /-- The calls whose lambda has run. -/
  finished : List ℕ
  /-- The calls that had returned when their lambda used their variables. -/
  stray : List ℕ

inductive ServiceAction
  /-- `get_addrinfo`, up to the mutex; `err` is what the variable was. -/
  | getAddrinfo (host : Bytes) (port : ℤ) (err : ℤ)
  /-- The thread reads a pointer. -/
  | readCommand
  /-- The thread calls `getaddrinfo` and starts the fiber. With each address comes what was in the
  variable that it is copied to. -/
  | resolve (err : ℤ) (result : List (SockaddrIn6 × SockaddrIn6))
  /-- The fiber goes on. -/
  | reply (r : Reply)
  /-- The caller goes on. -/
  | proceed (id : ℕ)
  | stopThread
  /-- `join` and `singleton.reset()` -/
  | reset

namespace ServiceState

variable (s : ServiceState)

def setCall (id : ℕ) (call : Call) : ServiceState :=
  { s with calls := Function.update s.calls id call }

/-- A fiber goes on. -/
def answer (r : Reply) : ServiceState :=
  let (call, r') := r.run (s.calls r.id)
  { s with
    calls := Function.update s.calls r.id call
    replies := r'.toList ++ s.replies.erase r
    finished := if r'.isNone then r.id :: s.finished else s.finished
    stray := if (s.calls r.id).phase.isReturned then r.id :: s.stray else s.stray }

def enabled : ServiceAction → Prop
  | .getAddrinfo _ port _ => s.singleton = true ∧ (portString port).length < portStringSize
  | .readCommand => s.thread = .reading ∧ s.socket ≠ []
  | .resolve _ _ =>
    match s.thread with
    | .resolving _ => True
    | _ => False
  | .reply r => r ∈ s.replies ∧ (r.phase = .started → (s.calls r.id).locked = false)
  | .proceed id =>
    id < s.made ∧
      match (s.calls id).phase with
      | .locking => (s.calls id).locked = false
      | .testing => True
      | _ => False
  | .stopThread => s.singleton = true ∧ s.stopped = none
  | .reset => s.singleton = true ∧ s.stopped ≠ none ∧ s.thread = .exited

def next : ServiceAction → ServiceState
  | .getAddrinfo host port err =>
    let s := s.setCall s.made ⟨host, port, err, [], false, false, .locking⟩
    { s with made := s.made + 1, socket := s.socket ++ [some s.made] }
  | .readCommand =>
    match s.socket with
    | some id :: socket => { s with socket := socket, thread := .resolving id }
    | none :: socket => { s with socket := socket, thread := .exited }
    | [] => s
  | .resolve err result =>
    match s.thread with
    | .resolving id =>
      let call := s.calls id
      let result := if err = 0 then result else []
      let addrs := result.map fun (source, addr) => memcpy addr source (addrlenOf source)
      { s with
        thread := .reading
        replies := ⟨id, err, addrs, .started⟩ :: s.replies
        queries := ⟨id, call.host, portString call.port, err, result.map Prod.fst⟩ :: s.queries }
    | _ => s
  | .reply r => s.answer r
  | .proceed id => s.setCall id (s.calls id).proceed
  | .stopThread => { s with stopped := some s.made, socket := s.socket ++ [none] }
  | .reset => { s with singleton := false }

instance (x : ServiceAction) : Decidable (s.enabled x) := by
  cases x <;> simp only [enabled] <;> (try split) <;> infer_instance

end ServiceState

/-- The service has started. -/
def serviceMachine : Machine ServiceState ServiceAction where
  init :=
    { singleton := true
      stopped := none
      socket := []
      thread := .reading
      made := 0
      calls := fun _ => ⟨[], 0, 0, [], false, false, .locking⟩
      replies := []
      queries := []
      finished := []
      stray := [] }
  enabled := ServiceState.enabled
  next := ServiceState.next

instance (s : ServiceState) (x : ServiceAction) : Decidable (serviceMachine.enabled s x) :=
  inferInstanceAs (Decidable (s.enabled x))

/-! ## What is expected -/

/-- What has a call. -/
inductive Stage
  | socket
  | thread
  | fiber
  | finished
  deriving DecidableEq

namespace ServiceState

variable (s : ServiceState)

def ids : Stage → List ℕ
  | .socket => s.socket.reduceOption
  | .thread =>
    match s.thread with
    | .resolving id => [id]
    | _ => []
  | .fiber => s.replies.map Reply.id
  | .finished => s.finished

/-- Only new calls, or the end of the service, are left to happen. -/
def AtRest : Prop :=
  ∀ x, s.enabled x → match x with
    | .getAddrinfo _ _ _ | .stopThread | .reset => True
    | _ => False

/-- What the service is to do. -/
structure Answers : Prop where
  /-- A call returns what `getaddrinfo` has returned for its host and port. -/
  returned : ∀ id err addrs, id < s.made → (s.calls id).phase = .returned err addrs →
    ∃ q ∈ s.queries, q.id = id ∧ q.host = (s.calls id).host ∧
      q.portString = portString (s.calls id).port ∧ err = q.err ∧
      List.Forall₂ (fun a b => a.same b = true) addrs q.found
  queried : (s.queries.map Query.id).Nodup
  once : Distributed s.ids {id | id < s.made}
  /-- The lambda of a caller runs while its variables are there. -/
  stray : s.stray = []
  /-- No wakeup is lost. -/
  rest : s.AtRest → ∀ id < s.stopped.getD s.made, (s.calls id).phase.isReturned = true

end ServiceState

end Anon.Dns.Service
