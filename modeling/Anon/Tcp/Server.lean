import Anon.Epc.SockaddrIn6
import Anon.Lib.Exclusive
import Anon.Lib.Machine

/-!
# The listening socket and its end

`tcp_server::io_avail` and `tcp_server::stop`. The socket is in epoll for one event at a time. To
stop, the server connects to itself from a port that it has bound: the thread that accepts this
connection takes the socket out of epoll, and `stop` returns.

* `Conn`: a connection, which `accept4` gives with the address of its other side.
* `AvailPhase`: how far `io_avail` is.
* `StopPhase`: how far `stop` is.
* `serverMachine`: any interleaving of clients, io threads and the one that stops.
* `Stops`: what is expected.
-/

namespace Anon.Tcp

open Epc (SockaddrIn6)

structure Conn where
  id : ℕ
  addr : SockaddrIn6
  deriving DecidableEq

/-- The listening socket in epoll, for one event. -/
inductive Interest
  | armed
  | disarmed
  | removed
  deriving DecidableEq

/-- An io thread in `io_avail`, up to where the socket is in epoll again. -/
inductive AvailPhase
  | none
  | accepting
  /-- `accept4` has returned the connection. -/
  | accepted (conn : Conn)
  /-- The socket is out of epoll. -/
  | stopping (conn : Conn)
  deriving DecidableEq

inductive StopPhase
  | idle
  /-- `stop_addr_` is set. -/
  | bound
  /-- `stop_` is set. -/
  | announced
  /-- Wants `stop_mutex_`, after `connect` or in `stop_cond_.wait`. -/
  | locking
  | asleep
  | returned
  deriving DecidableEq

structure ServerState where
  /-- The connections that were made and not accepted. -/
  backlog : List Conn
  interest : Interest
  avail : AvailPhase
  /-- What io threads are about to call `run_in_fiber` for. -/
  starting : List Conn
  /-- What fibers were started for. -/
  handed : List Conn
  stopFlag : Bool
  stopAddr : SockaddrIn6
  forcedClose : Bool
  stopper : StopPhase
  /-- How many connections were made. -/
  made : ℕ
  /-- The connection of `stop`. -/
  stopId : Option ℕ
  /-- How often the hibernating pipes were swept. -/
  sweeps : ℕ
  /-- How often `accept4` has returned a connection. -/
  accepts : ℕ

inductive ServerAction
  | connect (addr : SockaddrIn6)
  /-- `epoll_wait` returns the event. -/
  | epollWait
  /-- `accept4` fails. -/
  | acceptError (emfile : Bool)
  | accept
  /-- The test for the connection of `stop`, and what is done in epoll. -/
  | rearm
  /-- `stop_mutex_` is locked, and `stop_` cleared. -/
  | notify
  | runInFiber (conn : Conn)
  /-- `bind` and `getsockname` of `stop`. -/
  | stopBind (addr : SockaddrIn6)
  | stopSet
  | stopConnect
  /-- The test of `stop_` under `stop_mutex_`. -/
  | stopTest

namespace ServerState

variable (s : ServerState)

/-- A connection that is there, up to `accept4` and the test behind it. -/
def Pending (conn : Conn) : Prop := conn ∈ s.backlog ∨ s.avail = .accepted conn

instance (conn : Conn) : Decidable (s.Pending conn) := inferInstanceAs (Decidable (_ ∨ _))

/-- No pending connection comes from an address. -/
def Free (addr : SockaddrIn6) : Prop :=
  (∀ conn ∈ s.backlog, conn.addr.same addr = false) ∧
    match s.avail with
    | .accepted conn => conn.addr.same addr = false
    | _ => True

instance (addr : SockaddrIn6) : Decidable (s.Free addr) := by
  unfold Free
  cases s.avail with
  | accepted conn => exact inferInstanceAs (Decidable (_ ∧ _))
  | _ => exact inferInstanceAs (Decidable (_ ∧ True))

/-- A connection comes to the end of the queue. -/
def push (addr : SockaddrIn6) : ServerState :=
  { s with backlog := s.backlog ++ [⟨s.made, addr⟩], made := s.made + 1 }

def enabled : ServerAction → Prop
  -- a port that is bound is nobody else's
  | .connect addr => s.stopper = .idle ∨ addr.same s.stopAddr = false
  | .epollWait => s.interest = .armed ∧ s.backlog ≠ []
  | .acceptError _ => s.avail = .accepting
  | .accept => s.avail = .accepting ∧ s.backlog ≠ []
  | .rearm =>
    match s.avail with
    | .accepted _ => True
    | _ => False
  | .notify =>
    match s.avail with
    | .stopping _ => True
    | _ => False
  | .runInFiber conn => conn ∈ s.starting
  | .stopBind addr => s.stopper = .idle ∧ s.Free addr
  | .stopSet => s.stopper = .bound
  | .stopConnect => s.stopper = .announced
  | .stopTest => s.stopper = .locking

def next : ServerAction → ServerState
  | .connect addr => s.push addr
  | .epollWait => { s with interest := .disarmed, avail := .accepting }
  | .acceptError emfile =>
    let s :=
      if emfile ∧ s.forcedClose = false then
        { s with forcedClose := true, sweeps := s.sweeps + 1 }
      else s
    { s with interest := .armed, avail := .none }
  | .accept =>
    match s.backlog with
    | conn :: backlog =>
      { s with
        backlog := backlog
        avail := .accepted conn
        forcedClose := false
        accepts := s.accepts + 1 }
    | [] => s
  | .rearm =>
    match s.avail with
    | .accepted conn =>
      if s.stopFlag = true ∧ conn.addr.same s.stopAddr = true then
        { s with interest := .removed, avail := .stopping conn }
      else
        { s with interest := .armed, avail := .none, starting := s.starting ++ [conn] }
    | _ => s
  | .notify =>
    match s.avail with
    | .stopping conn =>
      { s with
        avail := .none
        starting := s.starting ++ [conn]
        stopFlag := false
        -- `notify_all`
        stopper := if s.stopper = .asleep then .locking else s.stopper }
    | _ => s
  | .runInFiber conn =>
    { s with starting := s.starting.erase conn, handed := s.handed ++ [conn] }
  | .stopBind addr => { s with stopAddr := addr, stopper := .bound }
  | .stopSet => { s with stopFlag := true, stopper := .announced }
  | .stopConnect =>
    { s.push s.stopAddr with stopper := .locking, stopId := some s.made }
  | .stopTest => { s with stopper := if s.stopFlag then .asleep else .returned }

instance (x : ServerAction) : Decidable (s.enabled x) := by
  cases x with
  | rearm => unfold enabled; cases s.avail <;> exact inferInstanceAs (Decidable (_ : Prop))
  | notify => unfold enabled; cases s.avail <;> exact inferInstanceAs (Decidable (_ : Prop))
  | connect addr => exact inferInstanceAs (Decidable (_ ∨ _))
  | epollWait => exact inferInstanceAs (Decidable (_ ∧ _))
  | accept => exact inferInstanceAs (Decidable (_ ∧ _))
  | stopBind addr => exact inferInstanceAs (Decidable (_ ∧ _))
  | acceptError emfile => exact inferInstanceAs (Decidable (_ = _))
  | runInFiber conn => exact inferInstanceAs (Decidable (_ ∈ _))
  | stopSet => exact inferInstanceAs (Decidable (_ = _))
  | stopConnect => exact inferInstanceAs (Decidable (_ = _))
  | stopTest => exact inferInstanceAs (Decidable (_ = _))

end ServerState

/-- The socket listens, from `init_socket` on. -/
def serverMachine : Machine ServerState ServerAction where
  init :=
    { backlog := []
      interest := .armed
      avail := .none
      starting := []
      handed := []
      stopFlag := false
      stopAddr := ⟨Vector.replicate 28 0⟩
      forcedClose := false
      stopper := .idle
      made := 0
      stopId := none
      sweeps := 0
      accepts := 0 }
  enabled := ServerState.enabled
  next := ServerState.next

instance (s : ServerState) (x : ServerAction) : Decidable (serverMachine.enabled s x) :=
  inferInstanceAs (Decidable (s.enabled x))

/-! ## What is expected -/

/-- Who has a connection. -/
inductive ConnPlace
  | backlog
  | avail
  | starting
  | handed
  deriving DecidableEq

/-- The connection that `io_avail` has. -/
def AvailPhase.conns : AvailPhase → List Conn
  | .accepted conn | .stopping conn => [conn]
  | _ => []

namespace ServerState

variable (s : ServerState)

def ids : ConnPlace → List ℕ
  | .backlog => s.backlog.map Conn.id
  | .avail => s.avail.conns.map Conn.id
  | .starting => s.starting.map Conn.id
  | .handed => s.handed.map Conn.id

/-- Only new connections, a failure of `accept4` and a call of `stop` are left to happen. -/
def AtRest : Prop :=
  ∀ x, s.enabled x → match x with
    | .connect _ | .acceptError _ | .stopBind _ => True
    | _ => False

/-- What the server is to do. -/
structure Stops : Prop where
  /-- Each connection is given to one fiber. -/
  once : Distributed s.ids {id | id < s.made}
  /-- Nobody uses the socket after `stop`, and what was connected before was accepted. -/
  stopped : s.stopper = .returned →
    s.interest = .removed ∧ s.avail = .none ∧ ∃ k, s.stopId = some k ∧
      ∀ id ≤ k, id ∈ s.ids .starting ∨ id ∈ s.ids .handed
  /-- Before `stop`, nothing takes the socket out of epoll. -/
  listening : s.interest = .removed → s.stopId ≠ none
  /-- The pipes are swept once between two connections. -/
  swept : s.sweeps ≤ s.accepts + 1
  /-- At rest, everything is with a fiber, and who has called `stop` has come back. -/
  rest : s.AtRest →
    (s.stopper = .idle ∧ (∀ id < s.made, id ∈ s.ids .handed)) ∨
      s.stopper = .returned ∧ ∀ k, s.stopId = some k → ∀ id ≤ k, id ∈ s.ids .handed

end ServerState

end Anon.Tcp
