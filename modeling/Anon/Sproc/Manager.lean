import Anon.Lib.Machine
import Anon.Lib.OrderedMap

/-!
# The manager of server processes

`start_server`, `stop_server`, `send_sync` and `watch_for_child_death_and_restart` in
`sproc_mgr.cpp`. Every server has a command pipe of its own, which stays with it when it is
restarted; the servers that are meant to run are in `running_procs_map`.

What happens while `running_procs_map_mutex` is held is one action: nothing else looks at the map
or at `current_srv_pid` in between, and an action that forks takes place when it forks. A thread
that polls for the end of a child is an entry of `polling` until `waitpid` has returned, and of
`waited` until it has locked the mutex.

`write_cmd` and the reply to it are not modelled further: a command counts as sent when it is
written. What a start that fails in the watching thread leads to is the end of the program, which
is no state. The fields `sent`, `notified` and `retired` record what happened and are never read.
-/

namespace Anon.Sproc

/-- `k_start`, `k_stop` and `k_sync`. -/
inductive Cmd
  | start
  | stop
  | sync
  deriving DecidableEq

/-- A `proc_info`. -/
structure ProcInfo where
  /-- The number of its pair of sockets. -/
  cmdPipe : ℕ
  /-- `unexpected_restart_` is a function. -/
  unexpectedRestart : Bool
  deriving DecidableEq

/-- What a process id stands for. -/
inductive PidState
  | free
  | running
  /-- A child that has exited and was not waited for. -/
  | exited
  deriving DecidableEq

structure State where
  runningProcsMap : OrderedMap ℕ ProcInfo
  currentSrvPid : ℕ
  pids : ℕ → PidState
  /-- How many pairs of sockets were made. -/
  pipes : ℕ
  /-- The calls of `start_server` that have started their child and are about to lock. -/
  starting : List (ℕ × ProcInfo)
  /-- The children that a thread polls for. -/
  polling : List ℕ
  /-- The children that a thread has waited for and is about to look up. -/
  waited : List ℕ
  /-- A value was used that is not there any more: what comes then is not defined. -/
  undefined : Bool
  /-- The commands, each with the pipe it was written to, newest first. -/
  sent : List (ℕ × Cmd)
  /-- The pipes of the servers whose `unexpected_restart_` was called. -/
  notified : List ℕ
  /-- The pipes of the servers that ran when `start_server` or `stop_server` took over. -/
  retired : List ℕ

inductive Action
  /-- `start_server`: make a `proc_info` and start its child. -/
  | startChild (pid : ℕ) (unexpectedRestart : Bool)
  /-- The same with a child that does not reply as it should: it is killed, or not even that. -/
  | startFails (pid : ℕ) (killed : Bool)
  /-- `start_server`, the rest. The reply of a server that is stopped may be an error. -/
  | startServer (child : ℕ × ProcInfo) (replied : Bool)
  | stopServer
  | sendSync
  /-- A process exits, whatever the reason. -/
  | exit (pid : ℕ)
  /-- `waitpid` returns. -/
  | wait (pid : ℕ)
  /-- `poll` returns without an event, and the thread ends. -/
  | unwatch (pid : ℕ)
  /-- The thread that has waited for `pid` looks it up, and restarts it as `newPid`. -/
  | watched (pid newPid : ℕ)

namespace State

/-- The process id can be given to a new process. -/
def canFork (s : State) (pid : ℕ) : Prop := pid ≠ 0 ∧ s.pids pid = .free

def enabled (s : State) : Action → Prop
  | .startChild pid _ => s.undefined = false ∧ s.canFork pid
  | .startFails pid _ => s.undefined = false ∧ s.canFork pid
  | .startServer child _ => s.undefined = false ∧ child ∈ s.starting
  | .stopServer => s.undefined = false
  | .sendSync => s.undefined = false
  | .exit pid => s.undefined = false ∧ s.pids pid = .running
  | .wait pid => s.undefined = false ∧ pid ∈ s.polling ∧ s.pids pid = .exited
  | .unwatch pid => s.undefined = false ∧ pid ∈ s.polling
  | .watched pid newPid => s.undefined = false ∧ pid ∈ s.waited ∧ s.canFork newPid

/-- The pipes of the servers in the map. -/
def runningPipes (s : State) : List ℕ := s.runningProcsMap.map fun e => e.2.cmdPipe

/-- `running_procs_map.insert`, which changes nothing for a key that is there. -/
def insertProc (s : State) (pid : ℕ) (pi : ProcInfo) : State :=
  { s with runningProcsMap := s.runningProcsMap.alter pid fun old => old.getD pi }

/-- Write `k_start`, insert the server and watch it. -/
def launch (s : State) (pid : ℕ) (pi : ProcInfo) : State :=
  let s := { s with sent := (pi.cmdPipe, .start) :: s.sent }.insertProc pid pi
  { s with polling := pid :: s.polling }

/-- `start_server` with the mutex locked. -/
def startServer (s : State) (child : ℕ × ProcInfo) (replied : Bool) : State :=
  let s' :=
    { s with
      starting := s.starting.erase child
      retired := s.runningPipes ++ s.retired
      currentSrvPid := child.1 }
  match s.runningProcsMap.get s.currentSrvPid with
  | none => s'.launch child.1 child.2
  | some pp =>
    let s' :=
      { s' with
        runningProcsMap := s'.runningProcsMap.erase s.currentSrvPid
        sent := (pp.cmdPipe, .stop) :: s'.sent }
    if replied then s'.launch child.1 child.2 else s'

/-- `stop_server`: the entry is used after it was moved from and erased. -/
def stopServer (s : State) : State :=
  let s' := { s with currentSrvPid := 0, retired := s.runningPipes ++ s.retired }
  match s.runningProcsMap.get s.currentSrvPid with
  | none => s'
  | some _ =>
    { s' with
      runningProcsMap := s'.runningProcsMap.erase s.currentSrvPid
      undefined := true }

def sendSync (s : State) : State :=
  match s.runningProcsMap.get s.currentSrvPid with
  | none => s
  | some pp => { s with sent := (pp.cmdPipe, .sync) :: s.sent }

/-- `watch_for_child_death_and_restart` with the mutex locked. -/
def watched (s : State) (pid newPid : ℕ) : State :=
  let s' := { s with waited := s.waited.erase pid }
  match s.runningProcsMap.get pid with
  | none => s'
  | some pi =>
    let s' :=
      { s' with
        runningProcsMap := s'.runningProcsMap.erase pid
        pids := Function.update s'.pids newPid .running }
    let s' := s'.launch newPid pi
    if pi.unexpectedRestart then { s' with notified := pi.cmdPipe :: s'.notified } else s'

def next (s : State) : Action → State
  | .startChild pid unexpectedRestart =>
    { s with
      pids := Function.update s.pids pid .running
      pipes := s.pipes + 1
      starting := (pid, ⟨s.pipes, unexpectedRestart⟩) :: s.starting }
  | .startFails pid killed =>
    { s with
      pids := Function.update s.pids pid (if killed then .exited else .running)
      pipes := s.pipes + 1 }
  | .startServer child replied => s.startServer child replied
  | .stopServer => s.stopServer
  | .sendSync => s.sendSync
  | .exit pid => { s with pids := Function.update s.pids pid .exited }
  | .wait pid =>
    { s with
      pids := Function.update s.pids pid .free
      polling := s.polling.erase pid
      waited := pid :: s.waited }
  | .unwatch pid => { s with polling := s.polling.erase pid }
  | .watched pid newPid => s.watched pid newPid

instance (s : State) (pid : ℕ) : Decidable (s.canFork pid) :=
  inferInstanceAs (Decidable (_ ∧ _))

instance (s : State) (a : Action) : Decidable (s.enabled a) :=
  match a with
  | .startChild _ _ => inferInstanceAs (Decidable (_ ∧ _))
  | .startFails _ _ => inferInstanceAs (Decidable (_ ∧ _))
  | .startServer _ _ => inferInstanceAs (Decidable (_ ∧ _))
  | .stopServer => inferInstanceAs (Decidable (_ = _))
  | .sendSync => inferInstanceAs (Decidable (_ = _))
  | .exit _ => inferInstanceAs (Decidable (_ ∧ _))
  | .wait _ => inferInstanceAs (Decidable (_ ∧ _ ∧ _))
  | .unwatch _ => inferInstanceAs (Decidable (_ ∧ _))
  | .watched _ _ => inferInstanceAs (Decidable (_ ∧ _ ∧ _))

end State

/-- The manager before the first call. -/
def manager : Machine State Action where
  init :=
    { runningProcsMap := []
      currentSrvPid := 0
      pids := fun _ => .free
      pipes := 0
      starting := []
      polling := []
      waited := []
      undefined := false
      sent := []
      notified := []
      retired := [] }
  enabled := State.enabled
  next := State.next

instance (s : State) (a : Action) : Decidable (manager.enabled s a) :=
  inferInstanceAs (Decidable (s.enabled a))

end Anon.Sproc
