import Anon.Epc.Slots

/-!
# The sockets of a cluster

`do_with_connected_pipe` from the choice of an endpoint on, for all endpoints of a cluster at a
time, with the sockets that it takes out of their queues, makes, and puts back. What happens under
the mutex of an endpoint is one action, and so is what happens under the mutex of the cluster.

The list of the cluster changes in any way: endpoints leave it, and new ones come. An endpoint is
deleted when nobody holds it any more, and the sockets in its queue are closed with it.

* `takeSock`: the loop that looks for a socket.
* `UserPc`: where a call is, with what it holds.
* `Pool`: the endpoints, the calls and the sockets, with a record of what became of them.
* `poolMachine`: any interleaving of calls and of changes of the list.
-/

namespace Anon.Epc

open Slots (kMaxIdleTime)

/-- An `endpoint`. A `sock` in its queue is its number and its `idle_start_time`. -/
structure PoolEndpoint where
  outstandingRequests : ℤ
  socks : List (ℕ × ℤ)
  error : Bool
  deleted : Bool

/-- Where a call of `do_with_connected_pipe` is, with its endpoint and its socket. -/
inductive UserPc
  | outside
  /-- About to lock the mutex of the endpoint. -/
  | chosen (ep : ℕ)
  /-- In `cond_.wait`. -/
  | asleep (ep : ℕ)
  /-- Notified, and about to lock the mutex again. -/
  | notified (ep : ℕ)
  /-- In `tcp_client::connect`. -/
  | connecting (ep : ℕ)
  /-- Makes a pipe of the connection. -/
  | connected (ep sock : ℕ)
  /-- In the callback, without the endpoint. -/
  | calling (ep sock : ℕ)
  /-- In `~cleanup`, with the endpoint if it was still `alive`. -/
  | ended (ep sock : ℕ) (alive cache exceptionThrown : Bool)
  deriving DecidableEq

/-- The socket that a call has. -/
def UserPc.sock : UserPc → Option ℕ
  | .connected _ sock => some sock
  | .calling _ sock => some sock
  | .ended _ sock _ _ _ => some sock
  | _ => none

/-- The endpoint to which a call has a shared pointer. -/
def UserPc.endpoint : UserPc → Option ℕ
  | .outside => none
  | .chosen ep => some ep
  | .asleep ep => some ep
  | .notified ep => some ep
  | .connecting ep => some ep
  | .connected ep _ => some ep
  | .calling _ _ => none
  | .ended ep _ alive _ _ => if alive then some ep else none

structure Pool (A : Type) where
  endpoints : ℕ → PoolEndpoint
  /-- How many endpoints were made. -/
  made : ℕ
  /-- `endpoints_` -/
  listed : List ℕ
  pc : A → UserPc
  /-- How many sockets were connected. -/
  connected : ℕ
  closed : List ℕ
  /-- The sockets whose use has ended in an exception, or whose callback has declined reuse. -/
  spent : List ℕ
  /-- When a socket was last put into a queue. -/
  lastReturn : ℕ → ℤ
  /-- The sockets that were taken out of a queue for a call, and how long they had been idle. -/
  handouts : List (ℕ × ℤ)

inductive PoolAction (A : Type)
  /-- The list of the cluster becomes `listed`, for which `n` endpoints were made. -/
  | relist (listed : List ℕ) (n : ℕ)
  | choose (a : A) (ep : ℕ)
  /-- Lock the mutex of the endpoint, also after `cond_.wait`, and go through the loops; `now` is
  what the clock says in each iteration. -/
  | enter (a : A) (ep : ℕ) (now : ℕ → ℤ)
  | connects (a : A) (ep : ℕ)
  /-- `connect` returns an error, or throws. -/
  | connectFails (a : A) (ep : ℕ)
  | makesPipe (a : A) (ep sock : ℕ)
  /-- The constructor of `tls_pipe` throws. -/
  | handshakeFails (a : A) (ep sock : ℕ)
  /-- The callback returns whether the socket may be used again. -/
  | returns (a : A) (ep sock : ℕ) (cache : Bool)
  /-- The callback throws. -/
  | throws (a : A) (ep sock : ℕ)
  /-- The rest of `~cleanup`. -/
  | cleanup (a : A) (ep sock : ℕ) (alive cache exceptionThrown : Bool) (now : ℤ)
  | delete (ep : ℕ)

/-- The loop that looks for a socket: the ones that are dropped, because they were idle for too
long, the one that is taken, with the time, and the rest. -/
def takeSock (now : ℕ → ℤ) : List (ℕ × ℤ) → List ℕ × Option (ℕ × ℤ) × List (ℕ × ℤ)
  | [] => ([], none, [])
  | (sock, idleStartTime) :: socks =>
    if now 0 < idleStartTime + kMaxIdleTime then ([], some (sock, now 0), socks)
    else
      let r := takeSock (fun i => now (i + 1)) socks
      (sock :: r.1, r.2)

namespace Pool

variable {A : Type} [DecidableEq A]

def setPc (s : Pool A) (a : A) (pc : UserPc) : Pool A :=
  { s with pc := Function.update s.pc a pc }

def setEndpoint (s : Pool A) (ep : ℕ) (e : PoolEndpoint) : Pool A :=
  { s with endpoints := Function.update s.endpoints ep e }

/-- Wake all fibers that wait for the endpoint. -/
def notifyAll (s : Pool A) (ep : ℕ) : Pool A :=
  { s with pc := fun a => if s.pc a = .asleep ep then .notified ep else s.pc a }

/-- The second block of `do_with_connected_pipe`, from the test of its `while` loop. -/
def enter (maxConnPerEp : ℤ) (s : Pool A) (a : A) (ep : ℕ) (now : ℕ → ℤ) : Pool A :=
  let e := s.endpoints ep
  if maxConnPerEp ≤ e.outstandingRequests then s.setPc a (.asleep ep)
  else if e.error then s.setPc a .outside
  else
    let (dropped, taken, socks) := takeSock now e.socks
    let s' := { s with closed := s.closed ++ dropped }.setEndpoint ep
      { e with outstandingRequests := e.outstandingRequests + 1, socks := socks }
    match taken with
    | some (sock, time) =>
      { s' with handouts := (sock, time - s.lastReturn sock) :: s.handouts }.setPc a
        (.calling ep sock)
    | none => s'.setPc a (.connecting ep)

/-- `~cleanup`, once it has locked the weak pointer. -/
def cleanup (s : Pool A) (a : A) (ep sock : ℕ) (alive cache exceptionThrown : Bool) (now : ℤ) :
    Pool A :=
  if alive then
    let e := s.endpoints ep
    let s' := { s with listed := if exceptionThrown then s.listed.erase ep else s.listed }
    let s' :=
      if cache then
        { s' with lastReturn := Function.update s.lastReturn sock now }.setEndpoint ep
          { e with
            outstandingRequests := e.outstandingRequests - 1
            socks := e.socks ++ [(sock, now)]
            error := e.error || exceptionThrown }
      else
        { s' with closed := s.closed ++ [sock] }.setEndpoint ep
          { e with
            outstandingRequests := e.outstandingRequests - 1
            error := e.error || exceptionThrown }
    (s'.setPc a .outside).notifyAll ep
  else { s with closed := s.closed ++ [sock] }.setPc a .outside

def enabled (doTls : Bool) (s : Pool A) : PoolAction A → Prop
  | .relist listed n => ∀ ep ∈ listed, ep ∈ s.listed ∨ s.made ≤ ep ∧ ep < s.made + n
  | .choose a ep => s.pc a = .outside ∧ ep ∈ s.listed
  | .enter a ep _ => s.pc a = .chosen ep ∨ s.pc a = .notified ep
  | .connects a ep => s.pc a = .connecting ep
  | .connectFails a ep => s.pc a = .connecting ep
  | .makesPipe a ep sock => s.pc a = .connected ep sock
  | .handshakeFails a ep sock => s.pc a = .connected ep sock ∧ doTls = true
  | .returns a ep sock _ => s.pc a = .calling ep sock
  | .throws a ep sock => s.pc a = .calling ep sock
  | .cleanup a ep sock alive cache exceptionThrown _ =>
    s.pc a = .ended ep sock alive cache exceptionThrown
  | .delete ep => ep < s.made ∧ ep ∉ s.listed ∧ ∀ a, (s.pc a).endpoint ≠ some ep

def next (maxConnPerEp : ℤ) (s : Pool A) : PoolAction A → Pool A
  | .relist listed n => { s with listed := listed, made := s.made + n }
  | .choose a ep => s.setPc a (.chosen ep)
  | .enter a ep now => s.enter maxConnPerEp a ep now
  | .connects a ep => { s with connected := s.connected + 1 }.setPc a (.connected ep s.connected)
  -- `eraser`, or the call of `erase`
  | .connectFails a ep => { s with listed := s.listed.erase ep }.setPc a .outside
  | .makesPipe a ep sock => s.setPc a (.calling ep sock)
  | .handshakeFails a _ sock => { s with closed := s.closed ++ [sock] }.setPc a .outside
  | .returns a ep sock cache =>
    { s with spent := if cache then s.spent else s.spent ++ [sock] }.setPc a
      (.ended ep sock (!(s.endpoints ep).deleted) cache false)
  | .throws a ep sock =>
    { s with spent := s.spent ++ [sock] }.setPc a
      (.ended ep sock (!(s.endpoints ep).deleted) false true)
  | .cleanup a ep sock alive cache exceptionThrown now =>
    s.cleanup a ep sock alive cache exceptionThrown now
  | .delete ep =>
    { s with closed := s.closed ++ (s.endpoints ep).socks.map Prod.fst }.setEndpoint ep
      { s.endpoints ep with socks := [], deleted := true }

instance [Fintype A] (doTls : Bool) (s : Pool A) (x : PoolAction A) :
    Decidable (s.enabled doTls x) :=
  match x with
  | .relist _ _ => inferInstanceAs (Decidable (∀ ep ∈ _, _ ∨ _))
  | .choose _ _ => inferInstanceAs (Decidable (_ ∧ _))
  | .enter _ _ _ => inferInstanceAs (Decidable (_ ∨ _))
  | .connects _ _ => inferInstanceAs (Decidable (_ = _))
  | .connectFails _ _ => inferInstanceAs (Decidable (_ = _))
  | .makesPipe _ _ _ => inferInstanceAs (Decidable (_ = _))
  | .handshakeFails _ _ _ => inferInstanceAs (Decidable (_ ∧ _))
  | .returns _ _ _ _ => inferInstanceAs (Decidable (_ = _))
  | .throws _ _ _ => inferInstanceAs (Decidable (_ = _))
  | .cleanup _ _ _ _ _ _ _ => inferInstanceAs (Decidable (_ = _))
  | .delete _ => inferInstanceAs (Decidable (_ ∧ _ ∧ ∀ _, _))

end Pool

/-- A cluster right after its constructor. -/
def poolMachine (A : Type) [DecidableEq A] (maxConnPerEp : ℤ) (doTls : Bool) :
    Machine (Pool A) (PoolAction A) where
  init :=
    { endpoints := fun _ => ⟨0, [], false, false⟩
      made := 0
      listed := []
      pc := fun _ => .outside
      connected := 0
      closed := []
      spent := []
      lastReturn := fun _ => 0
      handouts := [] }
  enabled := Pool.enabled doTls
  next := Pool.next maxConnPerEp

instance {A : Type} [DecidableEq A] [Fintype A] (maxConnPerEp : ℤ) (doTls : Bool) (s : Pool A)
    (x : PoolAction A) : Decidable ((poolMachine A maxConnPerEp doTls).enabled s x) :=
  inferInstanceAs (Decidable (s.enabled doTls x))

end Anon.Epc
