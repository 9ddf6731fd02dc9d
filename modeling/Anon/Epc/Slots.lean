import Anon.Lib.Counting
import Anon.Lib.Machine

/-!
# The slots of an endpoint

The part of `endpoint_cluster::do_with_connected_pipe` that counts the requests to one endpoint,
and the destructor of `cleanup`. What happens while the mutex of the endpoint is held is one
action; `cond_.wait` lets go of it. Points in time are numbers of nanoseconds.

The endpoint leaves the list of its cluster when something has gone wrong with it, or for reasons
of the cluster, and never comes back. It is deleted when nobody holds it any more, and then its
counter is no more.
-/

namespace Anon.Epc

/-- Where a call of `do_with_connected_pipe` is. -/
inductive CallerPc
  /-- Does not use the endpoint. -/
  | outside
  /-- Has chosen the endpoint, and is about to lock its mutex. -/
  | chosen
  /-- In `cond_.wait`. -/
  | asleep
  /-- Notified, and about to lock the mutex again. -/
  | notified
  /-- Has incremented the counter: in `tcp_client::connect`. -/
  | connecting
  /-- Makes a pipe of the connection. -/
  | connected
  /-- Has made its `cleanup` and let go of the endpoint: in the callback. -/
  | calling
  deriving DecidableEq

/-- Between the increment of the counter and the end of the attempt. -/
def CallerPc.attempting : CallerPc → Bool
  | .connecting => true
  | .connected => true
  | .calling => true
  | _ => false

/-- Has a shared pointer to the endpoint. -/
def CallerPc.holds : CallerPc → Bool
  | .outside => false
  | .calling => false
  | _ => true

structure Slots (A : Type) where
  outstandingRequests : ℤ
  /-- `socks_`: since when each of them is idle. -/
  socks : List ℤ
  error : Bool
  /-- The cluster has the endpoint in its list. -/
  listed : Bool
  deleted : Bool
  pc : A → CallerPc

inductive SlotAction (A : Type)
  | choose (a : A)
  /-- Lock the mutex, also after `cond_.wait`, and go through the `while` loop. -/
  | enter (a : A) (now : ℤ)
  | connects (a : A)
  /-- `connect` returns an error, or throws. -/
  | connectFails (a : A)
  | makesPipe (a : A)
  /-- The constructor of `tls_pipe` throws. -/
  | handshakeFails (a : A)
  /-- The callback returns; `cache`: the socket may be used again. -/
  | returns (a : A) (cache : Bool) (now : ℤ)
  /-- The callback throws. -/
  | throws (a : A)
  /-- The cluster removes the endpoint from its list. -/
  | erase
  | delete

namespace Slots

variable {A : Type} [DecidableEq A]

/-- `k_max_idle_time` -/
def kMaxIdleTime : ℤ := 25 * 1000000000

def setPc (s : Slots A) (a : A) (pc : CallerPc) : Slots A :=
  { s with pc := Function.update s.pc a pc }

/-- Wake all fibers that wait. -/
def notifyAll (s : Slots A) : Slots A :=
  { s with pc := fun a => if s.pc a = .asleep then .notified else s.pc a }

/-- The loop that looks for a socket: sockets that were idle for too long are dropped. -/
def takeSocket (s : Slots A) (now : ℤ) : List ℤ :=
  s.socks.dropWhile fun idleStartTime => ¬now < idleStartTime + kMaxIdleTime

/-- The second block of `do_with_connected_pipe`, from the test of its `while` loop. -/
def enter (maxConnPerEp : ℤ) (s : Slots A) (a : A) (now : ℤ) : Slots A :=
  if maxConnPerEp ≤ s.outstandingRequests then s.setPc a .asleep
  else if s.error then s.setPc a .outside
  else
    let s' := { s with outstandingRequests := s.outstandingRequests + 1 }
    match s.takeSocket now with
    | _ :: socks => { s' with socks := socks }.setPc a .calling
    | [] => { s' with socks := [] }.setPc a .connecting

/-- `~cleanup` -/
def cleanup (s : Slots A) (a : A) (cache : Option ℤ) (exceptionThrown : Bool) : Slots A :=
  if s.deleted then s.setPc a .outside
  else
    let s' :=
      { s with
        outstandingRequests := s.outstandingRequests - 1
        listed := s.listed && !exceptionThrown
        socks := s.socks ++ cache.toList
        error := s.error || exceptionThrown }
    (s'.setPc a .outside).notifyAll

def enabled (doTls : Bool) (s : Slots A) : SlotAction A → Prop
  | .choose a => s.pc a = .outside ∧ s.listed = true ∧ s.deleted = false
  | .enter a _ => s.pc a = .chosen ∨ s.pc a = .notified
  | .connects a => s.pc a = .connecting
  | .connectFails a => s.pc a = .connecting
  | .makesPipe a => s.pc a = .connected
  | .handshakeFails a => s.pc a = .connected ∧ doTls = true
  | .returns a _ _ => s.pc a = .calling
  | .throws a => s.pc a = .calling
  | .erase => True
  | .delete => s.listed = false ∧ ∀ a, (s.pc a).holds = false

def next (maxConnPerEp : ℤ) (s : Slots A) : SlotAction A → Slots A
  | .choose a => s.setPc a .chosen
  | .enter a now => s.enter maxConnPerEp a now
  | .connects a => s.setPc a .connected
  -- `eraser`, or the call of `erase`
  | .connectFails a => { s with listed := false }.setPc a .outside
  | .makesPipe a => s.setPc a .calling
  | .handshakeFails a => s.setPc a .outside
  | .returns a cache now => s.cleanup a (if cache then some now else none) false
  | .throws a => s.cleanup a none true
  | .erase => { s with listed := false }
  | .delete => { s with deleted := true }

instance [Fintype A] (doTls : Bool) (s : Slots A) (x : SlotAction A) :
    Decidable (s.enabled doTls x) :=
  match x with
  | .choose _ => inferInstanceAs (Decidable (_ ∧ _ ∧ _))
  | .enter _ _ => inferInstanceAs (Decidable (_ ∨ _))
  | .connects _ => inferInstanceAs (Decidable (_ = _))
  | .connectFails _ => inferInstanceAs (Decidable (_ = _))
  | .makesPipe _ => inferInstanceAs (Decidable (_ = _))
  | .handshakeFails _ => inferInstanceAs (Decidable (_ ∧ _))
  | .returns _ _ _ => inferInstanceAs (Decidable (_ = _))
  | .throws _ => inferInstanceAs (Decidable (_ = _))
  | .erase => isTrue trivial
  | .delete => inferInstanceAs (Decidable (_ ∧ ∀ _, _))

end Slots

/-- An endpoint right after its constructor, in the list of its cluster. -/
def slotsMachine (A : Type) [DecidableEq A] (maxConnPerEp : ℤ) (doTls : Bool) :
    Machine (Slots A) (SlotAction A) where
  init :=
    { outstandingRequests := 0
      socks := []
      error := false
      listed := true
      deleted := false
      pc := fun _ => .outside }
  enabled := Slots.enabled doTls
  next := Slots.next maxConnPerEp

instance {A : Type} [DecidableEq A] [Fintype A] (maxConnPerEp : ℤ) (doTls : Bool) (s : Slots A)
    (x : SlotAction A) : Decidable ((slotsMachine A maxConnPerEp doTls).enabled s x) :=
  inferInstanceAs (Decidable (s.enabled doTls x))

end Anon.Epc
