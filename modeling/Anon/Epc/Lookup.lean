import Anon.Lib.Machine
import Anon.Lib.OrderedMap

/-!
# Waiting for the endpoints of a cluster

The part of `endpoint_cluster` that `mtx_` protects: the first block of `do_with_connected_pipe`,
`update_endpoints`, and the functions that remove endpoints. What happens from locking `mtx_` to
unlocking it or to `cond_.wait` is one action. Points in time are numbers of nanoseconds, and
whether the last lookup was too long ago is a parameter of the action that asks.
-/

namespace Anon.Epc

/-- An `endpoint`; the number stands for the object. -/
structure Endpoint (Addr : Type) where
  id : ℕ
  addr : Addr
  lastLookupTime : ℤ
  deriving DecidableEq

/-- What `lookup_err_` says. -/
inductive LookupErr
  | dnsLookupFailed
  | eraseAllEndpoints
  deriving DecidableEq

/-- Where a call of `do_with_connected_pipe` is. -/
inductive LookupPc
  /-- Anywhere else. -/
  | outside
  /-- In `cond_.wait`. -/
  | asleep
  /-- Notified, and about to lock `mtx_` again. -/
  | notified
  /-- Has chosen an endpoint. -/
  | chosen (endpoint : ℕ)
  /-- Has thrown `lookup_err_`. -/
  | threw (e : LookupErr)
  deriving DecidableEq

/-- The first block is over. -/
def LookupPc.done : LookupPc → Bool
  | .chosen _ => true
  | .threw _ => true
  | _ => false

structure Cluster (Addr A : Type) where
  endpoints : List (Endpoint Addr)
  lookingUpEndpoints : Bool
  lookupErr : Option LookupErr
  roundRobinIndex : ℕ
  /-- How many `endpoint` objects were made. -/
  made : ℕ
  /-- A fiber for `update_endpoints` was started and has not finished. -/
  inFlight : Bool
  pc : A → LookupPc

inductive LookupAction (Addr A : Type)
  /-- Lock `mtx_` and ask for an endpoint; `old`: the last lookup was too long ago. -/
  | enter (a : A) (old : Bool)
  /-- Lock `mtx_` again after `cond_.wait`. -/
  | wake (a : A)
  /-- Return from `do_with_connected_pipe`, or begin again. -/
  | leave (a : A)
  /-- `update_endpoints` with the addresses that were found, each with the time at which an
  endpoint for it would be made. -/
  | lookupSucceeds (now : ℤ) (addrs : List (Addr × ℤ))
  | lookupFails
  /-- `get_addrinfo` throws, because `dns_lookup` was not started. -/
  | lookupThrows
  | erase (endpoint : ℕ)
  | deleteCachedEndpoints
  | eraseAllEndpoints

namespace Cluster

variable {Addr A : Type} [LinearOrder Addr] [DecidableEq A]

/-- The loop of `update_endpoints` over the addresses. -/
def addAddr (now : ℤ) (m : OrderedMap Addr (Endpoint Addr) × ℕ) (addr : Addr × ℤ) :
    OrderedMap Addr (Endpoint Addr) × ℕ :=
  match m.1.get addr.1 with
  | none => (m.1.alter addr.1 fun _ => ⟨m.2, addr.1, addr.2⟩, m.2 + 1)
  | some _ =>
    (m.1.alter addr.1 fun ep =>
      { ep.getD ⟨m.2, addr.1, addr.2⟩ with lastLookupTime := now }, m.2)

/-- The map of the endpoints that are known and of the ones that were found. -/
def unionEndpoints (s : Cluster Addr A) (now : ℤ) (addrs : List (Addr × ℤ)) :
    OrderedMap Addr (Endpoint Addr) × ℕ :=
  let known := s.endpoints.foldl (fun m ep => OrderedMap.alter ep.addr (·.getD ep) m) []
  addrs.foldl (addAddr now) (known, s.made)

/-- Wake all fibers that wait. -/
def notifyAll (s : Cluster Addr A) : Cluster Addr A :=
  { s with pc := fun a => if s.pc a = .asleep then .notified else s.pc a }

def setPc (s : Cluster Addr A) (a : A) (pc : LookupPc) : Cluster Addr A :=
  { s with pc := Function.update s.pc a pc }

/-- `lookup_frequency_in_seconds_ * 10`, in nanoseconds. -/
def maxAge (frequency : ℤ) : ℤ := frequency * 10 * 1000000000

/-- `update_endpoints` behind `get_addrinfo`; the last lines are those of both cases. -/
def updateEndpoints (frequency : ℤ) (s : Cluster Addr A) (now : ℤ) (addrs : List (Addr × ℤ)) :
    Cluster Addr A :=
  let s' :=
    if addrs = [] then { s with lookupErr := some .dnsLookupFailed }
    else
      let m := s.unionEndpoints now addrs
      { s with
        endpoints := (m.1.filter fun e => ¬e.2.lastLookupTime < now - maxAge frequency).map Prod.snd
        made := m.2 }
  { s' with lookingUpEndpoints := false, inFlight := false }.notifyAll

/-- Take the next endpoint; there is one. -/
def choose (s : Cluster Addr A) (a : A) : Cluster Addr A :=
  match s.endpoints[s.roundRobinIndex % s.endpoints.length]? with
  | some ep => { s with roundRobinIndex := s.roundRobinIndex + 1 }.setPc a (.chosen ep.id)
  | none => s

/-- Start a lookup unless one is in flight. -/
def startLookup (s : Cluster Addr A) : Cluster Addr A :=
  if s.lookingUpEndpoints then s
  else { s with lookingUpEndpoints := true, lookupErr := none, inFlight := true }

/-- The test of the `while` loop. -/
def waitOrChoose (s : Cluster Addr A) (a : A) : Cluster Addr A :=
  if s.endpoints = [] then s.setPc a .asleep else s.choose a

def enabled (s : Cluster Addr A) : LookupAction Addr A → Prop
  | .enter a _ => s.pc a = .outside
  | .wake a => s.pc a = .notified
  | .leave a => (s.pc a).done = true
  | .lookupSucceeds now addrs => s.inFlight = true ∧ addrs ≠ [] ∧ ∀ addr ∈ addrs, now ≤ addr.2
  | .lookupFails => s.inFlight = true
  | .lookupThrows => s.inFlight = true
  | .erase _ => True
  | .deleteCachedEndpoints => True
  | .eraseAllEndpoints => True

def next (frequency : ℤ) (s : Cluster Addr A) : LookupAction Addr A → Cluster Addr A
  | .enter a old =>
    if s.endpoints = [] ∨ old = true then s.startLookup.waitOrChoose a else s.choose a
  | .wake a =>
    match s.lookupErr with
    | some e => s.setPc a (.threw e)
    | none => s.waitOrChoose a
  | .leave a => s.setPc a .outside
  | .lookupSucceeds now addrs => s.updateEndpoints frequency now addrs
  | .lookupFails => s.updateEndpoints frequency 0 []
  | .lookupThrows => { s with inFlight := false }
  | .erase endpoint => { s with endpoints := s.endpoints.eraseP fun ep => ep.id = endpoint }
  | .deleteCachedEndpoints => { s with endpoints := [] }
  | .eraseAllEndpoints => { s with endpoints := [], lookupErr := some .eraseAllEndpoints }

instance (s : Cluster Addr A) (x : LookupAction Addr A) : Decidable (s.enabled x) :=
  match x with
  | .enter _ _ => inferInstanceAs (Decidable (_ = _))
  | .wake _ => inferInstanceAs (Decidable (_ = _))
  | .leave _ => inferInstanceAs (Decidable (_ = _))
  | .lookupSucceeds _ _ => inferInstanceAs (Decidable (_ ∧ _ ∧ ∀ addr ∈ _, _))
  | .lookupFails => inferInstanceAs (Decidable (_ = _))
  | .lookupThrows => inferInstanceAs (Decidable (_ = _))
  | .erase _ => isTrue trivial
  | .deleteCachedEndpoints => isTrue trivial
  | .eraseAllEndpoints => isTrue trivial

end Cluster

/-- A cluster right after its constructor. -/
def lookupMachine (Addr A : Type) [LinearOrder Addr] [DecidableEq A] (frequency : ℤ) :
    Machine (Cluster Addr A) (LookupAction Addr A) where
  init :=
    { endpoints := []
      lookingUpEndpoints := false
      lookupErr := none
      roundRobinIndex := 0
      made := 0
      inFlight := false
      pc := fun _ => .outside }
  enabled := Cluster.enabled
  next := Cluster.next frequency

instance {Addr A : Type} [LinearOrder Addr] [DecidableEq A] (frequency : ℤ) (s : Cluster Addr A)
    (x : LookupAction Addr A) : Decidable ((lookupMachine Addr A frequency).enabled s x) :=
  inferInstanceAs (Decidable (s.enabled x))

end Anon.Epc
