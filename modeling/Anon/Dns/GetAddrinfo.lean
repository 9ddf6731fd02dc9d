import Anon.Dns.Cache
import Anon.Epc.SockaddrIn6

/-!
# Resolving a name and waiting for it

`get_addrinfo`, which either takes an address out of the cache or waits until the cache calls it
back, over any interleaving of such calls, of `lookup_and_run`, of lookups that complete and of
sweeps.

* `setPort`, `memcpy`: what is done to an address on its way to the caller.
* `GetCall`: a call, with the variables of the caller that it fills in.
* `resolverMachine`: the cache and the calls.
-/

namespace Anon.Dns

open Epc (SockaddrIn6 AF_INET6)

/-! ## Addresses -/

/-- `htons(port)` in `sin6_port` or in `sin_port`, which are at the same place. -/
def setPort (addr : SockaddrIn6) (port : ℤ) : SockaddrIn6 :=
  ⟨(addr.bytes.set 2 (UInt8.ofNat (port % 2 ^ 16 / 2 ^ 8).toNat)).set 3
    (UInt8.ofNat (port % 2 ^ 8).toNat)⟩

/-- `memcpy(addr, from, n)` -/
def memcpy (addr source : SockaddrIn6) (n : ℕ) : SockaddrIn6 :=
  ⟨Vector.ofFn fun i => if i.val < n then source.bytes[i] else addr.bytes[i]⟩

/-- The `addrlen` that a callback is called with: `sizeof(sockaddr_in6)` or
`sizeof(sockaddr_in)`. -/
def addrlenOf (addr : SockaddrIn6) : ℕ := if addr.sin6Family = AF_INET6 then 28 else 16

/-- What `call_from_cache` fills in, if the entry is resolved and has an available address. -/
def Cache.cached {H A : Type*} (c : Cache H A) (host : H) (now : Timespec) : Option A :=
  let e := c.entryFor host
  match e.state with
  | .resolved =>
    match firstAvailable e.addrs e.last now (List.range e.addrs.length) forever with
    | .ok addr => some addr
    | .error _ => none
  | _ => none

/-! ## Calls -/

inductive GetPhase
  /-- In `cond.wait`. -/
  | waiting
  /-- The callback has run with this `err_code`. -/
  | informed (errCode : ℤ)
  | returned (ret : ℤ)
  | threw
  deriving DecidableEq

/-- The callback has run, and the fiber has not gone on. -/
def GetPhase.isInformed : GetPhase → Bool
  | .informed _ => true
  | _ => false

deriving instance DecidableEq for CallbackArg

/-- A call of `get_addrinfo`. -/
structure GetCall (H : Type) where
  host : H
  port : ℤ
  /-- What `*addrlen` was. -/
  addrlenBefore : ℕ
  /-- What the cache had for the call when it was made. -/
  cached : Option SockaddrIn6
  /-- `*addr` -/
  addr : SockaddrIn6
  /-- `*addrlen` -/
  addrlen : ℕ
  phase : GetPhase

variable {H : Type} [DecidableEq H]

/-- The callback `dnsc` of a call. -/
def GetCall.dnsc (call : GetCall H) : CallbackArg SockaddrIn6 → GetCall H
  | .error errCode => { call with phase := .informed errCode }
  -- the fiber sets the port, and then calls back
  | .addr addr port =>
    { call with
      addr := memcpy call.addr (setPort addr port) (addrlenOf (setPort addr port))
      addrlen := addrlenOf (setPort addr port)
      phase := .informed 0 }

/-- The end of `get_addrinfo`. -/
def GetCall.finish (call : GetCall H) (ret : ℤ) : GetCall H :=
  { call with
    addr := if ret = 0 then setPort call.addr call.port else call.addr
    phase := .returned ret }

/-- The cache, and the calls of `get_addrinfo` by their numbers. -/
structure Resolver (H : Type) where
  cache : Cache H SockaddrIn6
  calls : ℕ → Option (GetCall H)

inductive ResolverAction (H : Type)
  /-- `get_addrinfo`, up to the point where it waits or to its end. -/
  | getAddrinfo (host : H) (port : ℤ) (addr : SockaddrIn6) (addrlen : ℕ) (now : Timespec)
      (start : Option StartFailure)
  /-- A step of the cache that is not made by a call of `get_addrinfo`. -/
  | other (a : DnsAction H SockaddrIn6)
  /-- A fiber that was started for a callback. -/
  | callback (dnsc : ℕ) (arg : CallbackArg SockaddrIn6)
  /-- The fiber that has waited goes on. -/
  | wake (dnsc : ℕ)

namespace Resolver

def setCall (s : Resolver H) (n : ℕ) (call : GetCall H) : Resolver H :=
  { s with calls := Function.update s.calls n (some call) }

/-- `get_addrinfo`. Without an answer from the cache it throws or waits. -/
def getAddrinfo (s : Resolver H) (host : H) (port : ℤ) (addr : SockaddrIn6) (addrlen : ℕ)
    (now : Timespec) (start : Option StartFailure) : Resolver H :=
  let n := s.cache.calls
  let c := { s.cache with calls := n + 1 }
  let c' := c.call ⟨host, port, n⟩ now start
  match c.cached host now with
  | some found =>
    let call : GetCall H := ⟨host, port, addrlen, some found, found, addrlen, .waiting⟩
    -- nothing is started in a fiber
    { s with cache := { c' with ran := c.ran } }.setCall n (call.finish 0)
  | none =>
    let phase := if c'.threw = c.threw then GetPhase.waiting else .threw
    { s with cache := c' }.setCall n ⟨host, port, addrlen, none, addr, addrlen, phase⟩

end Resolver

/-- The failure of a call that starts a lookup, and the error of a lookup, are not 0. -/
def properErrors {A : Type} : DnsAction H A → Prop
  | .lookup _ _ _ start => ∀ failure ∈ start, failure.result ≠ 0
  | .retry _ _ start => ∀ failure ∈ start, failure.result ≠ 0
  | .complete _ (.error ret) _ => ret ≠ 0
  | .complete _ (.resolved _ _) _ => True
  | .sweep _ => True

namespace Resolver

def enabled (s : Resolver H) : ResolverAction H → Prop
  | .getAddrinfo _ _ _ _ now start =>
    timeMin ≤ now ∧ ∀ failure ∈ start, failure.result ≠ 0
  | .other a => s.cache.enabled a ∧ properErrors a
  | .callback dnsc arg =>
    (dnsc, arg) ∈ s.cache.ran ∧ (s.calls dnsc).map GetCall.phase = some .waiting
  | .wake dnsc => (s.calls dnsc).any (·.phase.isInformed) = true

def next (s : Resolver H) : ResolverAction H → Resolver H
  | .getAddrinfo host port addr addrlen now start => s.getAddrinfo host port addr addrlen now start
  | .other a => { s with cache := s.cache.next a }
  | .callback dnsc arg =>
    match s.calls dnsc with
    | some call => s.setCall dnsc (call.dnsc arg)
    | none => s
  | .wake dnsc =>
    match s.calls dnsc with
    | some call =>
      match call.phase with
      | .informed ret => s.setCall dnsc (call.finish ret)
      | _ => s
    | none => s

end Resolver

instance {A : Type} (a : DnsAction H A) : Decidable (properErrors a) :=
  match a with
  | .lookup _ _ _ start => inferInstanceAs (Decidable (∀ failure ∈ start, failure.result ≠ 0))
  | .retry _ _ start => inferInstanceAs (Decidable (∀ failure ∈ start, failure.result ≠ 0))
  | .complete _ (.error ret) _ => inferInstanceAs (Decidable (ret ≠ 0))
  | .complete _ (.resolved _ _) _ => isTrue trivial
  | .sweep _ => isTrue trivial

instance Resolver.instDecidableEnabled (s : Resolver H) (x : ResolverAction H) :
    Decidable (s.enabled x) :=
  match x with
  | .getAddrinfo _ _ _ _ now start =>
    inferInstanceAs (Decidable (timeMin ≤ now ∧ ∀ failure ∈ start, failure.result ≠ 0))
  | .other a => inferInstanceAs (Decidable (s.cache.enabled a ∧ properErrors a))
  | .callback dnsc arg => inferInstanceAs (Decidable ((dnsc, arg) ∈ s.cache.ran ∧ _ = _))
  | .wake _ => inferInstanceAs (Decidable (_ = true))

/-- An empty cache, and no calls. -/
def resolverMachine (H : Type) [DecidableEq H] : Machine (Resolver H) (ResolverAction H) where
  init := ⟨(dnsMachine H SockaddrIn6).init, fun _ => none⟩
  enabled := Resolver.enabled
  next := Resolver.next

instance (s : Resolver H) (x : ResolverAction H) : Decidable ((resolverMachine H).enabled s x) :=
  s.instDecidableEnabled x

end Anon.Dns
