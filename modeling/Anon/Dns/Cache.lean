import Mathlib
import Anon.Timespec
import Anon.Lib.Machine

/-!
# The DNS cache

`dns_cache.cpp`: calls of `lookup_and_run`, the completion of asynchronous lookups, and the sweep
of old entries. Each of them runs under `dns_map_mutex` and is one step; a fiber that is started
for a callback is recorded where it is started.

* `DnsEntry`: an entry of `dns_map`.
* `Cache`: the entries, the lookups in flight, and the outcomes of the calls so far.
* `Cache.call`: `lookup_and_run`, with the result of starting a lookup as a parameter.
* `Cache.resolveComplete`, `Cache.sweep`: the other steps.
* `dnsMachine`: any interleaving of them.
-/

namespace Anon.Dns

/-! ## Entries -/

inductive EntryState
  | init
  | inProgress
  | resolved
  | failedResolve
  deriving DecidableEq

/-- `dns_entry::addr` -/
structure AddrRecord (A : Type*) where
  addr : A
  nextAvailTime : Timespec
  valid : Bool

/-- A callback with its call; `dnsc` is the number of the call. -/
structure PendingCall (H : Type*) where
  host : H
  port : ℤ
  dnsc : ℕ

structure DnsEntry (H A : Type*) where
  /-- Where the entry is in memory. -/
  address : ℕ
  addrs : List (AddrRecord A)
  pendingCallers : List (PendingCall H)
  last : ℤ
  state : EntryState
  whenResolved : Timespec

/-- `notify_complete`, with the address of the entry that it belongs to. -/
structure NotifyComplete (H : Type*) where
  host : H
  entry : ℕ
  deriving DecidableEq

/-- What a callback is called with. -/
inductive CallbackArg (A : Type*)
  | error (errCode : ℤ)
  | addr (addr : A) (port : ℤ)

def cacheLifeSeconds : ℤ := 120

/-- The `next_avail_time_` of a new address. -/
def timeMin : Timespec := ⟨-2 ^ 63, 0⟩

def forever : Timespec := ⟨2 ^ 63 - 1, 1000000000 - 1⟩

/-- The constructor of `addr`. -/
def AddrRecord.new {A : Type*} (addr : A) : AddrRecord A := ⟨addr, timeMin, true⟩

/-- The call that fails when a lookup is started, with its result. -/
inductive StartFailure
  | attrInit (rslt : ℤ)
  | attrSetstacksize (rslt : ℤ)
  | getaddrinfo (ret : ℤ)

def StartFailure.result : StartFailure → ℤ
  | .attrInit rslt => rslt
  | .attrSetstacksize rslt => rslt
  | .getaddrinfo ret => ret

/-- What `gai_error` says of a lookup that has completed, and the addresses that were found: at
least one. -/
inductive LookupResult (A : Type*)
  | error (ret : ℤ)
  | resolved (first : A) (rest : List A)

/-- `(start_index + i) % addrs_.size()`, where the sum is converted to 64 bits. -/
def rotate (startIndex : ℤ) (i size : ℕ) : ℕ := ((startIndex + i) % 2 ^ 64).toNat % size

/-- The loop of `call_from_cache` over the given `i`: an address, or the earliest time at which
there is one. -/
def firstAvailable {A : Type*} (addrs : List (AddrRecord A)) (startIndex : ℤ) (now : Timespec) :
    List ℕ → Timespec → Except Timespec A
  | [], earliest => .error earliest
  | i :: rest, earliest =>
    match addrs[rotate startIndex i addrs.length]? with
    | none => firstAvailable addrs startIndex now rest earliest
    | some a =>
      if !a.valid then firstAvailable addrs startIndex now rest earliest
      else if a.nextAvailTime ≤ now then .ok a.addr
      else firstAvailable addrs startIndex now rest (min earliest a.nextAvailTime)

/-! ## The cache -/

structure Cache (H A : Type*) where
  dnsMap : H → Option (DnsEntry H A)
  /-- The addresses below are in use or have been. -/
  allocated : ℕ
  inFlight : List (NotifyComplete H)
  /-- Calls that a timer task makes again. -/
  scheduled : List (PendingCall H × Timespec)
  /-- The number of calls so far, which is the number of the next call. -/
  calls : ℕ
  /-- The callbacks that were started in a fiber. -/
  ran : List (ℕ × CallbackArg A)
  /-- The calls that threw. -/
  threw : List ℕ

namespace Cache

variable {H A : Type*} [DecidableEq H]

/-- `dns_map[host]` -/
def entryFor (c : Cache H A) (host : H) : DnsEntry H A :=
  match c.dnsMap host with
  | some e => e
  | none => ⟨c.allocated, [], [], 0, .init, ⟨0, 0⟩⟩

def setEntry (c : Cache H A) (host : H) (e : DnsEntry H A) : Cache H A :=
  { c with dnsMap := Function.update c.dnsMap host (some e) }

/-- `initiate_lookup`. If the lookup cannot be started the callback is informed, the entry is
erased, and the call throws. -/
def initiateLookup (c : Cache H A) (e : DnsEntry H A) (pc : PendingCall H) :
    Option StartFailure → Cache H A
  | none =>
    { c.setEntry pc.host
        { e with state := .inProgress, pendingCallers := e.pendingCallers ++ [pc] } with
      allocated := c.allocated + 1
      inFlight := c.inFlight ++ [⟨pc.host, e.address⟩] }
  | some failure =>
    { c with
      dnsMap := Function.update c.dnsMap pc.host none
      allocated := c.allocated + 1
      ran := c.ran ++ [(pc.dnsc, .error failure.result)]
      threw := c.threw ++ [pc.dnsc] }

/-- `call_from_cache`, and the immediate call of `lookup_and_run`. -/
def callFromCache (c : Cache H A) (e : DnsEntry H A) (pc : PendingCall H) (now : Timespec) :
    Cache H A :=
  let c := c.setEntry pc.host { e with last := Int.bmod (e.last + 1) (2 ^ 32) }
  match firstAvailable e.addrs e.last now (List.range e.addrs.length) forever with
  | .ok addr => { c with ran := c.ran ++ [(pc.dnsc, .addr addr pc.port)] }
  | .error earliest => { c with scheduled := c.scheduled ++ [(pc, earliest)] }

/-- `lookup_and_run`, with the result of starting a lookup if one is started. -/
def call (c : Cache H A) (pc : PendingCall H) (now : Timespec) (start : Option StartFailure) :
    Cache H A :=
  let e := c.entryFor pc.host
  match e.state with
  | .init => c.initiateLookup e pc start
  | .inProgress =>
    c.setEntry pc.host { e with pendingCallers := e.pendingCallers ++ [pc] }
  | .resolved => c.callFromCache e pc now
  | .failedResolve => { c with threw := c.threw ++ [pc.dnsc] }

/-- The callbacks of the queued calls, the last one first, with the addresses in turn. -/
def runPending (pending : List (PendingCall H)) (addrs : List (AddrRecord A))
    (first : AddrRecord A) : List (ℕ × CallbackArg A) :=
  pending.reverse.zipIdx.map fun (pc, i) =>
    (pc.dnsc, .addr (addrs.getD (i % addrs.length) first).addr pc.port)

/-- `resolve_complete`. An entry at another address is not the one that the lookup belongs to. -/
def resolveComplete (c : Cache H A) (nc : NotifyComplete H) (result : LookupResult A)
    (now : Timespec) : Cache H A :=
  let c := { c with inFlight := c.inFlight.erase nc }
  match c.dnsMap nc.host with
  | none => c
  | some e =>
    if e.address ≠ nc.entry then c
    else
      match result with
      | .error ret =>
        { c with
          dnsMap := Function.update c.dnsMap nc.host none
          ran := c.ran ++ e.pendingCallers.reverse.map fun pc => (pc.dnsc, .error ret) }
      | .resolved first rest =>
        let addrs := e.addrs ++ (first :: rest).map AddrRecord.new
        { c.setEntry nc.host { e with
            addrs := addrs, pendingCallers := [], whenResolved := now, state := .resolved } with
          ran := c.ran ++ runPending e.pendingCallers addrs (.new first) }

/-- What `sweep_old_cache_entries` erases. -/
def expired (e : DnsEntry H A) (now : Timespec) : Bool :=
  decide (e.state = .resolved ∧ e.whenResolved < ⟨now.sec - cacheLifeSeconds, now.nsec⟩)

/-- `sweep_old_cache_entries` -/
def sweep (c : Cache H A) (now : Timespec) : Cache H A :=
  { c with dnsMap := fun host => (c.dnsMap host).filter fun e => !expired e now }

end Cache

/-! ## Interleavings -/

inductive DnsAction (H A : Type*)
  | lookup (host : H) (port : ℤ) (now : Timespec) (start : Option StartFailure)
  | retry (i : ℕ) (now : Timespec) (start : Option StartFailure)
  | complete (nc : NotifyComplete H) (result : LookupResult A) (now : Timespec)
  | sweep (now : Timespec)

variable {H A : Type*} [DecidableEq H]

/-- The action can be taken, at a time that a `timespec` can hold. -/
def Cache.enabled (c : Cache H A) : DnsAction H A → Prop
  | .lookup _ _ now _ => timeMin ≤ now
  | .retry i now _ => timeMin ≤ now ∧ ∃ task ∈ c.scheduled[i]?, task.2 ≤ now
  | .complete nc _ _ => nc ∈ c.inFlight
  | .sweep _ => True

def Cache.next (c : Cache H A) : DnsAction H A → Cache H A
  | .lookup host port now start =>
    { c with calls := c.calls + 1 }.call ⟨host, port, c.calls⟩ now start
  | .retry i now start =>
    match c.scheduled[i]? with
    | some task => { c with scheduled := c.scheduled.eraseIdx i }.call task.1 now start
    | none => c
  | .complete nc result now => c.resolveComplete nc result now
  | .sweep now => c.sweep now

instance Cache.instDecidableEnabled (c : Cache H A) (a : DnsAction H A) :
    Decidable (c.enabled a) :=
  match a with
  | .lookup _ _ now _ => inferInstanceAs (Decidable (timeMin ≤ now))
  | .retry i now _ =>
    inferInstanceAs (Decidable (timeMin ≤ now ∧ ∃ task ∈ c.scheduled[i]?, task.2 ≤ now))
  | .complete nc _ _ => inferInstanceAs (Decidable (nc ∈ c.inFlight))
  | .sweep _ => isTrue trivial

/-- The cache, empty at first. -/
def dnsMachine (H A : Type*) [DecidableEq H] : Machine (Cache H A) (DnsAction H A) where
  init := ⟨fun _ => none, 0, [], [], 0, [], []⟩
  enabled := Cache.enabled
  next := Cache.next

instance instDecidableDns (c : Cache H A) (a : DnsAction H A) :
    Decidable ((dnsMachine H A).enabled c a) :=
  c.instDecidableEnabled a

end Anon.Dns
