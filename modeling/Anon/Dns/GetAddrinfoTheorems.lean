import Anon.Dns.GetAddrinfo

/-!
# When cached and fresh resolutions agree

* `Found`: the addresses that a lookup has found for a host.
* `CacheHolds`: addresses in the cache and in its callbacks were found, and callbacks belong to the
  calls they were made for.
* `CallHolds`: what a call has filled in.
* `agrees_iff`: a call that reports success agrees with what is meant, if it has waited or has
  brought the length along.
-/

namespace Anon.Dns

open Epc (SockaddrIn6 AF_INET6)

/-! ## Addresses -/

variable {a b : SockaddrIn6} {n : ℕ} {port : ℤ}

/-- The port is behind the family. -/
theorem family_setPort (a : SockaddrIn6) (port : ℤ) :
    (setPort a port).sin6Family = a.sin6Family := by
  simp [setPort, SockaddrIn6.sin6Family]

theorem addrlenOf_congr (h : a.sin6Family = b.sin6Family) : addrlenOf a = addrlenOf b := by
  unfold addrlenOf
  rw [h]

theorem addrlenOf_setPort (a : SockaddrIn6) (port : ℤ) :
    addrlenOf (setPort a port) = addrlenOf a :=
  addrlenOf_congr (family_setPort a port)

/-- Bytes other than those of the port stay. -/
theorem getElem_setPort (a : SockaddrIn6) (port : ℤ) {i : ℕ} (hi : i < 28) :
    (setPort a port).bytes[i] =
      if i = 3 then UInt8.ofNat (port % 2 ^ 8).toNat
      else if i = 2 then UInt8.ofNat (port % 2 ^ 16 / 2 ^ 8).toNat
      else a.bytes[i] := by
  unfold setPort
  rw [Vector.getElem_set, Vector.getElem_set]
  by_cases h3 : i = 3
  · rw [if_pos h3, if_pos h3.symm]
  · rw [if_neg h3, if_neg (Ne.symm h3)]
    by_cases h2 : i = 2
    · rw [if_pos h2, if_pos h2.symm]
    · rw [if_neg h2, if_neg (Ne.symm h2)]

theorem addrlenOf_bounds (a : SockaddrIn6) : 16 ≤ addrlenOf a ∧ addrlenOf a ≤ 28 := by
  unfold addrlenOf
  split
  · omega
  · omega

/-- Addresses with the same bytes, as far as they are compared. -/
theorem same_of_bytes (h : ∀ i (hi : i < 28), i < addrlenOf b → a.bytes[i] = b.bytes[i]) :
    a.same b = true ∧ a.sin6Family = b.sin6Family := by
  have hlen := addrlenOf_bounds b
  have hfamily : a.sin6Family = b.sin6Family := by
    unfold SockaddrIn6.sin6Family
    rw [h 0 (by omega) (by omega), h 1 (by omega) (by omega)]
  refine ⟨?_, hfamily⟩
  rw [SockaddrIn6.same_iff, SockaddrIn6.address, SockaddrIn6.address, hfamily,
    SockaddrIn6.sz_eq hfamily]
  congr 3
  apply List.ext_getElem
  · rw [List.length_take, List.length_take, Vector.length_toList, Vector.length_toList]
  · intro i hi _
    rw [List.length_take, Vector.length_toList, lt_min_iff] at hi
    rw [List.getElem_take, List.getElem_take, Vector.getElem_toList, Vector.getElem_toList]
    exact h i hi.2 hi.1

/-- An address that was copied, and whose port was set again. -/
theorem same_memcpy (a b : SockaddrIn6) (port : ℤ) :
    (setPort (memcpy a (setPort b port) (addrlenOf (setPort b port))) port).same
        (setPort b port) = true ∧
      addrlenOf (setPort (memcpy a (setPort b port) (addrlenOf (setPort b port))) port) =
        addrlenOf b := by
  obtain ⟨hsame, hfamily⟩ : (setPort (memcpy a (setPort b port) (addrlenOf (setPort b port)))
      port).same (setPort b port) = true ∧ (setPort (memcpy a (setPort b port)
      (addrlenOf (setPort b port))) port).sin6Family = (setPort b port).sin6Family := by
    apply same_of_bytes
    intro i hi hlt
    have hcopy : (memcpy a (setPort b port) (addrlenOf (setPort b port))).bytes[i] =
        (setPort b port).bytes[i] := by
      unfold memcpy
      rw [Vector.getElem_ofFn, if_pos hlt]
      rfl
    rw [getElem_setPort, hcopy, getElem_setPort]
    -- the port was there already
    split
    · rfl
    · split
      · rfl
      · rfl
  refine ⟨hsame, ?_⟩
  rw [addrlenOf_congr hfamily, addrlenOf_setPort]

/-! ## The cache -/

section Cache

variable {H A : Type} {R R' : H → A → Prop} {P P' : ℕ → H → ℤ → Prop} {c : Cache H A}
variable {now : Timespec} {start : Option StartFailure} {pc : PendingCall H}

/-- `R`: an address was found for a host. `P`: the call of that number is for a host and a
port. -/
structure CacheHolds (R : H → A → Prop) (P : ℕ → H → ℤ → Prop) (c : Cache H A) : Prop where
  addrs : ∀ host e, c.dnsMap host = some e → ∀ r ∈ e.addrs, R host r.addr
  pending : ∀ host e, c.dnsMap host = some e → ∀ pc ∈ e.pendingCallers, P pc.dnsc host pc.port
  scheduled : ∀ task ∈ c.scheduled, P task.1.dnsc task.1.host task.1.port
  ran : ∀ n addr port, (n, .addr addr port) ∈ c.ran → ∃ host, P n host port ∧ R host addr
  failed : ∀ n errCode, (n, .error errCode) ∈ c.ran → errCode ≠ 0

/-- More may have been found, and more calls made. -/
theorem CacheHolds.mono (h : CacheHolds R P c) (hR : ∀ host a, R host a → R' host a)
    (hP : ∀ n host port, P n host port → P' n host port) : CacheHolds R' P' c where
  addrs := fun host e he r hr => hR _ _ (h.addrs host e he r hr)
  pending := fun host e he pc hpc => hP _ _ _ (h.pending host e he pc hpc)
  scheduled := fun task htask => hP _ _ _ (h.scheduled task htask)
  ran := by
    intro n addr port hmem
    obtain ⟨host, hcall, haddr⟩ := h.ran n addr port hmem
    exact ⟨host, hP _ _ _ hcall, hR _ _ haddr⟩
  failed := h.failed

/-- What `call_from_cache` takes is an address of the entry. -/
theorem mem_of_firstAvailable {addrs : List (AddrRecord A)} {startIndex : ℤ} {indices : List ℕ}
    {earliest : Timespec} {a : A}
    (h : firstAvailable addrs startIndex now indices earliest = .ok a) :
    ∃ r ∈ addrs, r.addr = a := by
  induction indices generalizing earliest with
  | nil => exact absurd h (by simp [firstAvailable])
  | cons i indices ih =>
    rw [firstAvailable] at h
    split at h
    · exact ih h
    · next r hr =>
      split at h
      · exact ih h
      · split at h
        · exact ⟨r, List.mem_of_getElem? hr, Except.ok.inj h⟩
        · exact ih h

variable [DecidableEq H]

/-- The entries after a change of one of them. -/
theorem CacheHolds.entries (h : CacheHolds R P c) (host : H) (e : Option (DnsEntry H A))
    (haddrs : ∀ e' ∈ e, ∀ r ∈ e'.addrs, R host r.addr)
    (hpending : ∀ e' ∈ e, ∀ pc ∈ e'.pendingCallers, P pc.dnsc host pc.port) :
    CacheHolds R P { c with dnsMap := Function.update c.dnsMap host e } where
  addrs := by
    intro host' e' he'
    by_cases hhost : host' = host
    · rw [hhost]
      rw [hhost] at he'
      exact haddrs e' (Function.update_self host e c.dnsMap ▸ he')
    · exact h.addrs host' e' (Function.update_of_ne hhost e c.dnsMap ▸ he')
  pending := by
    intro host' e' he'
    by_cases hhost : host' = host
    · rw [hhost]
      rw [hhost] at he'
      exact hpending e' (Function.update_self host e c.dnsMap ▸ he')
    · exact h.pending host' e' (Function.update_of_ne hhost e c.dnsMap ▸ he')
  scheduled := h.scheduled
  ran := h.ran
  failed := h.failed

omit [DecidableEq H] in
/-- The entry that a call finds or makes. -/
theorem CacheHolds.entryFor (h : CacheHolds R P c) (host : H) :
    (∀ r ∈ (c.entryFor host).addrs, R host r.addr) ∧
      ∀ pc ∈ (c.entryFor host).pendingCallers, P pc.dnsc host pc.port := by
  unfold Cache.entryFor
  cases he : c.dnsMap host with
  | none => exact ⟨fun _ hr => absurd hr List.not_mem_nil, fun _ hpc => absurd hpc List.not_mem_nil⟩
  | some e => exact ⟨h.addrs host e he, h.pending host e he⟩

/-- `lookup_and_run` and the call in `get_addrinfo`. -/
theorem CacheHolds.call (h : CacheHolds R P c) (pc : PendingCall H) (now : Timespec)
    (hpc : P pc.dnsc pc.host pc.port)
    (hstart : ∀ failure ∈ start, failure.result ≠ 0) : CacheHolds R P (c.call pc now start) := by
  obtain ⟨haddrs, hpending⟩ := h.entryFor pc.host
  have hqueued (pc' : PendingCall H) (hmem : pc' ∈ (c.entryFor pc.host).pendingCallers ++ [pc]) :
      P pc'.dnsc pc.host pc'.port := by
    obtain hmem | hmem := List.mem_append.mp hmem
    · exact hpending pc' hmem
    · rw [List.mem_singleton.mp hmem]
      exact hpc
  unfold Cache.call
  simp only
  split
  -- the lookup starts, or the callback is told that it does not
  · cases start with
    | none =>
      have hentry := h.entries pc.host (some { c.entryFor pc.host with
        state := .inProgress, pendingCallers := (c.entryFor pc.host).pendingCallers ++ [pc] })
        (by rintro _ ⟨⟩; exact haddrs) (by rintro _ ⟨⟩; exact hqueued)
      exact ⟨hentry.addrs, hentry.pending, hentry.scheduled, hentry.ran, hentry.failed⟩
    | some failure =>
      have hentry := h.entries pc.host none (fun _ he => absurd he (by simp))
        (fun _ he => absurd he (by simp))
      refine ⟨hentry.addrs, hentry.pending, hentry.scheduled, fun n addr port hmem => ?_,
        fun n errCode hmem => ?_⟩
      · obtain hmem | hmem := List.mem_append.mp hmem
        · exact h.ran n addr port hmem
        · exact absurd hmem (by simp)
      · obtain hmem | hmem := List.mem_append.mp hmem
        · exact h.failed n errCode hmem
        · have heq := List.mem_singleton.mp hmem
          rw [CallbackArg.error.inj (Prod.mk.inj heq).2]
          exact hstart failure rfl
  · exact h.entries _ _ (by rintro _ ⟨⟩; exact haddrs) (by rintro _ ⟨⟩; exact hqueued)
  · have hentry := h.entries pc.host (some { c.entryFor pc.host with
      last := Int.bmod ((c.entryFor pc.host).last + 1) (2 ^ 32) })
      (by rintro _ ⟨⟩; exact haddrs) (by rintro _ ⟨⟩; exact hpending)
    unfold Cache.callFromCache
    simp only
    split
    · next a ha =>
      refine ⟨hentry.addrs, hentry.pending, hentry.scheduled, fun n addr port hmem => ?_,
        fun n errCode hmem => ?_⟩
      · obtain hmem | hmem := List.mem_append.mp hmem
        · exact h.ran n addr port hmem
        · obtain ⟨rfl, heq⟩ := Prod.mk.inj (List.mem_singleton.mp hmem)
          obtain ⟨rfl, rfl⟩ := CallbackArg.addr.inj heq
          obtain ⟨r, hr, rfl⟩ := mem_of_firstAvailable ha
          exact ⟨pc.host, hpc, haddrs r hr⟩
      · obtain hmem | hmem := List.mem_append.mp hmem
        · exact h.failed n errCode hmem
        · exact absurd hmem (by simp)
    · refine ⟨hentry.addrs, hentry.pending, fun task htask => ?_, hentry.ran, hentry.failed⟩
      obtain htask | htask := List.mem_append.mp htask
      · exact h.scheduled task htask
      · rw [List.mem_singleton.mp htask]
        exact hpc
  · exact ⟨h.addrs, h.pending, h.scheduled, h.ran, h.failed⟩

omit [DecidableEq H] in
/-- The callbacks of the queued calls are called with addresses of the entry. -/
theorem mem_runPending {pending : List (PendingCall H)} {addrs : List (AddrRecord A)}
    {first : AddrRecord A} (hfirst : first ∈ addrs) {x : ℕ × CallbackArg A}
    (hx : x ∈ Cache.runPending pending addrs first) :
    ∃ pc ∈ pending, ∃ r ∈ addrs, x = (pc.dnsc, .addr r.addr pc.port) := by
  obtain ⟨⟨pc, i⟩, hmem, rfl⟩ := List.mem_map.mp hx
  have hpc : pc ∈ pending := List.mem_reverse.mp (List.fst_mem_of_mem_zipIdx hmem)
  refine ⟨pc, hpc, addrs.getD (i % addrs.length) first, ?_, rfl⟩
  rw [List.getD_eq_getElem?_getD]
  cases haddr : addrs[i % addrs.length]? with
  | none => exact hfirst
  | some r => exact List.mem_of_getElem? haddr

/-- A lookup completes. -/
theorem CacheHolds.resolveComplete (h : CacheHolds R P c) {nc : NotifyComplete H}
    {result : LookupResult A} (herror : ∀ ret, result = .error ret → ret ≠ 0)
    (hresult : ∀ first rest, result = .resolved first rest → ∀ a ∈ first :: rest, R nc.host a) :
    CacheHolds R P (c.resolveComplete nc result now) := by
  have hflight : CacheHolds R P { c with inFlight := c.inFlight.erase nc } :=
    ⟨h.addrs, h.pending, h.scheduled, h.ran, h.failed⟩
  unfold Cache.resolveComplete
  simp only
  split
  · exact hflight
  · next e he =>
    split
    · exact hflight
    · split
      · next ret =>
        have hentry := hflight.entries nc.host none
          (fun _ he => absurd he (by simp)) (fun _ he => absurd he (by simp))
        refine ⟨hentry.addrs, hentry.pending, hentry.scheduled, fun n addr port hmem => ?_,
          fun n errCode hmem => ?_⟩
        · obtain hmem | hmem := List.mem_append.mp hmem
          · exact h.ran n addr port hmem
          · obtain ⟨pc, -, heq⟩ := List.mem_map.mp hmem
            exact absurd (Prod.mk.inj heq).2 (by simp)
        · obtain hmem | hmem := List.mem_append.mp hmem
          · exact h.failed n errCode hmem
          · obtain ⟨pc, -, heq⟩ := List.mem_map.mp hmem
            rw [← CallbackArg.error.inj (Prod.mk.inj heq).2]
            exact herror ret rfl
      · next first rest =>
        have haddrs : ∀ r ∈ e.addrs ++ (first :: rest).map AddrRecord.new, R nc.host r.addr := by
          intro r hr
          obtain hr | hr := List.mem_append.mp hr
          · exact h.addrs nc.host e he r hr
          · obtain ⟨a, ha, rfl⟩ := List.mem_map.mp hr
            exact hresult first rest rfl a ha
        have hentry := hflight.entries nc.host (some { e with
          addrs := e.addrs ++ (first :: rest).map AddrRecord.new
          pendingCallers := []
          whenResolved := now
          state := .resolved }) (by rintro _ ⟨⟩; exact haddrs)
          (by rintro _ ⟨⟩ pc hpc; exact absurd hpc List.not_mem_nil)
        have hfirst : AddrRecord.new first ∈ e.addrs ++ (first :: rest).map AddrRecord.new :=
          List.mem_append_right _ (List.mem_map_of_mem List.mem_cons_self)
        refine ⟨hentry.addrs, hentry.pending, hentry.scheduled, fun n addr port hmem => ?_,
          fun n errCode hmem => ?_⟩
        · obtain hmem | hmem := List.mem_append.mp hmem
          · exact h.ran n addr port hmem
          · obtain ⟨pc, hpc, r, hr, heq⟩ := mem_runPending hfirst hmem
            obtain ⟨rfl, harg⟩ := Prod.mk.inj heq
            obtain ⟨rfl, rfl⟩ := CallbackArg.addr.inj harg
            exact ⟨nc.host, h.pending nc.host e he pc hpc, haddrs r hr⟩
        · obtain hmem | hmem := List.mem_append.mp hmem
          · exact h.failed n errCode hmem
          · obtain ⟨pc, -, r, -, heq⟩ := mem_runPending hfirst hmem
            exact absurd (Prod.mk.inj heq).2 (by simp)

omit [DecidableEq H] in
theorem CacheHolds.sweep (h : CacheHolds R P c) : CacheHolds R P (c.sweep now) where
  addrs := fun host e he => h.addrs host e (Option.filter_eq_some_iff.mp he).1
  pending := fun host e he => h.pending host e (Option.filter_eq_some_iff.mp he).1
  scheduled := h.scheduled
  ran := h.ran
  failed := h.failed

/-- Every step of the cache. A call has the next number. -/
theorem CacheHolds.next (h : CacheHolds R P c) {x : DnsAction H A} (herrors : properErrors x)
    (hcall : ∀ host port now start, x = .lookup host port now start → P c.calls host port)
    (hresult : ∀ nc first rest now, x = .complete nc (.resolved first rest) now →
      ∀ a ∈ first :: rest, R nc.host a) : CacheHolds R P (c.next x) := by
  match x with
  | .lookup host port now start =>
    have hbegun : CacheHolds R P { c with calls := c.calls + 1 } :=
      ⟨h.addrs, h.pending, h.scheduled, h.ran, h.failed⟩
    exact hbegun.call _ now (hcall host port now start rfl) herrors
  | .retry i now start =>
    show CacheHolds R P (match c.scheduled[i]? with
      | some task => { c with scheduled := c.scheduled.eraseIdx i }.call task.1 now start
      | none => c)
    split
    · next task htask =>
      have herased : CacheHolds R P { c with scheduled := c.scheduled.eraseIdx i } :=
        ⟨h.addrs, h.pending, fun t ht => h.scheduled t (List.mem_of_mem_eraseIdx ht), h.ran,
          h.failed⟩
      exact herased.call _ now (h.scheduled task (List.mem_of_getElem? htask)) herrors
    · exact h
  | .complete nc result now =>
    apply h.resolveComplete
    · rintro ret rfl
      exact herrors
    · rintro first rest rfl
      exact hresult nc first rest now rfl
  | .sweep now => exact h.sweep

end Cache

/-! ## The calls -/

variable {H : Type} [DecidableEq H] {h : List (ResolverAction H)} {s : Resolver H}
variable {call : GetCall H} {x : ResolverAction H}

/-- A lookup has found the address for the host. -/
def Found (h : List (ResolverAction H)) (host : H) (a : SockaddrIn6) : Prop :=
  ∃ nc first rest now, .other (.complete nc (.resolved first rest) now) ∈ h ∧ nc.host = host ∧
    a ∈ first :: rest

/-- The call of that number, if it is one of `get_addrinfo`, is for the host and the port. -/
def Belongs (s : Resolver H) (n : ℕ) (host : H) (port : ℤ) : Prop :=
  n < s.cache.calls ∧ ∀ call, s.calls n = some call → call.host = host ∧ call.port = port

/-- The address is one that was found, with the port; the length belongs to it if the call has
waited, and otherwise is what it was. -/
def Filled (h : List (ResolverAction H)) (call : GetCall H) (addr : SockaddrIn6) : Prop :=
  ∃ a, Found h call.host a ∧ addr.same (setPort a call.port) = true ∧
    addrlenOf addr = addrlenOf a ∧ (call.cached = none → call.addrlen = addrlenOf a) ∧
    ∀ b, call.cached = some b → b = a ∧ call.addrlen = call.addrlenBefore

/-- What a call has filled in, by how far it is. -/
structure CallHolds (h : List (ResolverAction H)) (call : GetCall H) : Prop where
  waiting : call.phase = .waiting → call.cached = none
  informed : ∀ ret, call.phase = .informed ret → call.cached = none ∧
    (ret = 0 → Filled h call (setPort call.addr call.port))
  returned : call.phase = .returned 0 → Filled h call call.addr

omit [DecidableEq H] in
theorem Found.cons {host : H} {a : SockaddrIn6} (hfound : Found h host a) :
    Found (x :: h) host a := by
  obtain ⟨nc, first, rest, now, hmem, hhost, ha⟩ := hfound
  exact ⟨nc, first, rest, now, List.mem_cons_of_mem x hmem, hhost, ha⟩

omit [DecidableEq H] in
theorem Filled.cons {addr : SockaddrIn6} (hfilled : Filled h call addr) :
    Filled (x :: h) call addr := by
  obtain ⟨a, hfound, hrest⟩ := hfilled
  exact ⟨a, hfound.cons, hrest⟩

omit [DecidableEq H] in
theorem CallHolds.cons (hcall : CallHolds h call) : CallHolds (x :: h) call where
  waiting := hcall.waiting
  informed := fun ret hret =>
    ⟨(hcall.informed ret hret).1, fun hzero => ((hcall.informed ret hret).2 hzero).cons⟩
  returned := fun hret => (hcall.returned hret).cons

omit [DecidableEq H] in
/-- The callback of a call that waits. -/
theorem CallHolds.dnsc (hcall : CallHolds h call) (hphase : call.phase = .waiting)
    {arg : CallbackArg SockaddrIn6} (herror : ∀ errCode, arg = .error errCode → errCode ≠ 0)
    (haddr : ∀ a port, arg = .addr a port → port = call.port ∧ Found h call.host a) :
    CallHolds h (call.dnsc arg) := by
  have hcached := hcall.waiting hphase
  match arg with
  | .error errCode =>
    refine ⟨fun hno => absurd hno (by simp [GetCall.dnsc]), fun ret hret => ?_,
      fun hno => absurd hno (by simp [GetCall.dnsc])⟩
    refine ⟨hcached, fun hzero => ?_⟩
    have hret : errCode = ret := GetPhase.informed.inj hret
    exact absurd (hret.trans hzero) (herror errCode rfl)
  | .addr a port =>
    obtain ⟨rfl, hfound⟩ := haddr a port rfl
    obtain ⟨hsame, hlen⟩ := same_memcpy call.addr a call.port
    rw [GetCall.dnsc]
    refine ⟨fun hno => absurd hno (by simp), fun ret _ => ?_, fun hno => absurd hno (by simp)⟩
    dsimp only
    refine ⟨hcached, fun _ => ⟨a, hfound, hsame, hlen, fun _ => addrlenOf_setPort a call.port,
      fun b hb => ?_⟩⟩
    have hnone := hcached.symm.trans hb
    exact absurd hnone (by simp)

omit [DecidableEq H] in
/-- A call that has waited returns. -/
theorem CallHolds.finish (hcall : CallHolds h call) {ret : ℤ}
    (hphase : call.phase = .informed ret) :
    CallHolds h (call.finish ret) := by
  refine ⟨fun hno => absurd hno (by simp [GetCall.finish]),
    fun _ hno => absurd hno (by simp [GetCall.finish]), fun hret => ?_⟩
  have hzero : ret = 0 := GetPhase.returned.inj hret
  have hfilled := (hcall.informed ret hphase).2 hzero
  rw [hzero]
  exact hfilled

/-- The invariant of every run. -/
structure ResolverHolds (h : List (ResolverAction H)) (s : Resolver H) : Prop where
  cache : CacheHolds (Found h) (Belongs s) s.cache
  calls : ∀ n call, s.calls n = some call → n < s.cache.calls ∧ CallHolds h call

theorem calls_call {A : Type} (c : Cache H A) (pc : PendingCall H) (now : Timespec)
    (start : Option StartFailure) : (c.call pc now start).calls = c.calls := by
  unfold Cache.call
  simp only
  split
  · cases start with
    | none => rfl
    | some failure => rfl
  · rfl
  · unfold Cache.callFromCache
    simp only
    split
    · rfl
    · rfl
  · rfl

/-- A call of `lookup_and_run` has the next number. -/
theorem calls_next {A : Type} (c : Cache H A) (x : DnsAction H A) : c.calls ≤ (c.next x).calls ∧
    ∀ host port now start, x = .lookup host port now start → (c.next x).calls = c.calls + 1 := by
  match x with
  | .lookup host port now start =>
    have hcalls : (c.next (.lookup host port now start)).calls = c.calls + 1 :=
      calls_call { c with calls := c.calls + 1 } _ now start
    exact ⟨by omega, fun _ _ _ _ _ => hcalls⟩
  | .retry i now start =>
    refine ⟨?_, by simp⟩
    show c.calls ≤ (match c.scheduled[i]? with
      | some task => { c with scheduled := c.scheduled.eraseIdx i }.call task.1 now start
      | none => c).calls
    split
    · rw [calls_call]
    · exact le_rfl
  | .complete nc result now =>
    refine ⟨?_, by simp⟩
    show c.calls ≤ (c.resolveComplete nc result now).calls
    unfold Cache.resolveComplete
    simp only
    split
    · exact le_rfl
    · split
      · exact le_rfl
      · split
        · exact le_rfl
        · exact le_rfl
  | .sweep now => exact ⟨le_rfl, by simp⟩

omit [DecidableEq H] in
/-- What the cache has for a host was found for it. -/
theorem CacheHolds.cached {R : H → SockaddrIn6 → Prop} {P : ℕ → H → ℤ → Prop}
    {c : Cache H SockaddrIn6} (hc : CacheHolds R P c) {host : H} {now : Timespec} {a : SockaddrIn6}
    (ha : c.cached host now = some a) : R host a := by
  unfold Cache.cached at ha
  simp only at ha
  split at ha
  · split at ha
    · next addr haddr =>
      obtain ⟨r, hr, rfl⟩ := mem_of_firstAvailable haddr
      rw [← Option.some.inj ha]
      exact (hc.entryFor host).1 r hr
    · exact absurd ha (by simp)
  · exact absurd ha (by simp)

/-! ## The steps -/

omit [DecidableEq H] in
theorem calls_setCall (s : Resolver H) (n m : ℕ) (call : GetCall H) :
    (s.setCall n call).calls m = if m = n then some call else s.calls m := by
  show Function.update s.calls n (some call) m = _
  rw [Function.update_apply]

omit [DecidableEq H] in
/-- A callback does not change what the call is for. -/
theorem dnsc_eq (call : GetCall H) (arg : CallbackArg SockaddrIn6) :
    (call.dnsc arg).host = call.host ∧ (call.dnsc arg).port = call.port := by
  cases arg with
  | error errCode =>
    rw [GetCall.dnsc]
    exact ⟨rfl, rfl⟩
  | addr a port =>
    rw [GetCall.dnsc]
    exact ⟨rfl, rfl⟩

omit [DecidableEq H] in
/-- Another state of a call, with the cache as it is. -/
theorem ResolverHolds.setCall (hs : ResolverHolds h s) {n : ℕ} {call call' : GetCall H}
    (hcall : s.calls n = some call) (hhost : call'.host = call.host)
    (hport : call'.port = call.port) (hholds : CallHolds h call') :
    ResolverHolds h (s.setCall n call') where
  cache := by
    apply hs.cache.mono (fun _ _ hfound => hfound)
    intro m host port hbelongs
    refine ⟨hbelongs.1, fun call'' hcall'' => ?_⟩
    rw [calls_setCall] at hcall''
    split at hcall''
    · next hm =>
      rw [← Option.some.inj hcall'', hhost, hport]
      exact hbelongs.2 call (hm ▸ hcall)
    · exact hbelongs.2 call'' hcall''
  calls := by
    intro m call'' hcall''
    rw [calls_setCall] at hcall''
    split at hcall''
    · next hm =>
      rw [← Option.some.inj hcall'', hm]
      exact ⟨(hs.calls n call hcall).1, hholds⟩
    · exact hs.calls m call'' hcall''

omit [DecidableEq H] in
/-- A call of `get_addrinfo`, with the next number. -/
theorem ResolverHolds.begin (hs : ResolverHolds h s) {c : Cache H SockaddrIn6}
    (hcalls : c.calls = s.cache.calls + 1) {call : GetCall H} (hholds : CallHolds h call)
    (hcache : ∀ P : ℕ → H → ℤ → Prop, CacheHolds (Found h) P s.cache →
      P s.cache.calls call.host call.port → CacheHolds (Found h) P c) :
    ResolverHolds h ({ s with cache := c }.setCall s.cache.calls call) where
  cache := by
    apply hcache
    · apply hs.cache.mono (fun _ _ hfound => hfound)
      intro m host port hbelongs
      refine ⟨?_, fun call' hcall' => ?_⟩
      · show m < c.calls
        have hlt := hbelongs.1
        omega
      · rw [calls_setCall, if_neg hbelongs.1.ne] at hcall'
        exact hbelongs.2 call' hcall'
    · refine ⟨?_, fun call' hcall' => ?_⟩
      · show s.cache.calls < c.calls
        omega
      · rw [calls_setCall, if_pos rfl] at hcall'
        rw [← Option.some.inj hcall']
        exact ⟨rfl, rfl⟩
  calls := by
    intro m call' hcall'
    show m < c.calls ∧ _
    rw [calls_setCall] at hcall'
    split at hcall'
    · next hm =>
      rw [← Option.some.inj hcall', hm, hcalls]
      exact ⟨Nat.lt_succ_self _, hholds⟩
    · obtain ⟨hlt, hold⟩ := hs.calls m call' hcall'
      exact ⟨by omega, hold⟩

theorem ResolverHolds.getAddrinfo (hs : ResolverHolds h s) (host : H) (port : ℤ)
    (addr : SockaddrIn6) (addrlen : ℕ) (now : Timespec) {start : Option StartFailure}
    (hstart : ∀ failure ∈ start, failure.result ≠ 0) :
    ResolverHolds h (s.getAddrinfo host port addr addrlen now start) := by
  have hbegun (P : ℕ → H → ℤ → Prop) (hc : CacheHolds (Found h) P s.cache) :
      CacheHolds (Found h) P { s.cache with calls := s.cache.calls + 1 } :=
    ⟨hc.addrs, hc.pending, hc.scheduled, hc.ran, hc.failed⟩
  have hcalls := calls_call { s.cache with calls := s.cache.calls + 1 }
    ⟨host, port, s.cache.calls⟩ now start
  unfold Resolver.getAddrinfo
  simp only
  split
  -- the address is taken out of the cache
  · next found hfound =>
    have hfound := (hbegun _ hs.cache).cached hfound
    apply hs.begin
    · exact hcalls
    · refine ⟨fun hno => absurd hno (by simp [GetCall.finish]),
        fun _ hno => absurd hno (by simp [GetCall.finish]), fun _ => ?_⟩
      refine ⟨found, hfound, SockaddrIn6.same_iff.mpr rfl, addrlenOf_setPort found port,
        fun hnone => absurd hnone (by simp [GetCall.finish]), fun b hb => ?_⟩
      exact ⟨(Option.some.inj hb).symm, rfl⟩
    · intro P hc hP
      have hcall := (hbegun P hc).call ⟨host, port, s.cache.calls⟩ now hP hstart
      exact ⟨hcall.addrs, hcall.pending, hcall.scheduled, hc.ran, hc.failed⟩
  · apply hs.begin
    · exact hcalls
    · refine ⟨fun _ => rfl, fun ret hret => ?_, fun hret => ?_⟩
      · dsimp only at hret
        split at hret
        · exact absurd hret (by simp)
        · exact absurd hret (by simp)
      · dsimp only at hret
        split at hret
        · exact absurd hret (by simp)
        · exact absurd hret (by simp)
    · intro P hc hP
      exact (hbegun P hc).call _ _ hP hstart

/-- A step of the cache. -/
theorem ResolverHolds.other (hs : ResolverHolds h s) {x : DnsAction H SockaddrIn6}
    (herrors : properErrors x) :
    ResolverHolds (.other x :: h) { s with cache := s.cache.next x } := by
  obtain ⟨hle, hlookup⟩ := calls_next s.cache x
  constructor
  · have hmono : CacheHolds (Found (.other x :: h))
        (Belongs { s with cache := s.cache.next x }) s.cache := by
      apply hs.cache.mono (fun _ _ hfound => hfound.cons)
      exact fun m host port hbelongs => ⟨hbelongs.1.trans_le hle, hbelongs.2⟩
    apply hmono.next herrors
    · rintro host port now start hx
      refine ⟨?_, fun call hcall => ?_⟩
      · show s.cache.calls < (s.cache.next x).calls
        rw [hlookup host port now start hx]
        exact Nat.lt_succ_self _
      -- the number of a call of lookup_and_run
      · exact absurd (hs.calls _ call hcall).1 (lt_irrefl _)
    · rintro nc first rest now rfl a ha
      exact ⟨nc, first, rest, now, List.mem_cons_self, rfl, ha⟩
  · intro n call hcall
    obtain ⟨hlt, hholds⟩ := hs.calls n call hcall
    exact ⟨hlt.trans_le hle, hholds.cons⟩

omit [DecidableEq H] in
theorem ResolverHolds.cons (hs : ResolverHolds h s) : ResolverHolds (x :: h) s where
  cache := hs.cache.mono (fun _ _ hfound => hfound.cons) (fun _ _ _ hbelongs => hbelongs)
  calls := fun n call hcall => ⟨(hs.calls n call hcall).1, (hs.calls n call hcall).2.cons⟩

theorem ResolverHolds.step (hs : ResolverHolds h s) (he : s.enabled x) :
    ResolverHolds (x :: h) (s.next x) := by
  match x with
  | .getAddrinfo host port addr addrlen now start =>
    exact (hs.getAddrinfo host port addr addrlen now he.2).cons
  | .other x => exact hs.other he.2
  | .callback n arg =>
    obtain ⟨hmem, hphase⟩ := he
    obtain ⟨call, hcall, hphase⟩ := Option.map_eq_some_iff.mp hphase
    have hholds := (hs.calls n call hcall).2
    rw [Resolver.next, hcall]
    apply ResolverHolds.cons
    apply hs.setCall hcall (dnsc_eq call arg).1 (dnsc_eq call arg).2
    · apply hholds.dnsc hphase
      · rintro errCode rfl
        exact hs.cache.failed n errCode hmem
      · rintro a port rfl
        obtain ⟨host, hbelongs, hfound⟩ := hs.cache.ran n a port hmem
        obtain ⟨hhost, hport⟩ := hbelongs.2 call hcall
        rw [hhost]
        exact ⟨hport.symm, hfound⟩
  | .wake n =>
    apply ResolverHolds.cons
    rw [Resolver.next]
    split
    · next call hcall =>
      split
      · next ret hphase => exact hs.setCall hcall rfl rfl ((hs.calls n call hcall).2.finish hphase)
      · exact hs
    · exact hs

theorem resolverHolds (hr : (resolverMachine H).Runs Machine.anyStep h s) : ResolverHolds h s := by
  apply hr.invariant (P := ResolverHolds)
  · constructor
    · refine ⟨?_, ?_, ?_, ?_, ?_⟩
      · exact fun _ _ he => absurd he (by simp [resolverMachine, dnsMachine])
      · exact fun _ _ he => absurd he (by simp [resolverMachine, dnsMachine])
      · exact fun _ htask => absurd htask List.not_mem_nil
      · exact fun _ _ _ hmem => absurd hmem List.not_mem_nil
      · exact fun _ _ hmem => absurd hmem List.not_mem_nil
    · exact fun _ _ hcall => absurd hcall (by simp [resolverMachine])
  · intro h s x _ hs _ he
    exact hs.step he

/-! ## What a call reports -/

/-- The address was found for the host and has the port, and the length belongs to its family. -/
def Agrees (h : List (ResolverAction H)) (call : GetCall H) : Prop :=
  (∃ a, Found h call.host a ∧ call.addr.same (setPort a call.port) = true) ∧
    call.addrlen = addrlenOf call.addr

/-- A call that has returned with success, in any run: the length is right if the cache did not
have an address for the call, or the length was that of its family before. -/
theorem agrees_iff (hr : (resolverMachine H).Runs Machine.anyStep h s) {n : ℕ}
    (hcall : s.calls n = some call) (hret : call.phase = .returned 0) :
    Agrees h call ↔ ∀ a, call.cached = some a → call.addrlenBefore = addrlenOf a := by
  obtain ⟨a, hfound, hsame, hlen, hwaited, hcached⟩ :=
    ((resolverHolds hr).calls n call hcall).2.returned hret
  have hagrees : Agrees h call ↔ call.addrlen = addrlenOf a := by
    unfold Agrees
    rw [hlen]
    exact and_iff_right ⟨a, hfound, hsame⟩
  rw [hagrees]
  cases hbefore : call.cached with
  | none => exact iff_of_true (hwaited hbefore) (fun b hb => absurd hb (by simp))
  | some b =>
    obtain ⟨rfl, hkept⟩ := hcached b hbefore
    rw [hkept]
    constructor
    · intro h b' hb'
      rw [← Option.some.inj hb']
      exact h
    · exact fun h => h b rfl

/-- Some address of the family `AF_INET6`. -/
def someAddress : SockaddrIn6 :=
  ⟨Vector.ofFn fun i => if i.val = 0 then 10 else if i.val = 1 then 0 else 1⟩

/-- A call waits for a lookup, and then another one finds its address in the cache and has the
length of such an address. -/
theorem agrees_both : ∃ (h : List (ResolverAction ℕ)) (s : Resolver ℕ) (call0 call1 : GetCall ℕ),
    s.calls 0 = some call0 ∧ s.calls 1 = some call1 ∧ call0.cached = none ∧
      call1.cached = some someAddress ∧ Agrees h call0 ∧ Agrees h call1 := by
  have h : ∃ s, (resolverMachine ℕ).Reachable Machine.anyStep s ∧
      decide ((s.calls 0).any (fun call => call.phase = .returned 0 ∧ call.cached = none) = true ∧
        (s.calls 1).any (fun call => call.phase = .returned 0 ∧ call.addrlenBefore = 28 ∧
          call.cached = some someAddress) = true) = true := by
    apply Machine.reachable_of_replay (l := [.getAddrinfo 5 443 someAddress 0 ⟨9, 0⟩ none,
      .other (.complete ⟨5, 0⟩ (.resolved someAddress []) ⟨9, 0⟩),
      .callback 0 (.addr someAddress 443), .wake 0,
      .getAddrinfo 5 443 someAddress 28 ⟨9, 0⟩ none])
    decide +kernel
  obtain ⟨s, ⟨h, hr⟩, hstate⟩ := h
  obtain ⟨h0, h1⟩ := of_decide_eq_true hstate
  obtain ⟨call0, hcall0, hphase0⟩ := Option.any_eq_true .. |>.mp h0
  obtain ⟨call1, hcall1, hphase1⟩ := Option.any_eq_true .. |>.mp h1
  obtain ⟨hret0, hcached0⟩ := of_decide_eq_true hphase0
  obtain ⟨hret1, hlen, hcached1⟩ := of_decide_eq_true hphase1
  refine ⟨h, s, call0, call1, hcall0, hcall1, hcached0, hcached1,
    (agrees_iff hr hcall0 hret0).mpr fun a ha => ?_,
    (agrees_iff hr hcall1 hret1).mpr fun a ha => ?_⟩
  · rw [hcached0] at ha
    exact absurd ha (by simp)
  · rw [hlen, ← Option.some.inj (hcached1.symm.trans ha)]
    decide +kernel

/-- The second call has a variable for the length that is 0. -/
theorem not_agrees : ∃ (h : List (ResolverAction ℕ)) (s : Resolver ℕ) (call : GetCall ℕ),
    (resolverMachine ℕ).Runs Machine.anyStep h s ∧ s.calls 1 = some call ∧
      call.phase = .returned 0 ∧ ¬Agrees h call := by
  have h : ∃ s, (resolverMachine ℕ).Reachable Machine.anyStep s ∧
      decide ((s.calls 1).any (fun call => call.phase = .returned 0 ∧
        call.addrlen ≠ addrlenOf call.addr) = true) = true := by
    apply Machine.reachable_of_replay (l := [.getAddrinfo 5 443 someAddress 0 ⟨9, 0⟩ none,
      .other (.complete ⟨5, 0⟩ (.resolved someAddress []) ⟨9, 0⟩),
      .callback 0 (.addr someAddress 443), .wake 0,
      .getAddrinfo 5 443 someAddress 0 ⟨9, 0⟩ none])
    decide +kernel
  obtain ⟨s, ⟨h, hr⟩, hstate⟩ := h
  obtain ⟨call, hcall, hphase⟩ := Option.any_eq_true .. |>.mp (of_decide_eq_true hstate)
  obtain ⟨hret, hlen⟩ := of_decide_eq_true hphase
  exact ⟨h, s, call, hr, hcall, hret, fun hagrees => hlen hagrees.2⟩

end Anon.Dns
