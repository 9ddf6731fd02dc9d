import Anon.Dns.Cache

/-!
# One outcome for each call

* `Cache.waiting`: the calls that are queued on the entries of the lookups in flight.
* `OneOutcome`: the callbacks that have run, the calls that have thrown and those that wait are all
  calls, each once.
* `Consistent`: how entries and lookups in flight belong together.
* `Starts`: no lookup fails to start.
* `oneOutcome`: the runs in which all lookups start.
-/

namespace Anon.Dns

variable {H A : Type*} {c d : Cache H A} {nc : NotifyComplete H} {now : Timespec}

/-! ## Outcomes -/

/-- The calls that are queued on the entry of a lookup. -/
def Cache.callersOf (c : Cache H A) (nc : NotifyComplete H) : List ℕ :=
  match c.dnsMap nc.host with
  | some e => if e.address = nc.entry then e.pendingCallers.map PendingCall.dnsc else []
  | none => []

/-- The calls that are queued on the entries of the lookups in flight. -/
def Cache.waiting (c : Cache H A) : List ℕ := c.inFlight.flatMap c.callersOf

/-- The calls whose callback was run, and those that threw. -/
def Cache.outcomes (c : Cache H A) : List ℕ := c.ran.map Prod.fst ++ c.threw

/-- Each call has one outcome, or it waits for a lookup that has not completed and has none. -/
def OneOutcome (c : Cache H A) : Prop := (c.outcomes ++ c.waiting).Perm (List.range c.calls)

/-- The addresses of an entry that has been resolved: at least one, and all can be used now. -/
def Available (addrs : List (AddrRecord A)) : Prop :=
  addrs ≠ [] ∧ ∀ a ∈ addrs, a.valid = true ∧ a.nextAvailTime = timeMin

/-- Entries and lookups in flight: an entry is in progress while its lookup is in flight, and then
it is resolved and nobody is queued on it. -/
structure Consistent (c : Cache H A) : Prop where
  entry : ∀ host e, c.dnsMap host = some e →
    (e.state = .inProgress ∧ e.addrs = [] ∧ ⟨host, e.address⟩ ∈ c.inFlight) ∨
      (e.state = .resolved ∧ e.pendingCallers = [] ∧ Available e.addrs)
  lookup : ∀ nc ∈ c.inFlight, ∃ e, c.dnsMap nc.host = some e ∧ e.address = nc.entry ∧
    e.state = .inProgress
  nodup : (c.inFlight.map NotifyComplete.host).Nodup
  scheduled : c.scheduled = []
  outcome : OneOutcome c

/-- If the action starts a lookup, that succeeds. -/
def Starts [DecidableEq H] (c : Cache H A) : DnsAction H A → Prop
  | .lookup host _ _ start => (c.entryFor host).state = .init → start = none
  | .retry i _ start =>
    ∀ task ∈ c.scheduled[i]?, (c.entryFor task.1.host).state = .init → start = none
  | .complete _ _ _ | .sweep _ => True

/-! ## Lookups in flight -/

/-- A change of one entry does not change who waits for lookups of other hosts. -/
theorem callersOf_of_ne {host : H} (hsame : ∀ h, h ≠ host → d.dnsMap h = c.dnsMap h)
    {x : NotifyComplete H} (hx : x.host ≠ host) : d.callersOf x = c.callersOf x := by
  rw [Cache.callersOf, Cache.callersOf, hsame _ hx]

theorem callersOf_of_some {e : DnsEntry H A} (he : c.dnsMap nc.host = some e)
    (haddr : e.address = nc.entry) : c.callersOf nc = e.pendingCallers.map PendingCall.dnsc := by
  rw [Cache.callersOf, he]
  exact if_pos haddr

/-- No lookup is in flight for a host whose entry is not in progress. -/
theorem Consistent.host_ne_of_state (hc : Consistent c) {host : H}
    (hstate : ∀ e, c.dnsMap host = some e → e.state ≠ .inProgress) :
    ∀ x ∈ c.inFlight, x.host ≠ host := by
  intro x hx heq
  obtain ⟨e, he, -, hprogress⟩ := hc.lookup x hx
  rw [heq] at he
  exact hstate e he hprogress

/-- A call is accounted for when it is either an outcome or waits. -/
theorem oneOutcome_of_perm (hc : OneOutcome c) (hcalls : d.calls = c.calls + 1)
    (hperm : (d.outcomes ++ d.waiting).Perm (c.outcomes ++ c.waiting ++ [c.calls])) :
    OneOutcome d := by
  rw [OneOutcome, hcalls, List.range_succ]
  exact hperm.trans (hc.append_right _)

variable [DecidableEq H]

/-- The other lookups in flight are for other hosts. -/
theorem Consistent.host_ne (hc : Consistent c) (hnc : nc ∈ c.inFlight) {x : NotifyComplete H}
    (hx : x ∈ c.inFlight.erase nc) : x.host ≠ nc.host := by
  have hperm := (List.perm_cons_erase hnc).map NotifyComplete.host
  have hnodup := hperm.nodup_iff.mp hc.nodup
  rw [List.map_cons, List.nodup_cons] at hnodup
  intro heq
  apply hnodup.1
  rw [← heq]
  exact List.mem_map_of_mem hx

/-- The calls that wait for one of the lookups, and those that wait for the others. -/
theorem flatMap_perm {l : List (NotifyComplete H)} (hnc : nc ∈ l)
    (f : NotifyComplete H → List ℕ) : (l.flatMap f).Perm (f nc ++ (l.erase nc).flatMap f) := by
  have hperm := (List.perm_cons_erase hnc).flatMap_right f
  rwa [List.flatMap_cons] at hperm

/-! ## Calls -/

/-- A resolved entry has an address to give. -/
theorem firstAvailable_of_available {addrs : List (AddrRecord A)} (haddrs : Available addrs)
    (hnow : timeMin ≤ now) (start : ℤ) (earliest : Timespec) :
    ∃ a, firstAvailable addrs start now (List.range addrs.length) earliest = .ok a := by
  obtain ⟨hne, hall⟩ := haddrs
  obtain ⟨n, hn⟩ : ∃ n, addrs.length = n + 1 :=
    Nat.exists_eq_succ_of_ne_zero (List.length_pos_iff.mpr hne).ne'
  have hlt : rotate start 0 addrs.length < addrs.length := by
    rw [rotate]
    exact Nat.mod_lt _ (by omega)
  obtain ⟨hvalid, havail⟩ := hall _ (List.getElem_mem hlt)
  rw [hn, List.range_succ_eq_map, firstAvailable, List.getElem?_eq_getElem hlt]
  simp only [hvalid, havail, hnow, Bool.not_true, Bool.false_eq_true, if_true, if_false]
  exact ⟨_, rfl⟩

/-- The call that is being made. -/
def Cache.begun (c : Cache H A) : Cache H A := { c with calls := c.calls + 1 }

omit [DecidableEq H] in
theorem entryFor_of_some {host : H} {e : DnsEntry H A} (he : c.dnsMap host = some e) :
    c.entryFor host = e := by
  rw [Cache.entryFor, he]

omit [DecidableEq H] in
theorem entryFor_of_none {host : H} (hnone : c.dnsMap host = none) :
    c.entryFor host = ⟨c.allocated, [], [], 0, .init, ⟨0, 0⟩⟩ := by
  rw [Cache.entryFor, hnone]

/-- A call for a host without an entry starts a lookup and waits for it. -/
theorem consistent_initiate (hc : Consistent c) {host : H} (hnone : c.dnsMap host = none)
    (port : ℤ) (now : Timespec) :
    Consistent (c.begun.call ⟨host, port, c.calls⟩ now none) := by
  have hentry : c.begun.entryFor host = ⟨c.allocated, [], [], 0, .init, ⟨0, 0⟩⟩ :=
    entryFor_of_none hnone
  have hcall : c.begun.call ⟨host, port, c.calls⟩ now none =
      c.begun.initiateLookup (c.begun.entryFor host) ⟨host, port, c.calls⟩ none := by
    rw [Cache.call, hentry]
  rw [hcall, hentry]
  obtain ⟨e, he⟩ : ∃ e : DnsEntry H A, e = ⟨c.allocated, [], [⟨host, port, c.calls⟩], 0,
    .inProgress, ⟨0, 0⟩⟩ := ⟨_, rfl⟩
  obtain ⟨d, hd⟩ : ∃ d : Cache H A, d = { c.begun with
      dnsMap := Function.update c.dnsMap host (some e)
      allocated := c.allocated + 1
      inFlight := c.inFlight ++ [⟨host, c.allocated⟩] } := ⟨_, rfl⟩
  have hresult : c.begun.initiateLookup ⟨c.allocated, [], [], 0, .init, ⟨0, 0⟩⟩
      ⟨host, port, c.calls⟩ none = d := by
    rw [hd, he]
    rfl
  rw [hresult]
  have hmap : d.dnsMap = Function.update c.dnsMap host (some e) := by rw [hd]
  have hflight : d.inFlight = c.inFlight ++ [⟨host, c.allocated⟩] := by rw [hd]
  have hself : d.dnsMap host = some e := by rw [hmap, Function.update_self]
  have hsame : ∀ h, h ≠ host → d.dnsMap h = c.dnsMap h := by
    intro h hne
    rw [hmap, Function.update_of_ne hne]
  have hne : ∀ x ∈ c.inFlight, x.host ≠ host := by
    apply hc.host_ne_of_state
    intro e he
    rw [hnone] at he
    exact absurd he.symm (Option.some_ne_none e)
  refine ⟨?_, ?_, ?_, ?_, ?_⟩
  · intro h e' he'
    by_cases heq : h = host
    · rw [heq, hself] at he'
      rw [heq, ← Option.some.inj he', hflight, he]
      exact Or.inl ⟨rfl, rfl, List.mem_append_right _ (List.mem_singleton.mpr rfl)⟩
    · rw [hsame h heq] at he'
      rcases hc.entry h e' he' with ⟨hstate, haddrs, hmem⟩ | hresolved
      · rw [hflight]
        exact Or.inl ⟨hstate, haddrs, List.mem_append_left _ hmem⟩
      · exact Or.inr hresolved
  · intro x hx
    rw [hflight] at hx
    rcases List.mem_append.mp hx with hx | hx
    · rw [hsame _ (hne x hx)]
      exact hc.lookup x hx
    · rw [List.mem_singleton.mp hx]
      refine ⟨e, hself, ?_, ?_⟩ <;> rw [he]
  · rw [hflight, List.map_append, List.nodup_append]
    refine ⟨hc.nodup, List.nodup_singleton _, ?_⟩
    intro h hh h' hh'
    obtain ⟨x, hx, hxh⟩ := List.mem_map.mp hh
    rw [List.mem_singleton.mp hh', ← hxh]
    exact hne x hx
  · rw [hd]
    exact hc.scheduled
  · apply oneOutcome_of_perm hc.outcome (by rw [hd]; rfl)
    have hwaiting : d.waiting = c.waiting ++ [c.calls] := by
      rw [Cache.waiting, hflight, List.flatMap_append, List.flatMap_singleton, Cache.waiting,
        List.flatMap_congr fun x hx => callersOf_of_ne hsame (hne x hx),
        callersOf_of_some hself (by rw [he]), he]
      rfl
    have houtcomes : d.outcomes = c.outcomes := by
      rw [hd]
      rfl
    rw [hwaiting, houtcomes, List.append_assoc]

/-- An entry is replaced by one in the same state, at the same address. -/
theorem consistent_setEntry (hc : Consistent c) {host : H} {e e' : DnsEntry H A}
    (he : c.dnsMap host = some e) (haddress : e'.address = e.address)
    (hstate : e'.state = e.state) (haddrs : e'.addrs = e.addrs)
    (hpending : e.state = .resolved → e'.pendingCallers = [])
    (hself : d.dnsMap host = some e') (hsame : ∀ h, h ≠ host → d.dnsMap h = c.dnsMap h)
    (hflight : d.inFlight = c.inFlight) (hscheduled : d.scheduled = c.scheduled)
    (houtcome : OneOutcome d) : Consistent d := by
  refine ⟨?_, ?_, ?_, ?_, houtcome⟩
  · intro h f hf
    by_cases heq : h = host
    · rw [heq] at hf ⊢
      rw [← Option.some.inj (hself.symm.trans hf), haddress, hstate, haddrs, hflight]
      rcases hc.entry host e he with hprogress | ⟨hresolved, -, havailable⟩
      · exact Or.inl hprogress
      · exact Or.inr ⟨hresolved, hpending hresolved, havailable⟩
    · rw [hsame h heq] at hf
      rw [hflight]
      exact hc.entry h f hf
  · intro x hx
    rw [hflight] at hx
    obtain ⟨f, hf, hfaddress, hfstate⟩ := hc.lookup x hx
    by_cases heq : x.host = host
    · rw [heq] at hf ⊢
      have hfe := Option.some.inj (he.symm.trans hf)
      rw [← hfe] at hfaddress hfstate
      exact ⟨e', hself, haddress.trans hfaddress, hstate.trans hfstate⟩
    · exact ⟨f, (hsame _ heq).trans hf, hfaddress, hfstate⟩
  · rw [hflight]
    exact hc.nodup
  · rw [hscheduled]
    exact hc.scheduled

/-- A call for a host that is being looked up waits for the lookup. -/
theorem consistent_queue (hc : Consistent c) {host : H} {e : DnsEntry H A}
    (he : c.dnsMap host = some e) (hstate : e.state = .inProgress) (port : ℤ) (now : Timespec)
    (start : Option StartFailure) :
    Consistent (c.begun.call ⟨host, port, c.calls⟩ now start) := by
  have hentry : c.begun.entryFor host = e := entryFor_of_some he
  obtain ⟨e', he'⟩ : ∃ e' : DnsEntry H A, e' = { e with
    pendingCallers := e.pendingCallers ++ [⟨host, port, c.calls⟩] } := ⟨_, rfl⟩
  have hcall : c.begun.call ⟨host, port, c.calls⟩ now start = c.begun.setEntry host e' := by
    rw [Cache.call, hentry, he']
    simp only [hstate]
  rw [hcall]
  have hself : (c.begun.setEntry host e').dnsMap host = some e' := Function.update_self ..
  have hsame : ∀ h, h ≠ host → (c.begun.setEntry host e').dnsMap h = c.dnsMap h :=
    fun h hne => Function.update_of_ne hne ..
  obtain ⟨nc, hmem, rfl, haddress⟩ : ∃ nc ∈ c.inFlight, nc.host = host ∧ e.address = nc.entry := by
    rcases hc.entry host e he with ⟨-, -, hmem⟩ | ⟨hresolved, -⟩
    · exact ⟨_, hmem, rfl, rfl⟩
    · exact absurd (hstate.symm.trans hresolved) EntryState.noConfusion
  refine consistent_setEntry hc he (by rw [he']) (by rw [he']) (by rw [he']) ?_ hself hsame rfl
    rfl ?_
  · intro hresolved
    exact absurd (hstate.symm.trans hresolved) EntryState.noConfusion
  · apply oneOutcome_of_perm hc.outcome rfl
    -- only the calls that wait for this lookup are more than before
    have hothers : (c.inFlight.erase nc).flatMap (c.begun.setEntry nc.host e').callersOf =
        (c.inFlight.erase nc).flatMap c.callersOf :=
      List.flatMap_congr fun x hx => callersOf_of_ne hsame (hc.host_ne hmem hx)
    have hcallers : (c.begun.setEntry nc.host e').callersOf nc = c.callersOf nc ++ [c.calls] := by
      rw [callersOf_of_some hself (by rw [he', haddress]), callersOf_of_some he haddress, he',
        List.map_append]
      rfl
    have hafter := flatMap_perm hmem (c.begun.setEntry nc.host e').callersOf
    have hbefore := flatMap_perm hmem c.callersOf
    rw [hothers, hcallers, List.append_assoc] at hafter
    show (c.outcomes ++ c.inFlight.flatMap _).Perm (c.outcomes ++ c.waiting ++ [c.calls])
    rw [List.append_assoc]
    apply List.Perm.append_left
    refine hafter.trans ?_
    refine (List.Perm.append_left _ List.perm_append_comm).trans ?_
    rw [← List.append_assoc]
    exact (hbefore.symm).append_right _

/-- A call for a host that has been resolved runs its callback at once. -/
theorem consistent_cached (hc : Consistent c) {host : H} {e : DnsEntry H A}
    (he : c.dnsMap host = some e) (hstate : e.state = .resolved) (hnow : timeMin ≤ now)
    (port : ℤ) (start : Option StartFailure) :
    Consistent (c.begun.call ⟨host, port, c.calls⟩ now start) := by
  have hentry : c.begun.entryFor host = e := entryFor_of_some he
  obtain ⟨hpending, havailable⟩ : e.pendingCallers = [] ∧ Available e.addrs := by
    rcases hc.entry host e he with ⟨hprogress, -⟩ | ⟨-, hresolved⟩
    · exact absurd (hprogress.symm.trans hstate) EntryState.noConfusion
    · exact hresolved
  obtain ⟨a, ha⟩ := firstAvailable_of_available havailable hnow e.last forever
  obtain ⟨e', he'⟩ : ∃ e' : DnsEntry H A, e' = { e with
    last := Int.bmod (e.last + 1) (2 ^ 32) } := ⟨_, rfl⟩
  obtain ⟨d, hd⟩ : ∃ d : Cache H A, d = { c.begun.setEntry host e' with
    ran := c.ran ++ [(c.calls, .addr a port)] } := ⟨_, rfl⟩
  have hcall : c.begun.call ⟨host, port, c.calls⟩ now start = d := by
    rw [Cache.call, hentry, hd, he']
    simp only [hstate, Cache.callFromCache, ha]
    rfl
  rw [hcall]
  have hself : d.dnsMap host = some e' := by
    rw [hd]
    exact Function.update_self ..
  have hsame : ∀ h, h ≠ host → d.dnsMap h = c.dnsMap h := by
    intro h hne
    rw [hd]
    exact Function.update_of_ne hne ..
  have hflight : d.inFlight = c.inFlight := by
    rw [hd]
    rfl
  refine consistent_setEntry hc he (by rw [he']) (by rw [he']) (by rw [he']) ?_ hself hsame hflight
    (by rw [hd]; rfl) ?_
  · intro _
    rw [he']
    exact hpending
  · apply oneOutcome_of_perm hc.outcome (by rw [hd]; rfl)
    have hwaiting : d.waiting = c.waiting := by
      rw [Cache.waiting, Cache.waiting, hflight]
      apply List.flatMap_congr
      intro x hx
      apply callersOf_of_ne hsame
      refine hc.host_ne_of_state ?_ x hx
      intro f hf hprogress
      rw [← Option.some.inj (he.symm.trans hf), hstate] at hprogress
      exact EntryState.noConfusion hprogress
    have houtcomes : d.outcomes = c.ran.map Prod.fst ++ [c.calls] ++ c.threw := by
      rw [hd, Cache.outcomes, List.map_append]
      rfl
    rw [hwaiting, houtcomes, Cache.outcomes]
    simp only [List.append_assoc]
    apply List.Perm.append_left
    exact List.perm_append_comm.trans (by rw [List.append_assoc])

/-! ## Completions and sweeps -/

omit [DecidableEq H] in
/-- The queued calls are the ones whose callbacks run. -/
theorem map_fst_runPending (pending : List (PendingCall H)) (addrs : List (AddrRecord A))
    (first : AddrRecord A) :
    (Cache.runPending pending addrs first).map Prod.fst =
      (pending.map PendingCall.dnsc).reverse := by
  have hzip : (pending.reverse.zipIdx.map Prod.fst).map PendingCall.dnsc =
      pending.reverse.map PendingCall.dnsc := by
    rw [List.zipIdx_map_fst]
  rw [← List.map_reverse, ← hzip, Cache.runPending, List.map_map, List.map_map]
  rfl

/-- The calls that waited for a lookup that has completed are now outcomes. -/
theorem oneOutcome_complete (hc : Consistent c) (hnc : nc ∈ c.inFlight)
    (hsame : ∀ h, h ≠ nc.host → d.dnsMap h = c.dnsMap h)
    (hflight : d.inFlight = c.inFlight.erase nc) (hcalls : d.calls = c.calls)
    {done : List (ℕ × CallbackArg A)} (hran : d.ran = c.ran ++ done) (hthrew : d.threw = c.threw)
    (hdone : done.map Prod.fst = (c.callersOf nc).reverse) : OneOutcome d := by
  have hothers : (c.inFlight.erase nc).flatMap d.callersOf =
      (c.inFlight.erase nc).flatMap c.callersOf :=
    List.flatMap_congr fun x hx => callersOf_of_ne hsame (hc.host_ne hnc hx)
  have hbefore := flatMap_perm hnc c.callersOf
  have hperm : (d.outcomes ++ d.waiting).Perm (c.outcomes ++ c.waiting) := by
    rw [Cache.outcomes, Cache.waiting, hran, hthrew, hflight, hothers, List.map_append, hdone]
    simp only [Cache.outcomes, Cache.waiting, List.append_assoc]
    apply List.Perm.append_left
    -- the calls that have waited stand in front of those that threw
    refine ((List.reverse_perm (c.callersOf nc)).append_right _).trans ?_
    rw [← List.append_assoc]
    refine (List.perm_append_comm.append_right _).trans ?_
    rw [List.append_assoc]
    exact hbefore.symm.append_left _
  rw [OneOutcome, hcalls]
  exact hperm.trans hc.outcome

/-- A lookup is over: its entry is gone or resolved. -/
theorem consistent_over (hc : Consistent c) (hnc : nc ∈ c.inFlight)
    (hself : ∀ e, d.dnsMap nc.host = some e →
      e.state = .resolved ∧ e.pendingCallers = [] ∧ Available e.addrs)
    (hsame : ∀ h, h ≠ nc.host → d.dnsMap h = c.dnsMap h)
    (hflight : d.inFlight = c.inFlight.erase nc) (hscheduled : d.scheduled = c.scheduled)
    (houtcome : OneOutcome d) : Consistent d := by
  refine ⟨?_, ?_, ?_, ?_, houtcome⟩
  · intro h f hf
    by_cases heq : h = nc.host
    · rw [heq] at hf
      exact Or.inr (hself f hf)
    · rw [hsame h heq] at hf
      rcases hc.entry h f hf with ⟨hprogress, hnil, hmem⟩ | hresolved
      · refine Or.inl ⟨hprogress, hnil, ?_⟩
        rw [hflight]
        apply (List.mem_erase_of_ne _).mpr hmem
        intro hx
        exact heq (congrArg NotifyComplete.host hx)
      · exact Or.inr hresolved
  · intro x hx
    rw [hflight] at hx
    rw [hsame _ (hc.host_ne hnc hx)]
    exact hc.lookup x (List.mem_of_mem_erase hx)
  · rw [hflight]
    exact hc.nodup.sublist (List.erase_sublist.map _)
  · rw [hscheduled]
    exact hc.scheduled

/-- The completion of a lookup runs the callbacks of the calls that wait for it. -/
theorem consistent_complete (hc : Consistent c) (hnc : nc ∈ c.inFlight) (result : LookupResult A)
    (now : Timespec) : Consistent (c.resolveComplete nc result now) := by
  obtain ⟨e, he, haddress, hstate⟩ := hc.lookup nc hnc
  have haddrs : e.addrs = [] := by
    rcases hc.entry nc.host e he with ⟨-, haddrs, -⟩ | ⟨hresolved, -⟩
    · exact haddrs
    · exact absurd (hstate.symm.trans hresolved) EntryState.noConfusion
  have hcallers := callersOf_of_some he haddress
  obtain ⟨d, hd⟩ : ∃ d, d = c.resolveComplete nc result now := ⟨_, rfl⟩
  rw [← hd]
  simp only [Cache.resolveComplete, he, haddress, ne_eq, not_true_eq_false, if_false] at hd
  cases result with
  | error ret =>
    have hsame : ∀ h, h ≠ nc.host → d.dnsMap h = c.dnsMap h := by
      intro h hne
      rw [hd]
      exact Function.update_of_ne hne ..
    have hran : d.ran = c.ran ++ e.pendingCallers.reverse.map fun pc => (pc.dnsc, .error ret) := by
      rw [hd]
    apply consistent_over hc hnc _ hsame (by rw [hd]) (by rw [hd])
    · apply oneOutcome_complete hc hnc hsame (by rw [hd]) (by rw [hd]) hran (by rw [hd])
      rw [hcallers, List.map_map, List.map_reverse]
      rfl
    · intro f hf
      rw [hd] at hf
      exact absurd (hf.symm.trans (Function.update_self ..)) (Option.some_ne_none f)
  | resolved first rest =>
    have hsame : ∀ h, h ≠ nc.host → d.dnsMap h = c.dnsMap h := by
      intro h hne
      rw [hd]
      exact Function.update_of_ne hne ..
    have hran : d.ran = c.ran ++ Cache.runPending e.pendingCallers
        (e.addrs ++ (first :: rest).map AddrRecord.new) (.new first) := by
      rw [hd]
    have hself : d.dnsMap nc.host = some ⟨nc.entry,
        e.addrs ++ (first :: rest).map AddrRecord.new, [], e.last, .resolved, now⟩ := by
      rw [hd]
      exact Function.update_self ..
    apply consistent_over hc hnc _ hsame (by rw [hd]; rfl) (by rw [hd]; rfl)
    · apply oneOutcome_complete hc hnc hsame (by rw [hd]; rfl) (by rw [hd]; rfl) hran
        (by rw [hd]; rfl)
      rw [hcallers, map_fst_runPending]
    · intro f hf
      rw [← Option.some.inj (hself.symm.trans hf)]
      refine ⟨rfl, rfl, ?_, ?_⟩
      · rw [haddrs, List.nil_append, List.map_cons]
        exact List.cons_ne_nil _ _
      · intro a ha
        rw [haddrs, List.nil_append] at ha
        obtain ⟨b, -, rfl⟩ := List.mem_map.mp ha
        exact ⟨rfl, rfl⟩

omit [DecidableEq H] in
/-- A sweep leaves the entries that are in progress alone. -/
theorem consistent_sweep (hc : Consistent c) (now : Timespec) : Consistent (c.sweep now) := by
  have hkept : ∀ x ∈ c.inFlight, (c.sweep now).dnsMap x.host = c.dnsMap x.host := by
    intro x hx
    obtain ⟨e, he, -, hstate⟩ := hc.lookup x hx
    show (c.dnsMap x.host).filter _ = _
    rw [he, Option.filter_some, Cache.expired, hstate]
    rfl
  refine ⟨?_, ?_, hc.nodup, hc.scheduled, ?_⟩
  · intro h e he
    exact hc.entry h e (Option.filter_eq_some_iff.mp he).1
  · intro x hx
    rw [hkept x hx]
    exact hc.lookup x hx
  · have hwaiting : (c.sweep now).waiting = c.waiting := by
      apply List.flatMap_congr
      intro x hx
      rw [Cache.callersOf, hkept x hx]
      rfl
    rw [OneOutcome, hwaiting]
    exact hc.outcome

/-! ## Runs -/

/-- Every step in which no lookup fails to start keeps entries, lookups and calls together. -/
theorem consistent_next (hc : Consistent c) {a : DnsAction H A} (hstarts : Starts c a)
    (ha : c.enabled a) : Consistent (c.next a) := by
  cases a with
  | sweep now => exact consistent_sweep hc now
  | complete nc result now => exact consistent_complete hc ha result now
  | retry i now start =>
    -- nothing is ever scheduled
    obtain ⟨-, task, htask, -⟩ := ha
    rw [hc.scheduled] at htask
    exact absurd htask.symm (Option.some_ne_none task)
  | lookup host port now start =>
    cases hhost : c.dnsMap host with
    | none =>
      have hstart : start = none := hstarts (by rw [entryFor_of_none hhost])
      rw [hstart]
      exact consistent_initiate hc hhost port now
    | some e =>
      rcases hc.entry host e hhost with ⟨hprogress, -⟩ | ⟨hresolved, -⟩
      · exact consistent_queue hc hhost hprogress port now start
      · exact consistent_cached hc hhost hresolved ha port start

/-- In every run in which all lookups start, each call has exactly one outcome as soon as its
lookup has completed. -/
theorem oneOutcome (hc : (dnsMachine H A).Reachable Starts c) : OneOutcome c := by
  have hconsistent : Consistent c := by
    refine hc.invariant ?_ ?_
    · refine ⟨?_, ?_, List.nodup_nil, rfl, List.Perm.refl []⟩
      · intro host e he
        exact absurd he.symm (Option.some_ne_none e)
      · intro nc hnc
        exact absurd hnc List.not_mem_nil
    · intro c a hconsistent hstarts ha
      exact consistent_next hconsistent hstarts ha
  exact hconsistent.outcome

instance instDecidableStarts (c : Cache H A) (a : DnsAction H A) : Decidable (Starts c a) :=
  match a with
  | .lookup host _ _ start =>
    inferInstanceAs (Decidable ((c.entryFor host).state = .init → start = none))
  | .retry i _ start => inferInstanceAs (Decidable (∀ task ∈ c.scheduled[i]?,
      (c.entryFor task.1.host).state = .init → start = none))
  | .complete _ _ _ | .sweep _ => isTrue trivial

/-- Two calls wait for one lookup, a third one gets its address from the cache, and a fourth one
for another host is told that its lookup failed. -/
theorem oneOutcome_twoHosts : ∃ c : Cache ℕ ℕ, OneOutcome c ∧ c.outcomes = [1, 0, 2, 3] := by
  have hreplay : ((dnsMachine ℕ ℕ).replay Starts
      [.lookup 7 80 ⟨1, 0⟩ none, .lookup 7 443 ⟨1, 0⟩ none,
        .complete ⟨7, 0⟩ (.resolved 9 []) ⟨2, 0⟩, .lookup 7 80 ⟨3, 0⟩ none,
        .lookup 8 80 ⟨3, 0⟩ none, .sweep ⟨4, 0⟩, .complete ⟨8, 1⟩ (.error (-2)) ⟨5, 0⟩]
      (dnsMachine ℕ ℕ).init).any (fun c => decide (c.outcomes = [1, 0, 2, 3])) = true := by
    decide +kernel
  obtain ⟨c, hc, hp⟩ := Machine.reachable_of_replay hreplay
  exact ⟨c, oneOutcome hc, of_decide_eq_true hp⟩

/-- When `getaddrinfo_a` fails, the callback is run and the call throws. -/
theorem not_oneOutcome_start : ∃ c : Cache ℕ ℕ, (dnsMachine ℕ ℕ).Reachable Machine.anyStep c ∧
    ¬ OneOutcome c := by
  have hreplay : ((dnsMachine ℕ ℕ).replay Machine.anyStep
      [.lookup 7 80 ⟨1, 0⟩ (some (.getaddrinfo (-3)))] (dnsMachine ℕ ℕ).init).any
        (fun c => decide (c.outcomes = [0, 0] ∧ c.calls = 1)) = true := by decide +kernel
  obtain ⟨c, hc, hp⟩ := Machine.reachable_of_replay hreplay
  refine ⟨c, hc, ?_⟩
  obtain ⟨houtcomes, hcalls⟩ := of_decide_eq_true hp
  intro hone
  have hlen := hone.length_eq
  rw [houtcomes, hcalls, List.length_append, List.length_range] at hlen
  have hlen' : 2 + c.waiting.length = 1 := hlen
  omega

end Anon.Dns
