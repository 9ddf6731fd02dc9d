import Anon.Epc.Lookup
import Anon.Epc.SockaddrIn6

/-!
# What a lookup makes of the endpoints

`update_endpoints` puts the endpoints that are known and the ones that were found into one map,
by address, and takes the old ones out of it again.

* `get_known`, `Extends`: the two loops that fill the map.
* `Distinct`: no two endpoints have one address. Every reachable cluster is so.
* `Merges`: what the list holds afterwards.
* `updateEndpoints_merges`: from every reachable state, for addresses of any family.
-/

namespace Anon.Epc

variable {Addr A : Type} [LinearOrder Addr] {frequency now : ℤ} {addrs : List (Addr × ℤ)}
variable {m : OrderedMap Addr (Endpoint Addr)} {eps : List (Endpoint Addr)}

/-! ## The endpoints that are known -/

/-- Every endpoint of the map is under its address. -/
def Keyed (m : OrderedMap Addr (Endpoint Addr)) : Prop := ∀ e ∈ m, e.2.addr = e.1

/-- A sorted map is keyed if what it finds for an address has that address. -/
theorem keyed_of_get (hm : m.Sorted) (h : ∀ k ep, m.get k = some ep → ep.addr = k) : Keyed m := by
  intro e he
  exact h e.1 e.2 (hm.get_eq_some_iff.mpr he)

theorem Keyed.get (h : Keyed m) (hm : m.Sorted) {k : Addr} {ep : Endpoint Addr}
    (hget : m.get k = some ep) : ep.addr = k :=
  h (k, ep) (hm.get_eq_some_iff.mp hget)

/-- The map after the loop over the endpoints that are known, which `insert` does not replace. -/
theorem get_known (hm : m.Sorted) (eps : List (Endpoint Addr)) :
    (eps.foldl (fun m ep => OrderedMap.alter ep.addr (·.getD ep) m) m).Sorted ∧ ∀ k,
      (eps.foldl (fun m ep => OrderedMap.alter ep.addr (·.getD ep) m) m).get k =
        (m.get k).or (eps.find? fun ep => ep.addr = k) := by
  induction eps generalizing m with
  | nil =>
    refine ⟨hm, fun k => ?_⟩
    rw [List.find?_nil, Option.or_none]
    rfl
  | cons ep eps ih =>
    obtain ⟨hsorted, hget⟩ := ih (hm.alter ep.addr (·.getD ep))
    refine ⟨hsorted, fun k => ?_⟩
    rw [List.foldl_cons, hget k, hm.get_alter]
    by_cases hk : k = ep.addr
    -- the address of the endpoint, which may be in the map already
    · rw [if_pos hk, List.find?_cons_of_pos (by simp [hk]), ← hk]
      cases m.get k with
      | none => rfl
      | some _ => rfl
    · have hne : ¬ep.addr = k := fun h => hk h.symm
      rw [if_neg hk, List.find?_cons_of_neg (by simp [hne])]

/-! ## The addresses that were found -/

/-- What the loop over the addresses that were found makes of a map. -/
structure Extends (now : ℤ) (addrs : List (Addr × ℤ)) (m : OrderedMap Addr (Endpoint Addr) × ℕ)
    (m' : OrderedMap Addr (Endpoint Addr) × ℕ) : Prop where
  sorted : m'.1.Sorted
  keyed : Keyed m'.1
  made : m.2 ≤ m'.2
  /-- The other addresses have what they had. -/
  others : ∀ k, k ∉ addrs.map Prod.fst → m'.1.get k = m.1.get k
  /-- An address that was found has a recent endpoint. -/
  found : ∀ k ∈ addrs.map Prod.fst, ∃ ep, m'.1.get k = some ep ∧ now ≤ ep.lastLookupTime
  /-- The objects are the ones that were there, or new. -/
  keeps : ∀ k ep ep', m.1.get k = some ep → m'.1.get k = some ep' → ep'.id = ep.id
  fresh : ∀ k ep', m.1.get k = none → m'.1.get k = some ep' → m.2 ≤ ep'.id ∧ ep'.id < m'.2

/-- One address. -/
theorem extends_addAddr {m : OrderedMap Addr (Endpoint Addr) × ℕ} (hm : m.1.Sorted)
    (hkeyed : Keyed m.1) {addr : Addr × ℤ} (hnow : now ≤ addr.2) :
    Extends now [addr] m (Cluster.addAddr now m addr) := by
  unfold Cluster.addAddr
  cases hget : m.1.get addr.1 with
  | none =>
    have hafter (k : Addr) := hm.get_alter addr.1 k fun _ => (⟨m.2, addr.1, addr.2⟩ : Endpoint Addr)
    refine ⟨hm.alter _ _, keyed_of_get (hm.alter _ _) fun k ep hep => ?_, Nat.le_succ _,
      fun k hk => ?_, fun k hk => ⟨_, (hafter k).trans (if_pos (by simpa using hk)), hnow⟩,
      fun k ep ep' hep hep' => ?_, fun k ep' hep hep' => ?_⟩
    · rw [hafter] at hep
      split at hep
      · next hk => rw [hk, ← Option.some.inj hep]
      · exact hkeyed.get hm hep
    · exact (hafter k).trans (if_neg (by simpa using hk))
    · rw [hafter] at hep'
      split at hep'
      · next hk =>
        rw [hk, hget] at hep
        exact absurd hep (by simp)
      · rw [hep] at hep'
        rw [Option.some.inj hep']
    · rw [hafter] at hep'
      split at hep'
      · rw [← Option.some.inj hep']
        exact ⟨le_rfl, Nat.lt_succ_self _⟩
      · rw [hep] at hep'
        exact absurd hep' (by simp)
  | some old =>
    have hafter (k : Addr) := hm.get_alter addr.1 k fun ep =>
      { ep.getD (⟨m.2, addr.1, addr.2⟩ : Endpoint Addr) with lastLookupTime := now }
    rw [hget] at hafter
    refine ⟨hm.alter _ _, keyed_of_get (hm.alter _ _) fun k ep hep => ?_, le_rfl,
      fun k hk => ?_, fun k hk => ⟨_, (hafter k).trans (if_pos (by simpa using hk)), le_rfl⟩,
      fun k ep ep' hep hep' => ?_, fun k ep' hep hep' => ?_⟩
    · rw [hafter] at hep
      split at hep
      · next hk =>
        have hold : old.addr = addr.1 := hkeyed.get hm hget
        rw [hk, ← Option.some.inj hep]
        exact hold
      · exact hkeyed.get hm hep
    · exact (hafter k).trans (if_neg (by simpa using hk))
    · rw [hafter] at hep'
      split at hep'
      -- only the time has changed
      · next hk =>
        rw [hk, hget] at hep
        rw [← Option.some.inj hep', ← Option.some.inj hep]
        rfl
      · rw [hep] at hep'
        rw [Option.some.inj hep']
    · rw [hafter] at hep'
      split at hep'
      · next hk =>
        rw [hk, hget] at hep
        exact absurd hep (by simp)
      · rw [hep] at hep'
        exact absurd hep' (by simp)

/-- One address after others. -/
theorem Extends.cons {m m' m'' : OrderedMap Addr (Endpoint Addr) × ℕ} {addr : Addr × ℤ}
    (h : Extends now [addr] m m') (h' : Extends now addrs m' m'') :
    Extends now (addr :: addrs) m m'' where
  sorted := h'.sorted
  keyed := h'.keyed
  made := h.made.trans h'.made
  others := by
    intro k hk
    rw [List.map_cons, List.mem_cons, not_or] at hk
    rw [h'.others k hk.2, h.others k (by simpa using hk.1)]
  found := by
    intro k hk
    by_cases hrest : k ∈ addrs.map Prod.fst
    · exact h'.found k hrest
    · rw [List.map_cons, List.mem_cons] at hk
      obtain ⟨ep, hep, hnow⟩ := h.found k (by simpa using hk.resolve_right hrest)
      exact ⟨ep, (h'.others k hrest).trans hep, hnow⟩
  keeps := by
    intro k ep ep'' hep hep''
    cases hmid : m'.1.get k with
    -- an address is not lost
    | none =>
      by_cases hk : k ∈ [addr].map Prod.fst
      · obtain ⟨ep', hep', _⟩ := h.found k hk
        rw [hmid] at hep'
        exact absurd hep' (by simp)
      · rw [h.others k hk, hep] at hmid
        exact absurd hmid (by simp)
    | some ep' =>
      rw [h'.keeps k ep' ep'' hmid hep'']
      exact h.keeps k ep ep' hep hmid
  fresh := by
    intro k ep'' hnone hep''
    cases hmid : m'.1.get k with
    | none =>
      have hid := h'.fresh k ep'' hmid hep''
      exact ⟨h.made.trans hid.1, hid.2⟩
    | some ep' =>
      have hid := h.fresh k ep' hnone hmid
      rw [h'.keeps k ep' ep'' hmid hep'']
      exact ⟨hid.1, hid.2.trans_le h'.made⟩

/-- All addresses. -/
theorem extends_foldl {m : OrderedMap Addr (Endpoint Addr) × ℕ} (hm : m.1.Sorted)
    (hkeyed : Keyed m.1) (hnow : ∀ addr ∈ addrs, now ≤ addr.2) :
    Extends now addrs m (addrs.foldl (Cluster.addAddr now) m) := by
  induction addrs generalizing m with
  | nil =>
    refine ⟨hm, hkeyed, le_rfl, fun _ _ => rfl, fun k hk => absurd hk List.not_mem_nil, ?_, ?_⟩
    · intro k ep ep' hep hep'
      exact congrArg Endpoint.id (Option.some.inj (hep'.symm.trans hep))
    · intro k ep' hnone hep'
      exact absurd (hnone.symm.trans hep') (by simp)
  | cons addr addrs ih =>
    have hone := extends_addAddr hm hkeyed (hnow addr List.mem_cons_self)
    exact hone.cons (ih hone.sorted hone.keyed fun addr' h => hnow addr' (List.mem_cons_of_mem _ h))

/-! ## The list -/

/-- No two endpoints have one address, and the objects are ones that were made. -/
structure Distinct (s : Cluster Addr A) : Prop where
  addrs : (s.endpoints.map Endpoint.addr).Nodup
  made : ∀ ep ∈ s.endpoints, ep.id < s.made

/-- What the endpoints are after a lookup, if they were `eps` before. -/
structure Merges (frequency now : ℤ) (addrs : List (Addr × ℤ)) (eps eps' : List (Endpoint Addr)) :
    Prop where
  /-- Each address once. -/
  nodup : (eps'.map Endpoint.addr).Nodup
  /-- The addresses that were found, and the ones that were seen not long ago. -/
  mem_iff : ∀ addr, addr ∈ eps'.map Endpoint.addr ↔ addr ∈ addrs.map Prod.fst ∨
    ∃ ep ∈ eps, ep.addr = addr ∧ now - Cluster.maxAge frequency ≤ ep.lastLookupTime
  /-- An endpoint that was there is the same object. -/
  keeps : ∀ ep ∈ eps, ∀ ep' ∈ eps', ep'.addr = ep.addr → ep'.id = ep.id
  /-- Any other one is a new object. -/
  fresh : ∀ ep' ∈ eps', ep'.addr ∉ eps.map Endpoint.addr → ∀ ep ∈ eps, ep'.id ≠ ep.id

theorem find?_addr_eq_some_iff (hnodup : (eps.map Endpoint.addr).Nodup) {addr : Addr}
    {ep : Endpoint Addr} :
    (eps.find? fun ep => ep.addr = addr) = some ep ↔ ep ∈ eps ∧ ep.addr = addr := by
  constructor
  · intro h
    exact ⟨List.mem_of_find?_eq_some h, by simpa using List.find?_some h⟩
  · rintro ⟨hmem, rfl⟩
    have hsome : (eps.find? fun ep' => ep'.addr = ep.addr).isSome := by
      rw [List.find?_isSome]
      exact ⟨ep, hmem, by simp⟩
    obtain ⟨ep', hep'⟩ := Option.isSome_iff_exists.mp hsome
    have haddr : ep'.addr = ep.addr := by simpa using List.find?_some hep'
    rw [hep', List.inj_on_of_nodup_map hnodup (List.mem_of_find?_eq_some hep') hmem haddr]

variable {s : Cluster Addr A}

/-- The map of all endpoints. -/
theorem extends_unionEndpoints (hs : Distinct s) (hnow : ∀ addr ∈ addrs, now ≤ addr.2) :
    ∃ known : OrderedMap Addr (Endpoint Addr),
      (∀ addr ep, known.get addr = some ep ↔ ep ∈ s.endpoints ∧ ep.addr = addr) ∧
      Extends now addrs (known, s.made) (s.unionEndpoints now addrs) := by
  obtain ⟨hsorted, hget⟩ := get_known OrderedMap.sorted_nil s.endpoints
  have hknown (addr : Addr) (ep : Endpoint Addr) :
      OrderedMap.get addr (s.endpoints.foldl
        (fun m ep => OrderedMap.alter ep.addr (·.getD ep) m) []) = some ep ↔
        ep ∈ s.endpoints ∧ ep.addr = addr := by
    rw [hget addr]
    exact find?_addr_eq_some_iff hs.addrs
  refine ⟨_, hknown, extends_foldl hsorted (keyed_of_get hsorted fun addr ep hep => ?_) hnow⟩
  exact ((hknown addr ep).mp hep).2

/-- The endpoints after a lookup that has found addresses. -/
theorem mem_updateEndpoints (frequency : ℤ) (ep : Endpoint Addr) (hne : addrs ≠ [])
    {known : OrderedMap Addr (Endpoint Addr)}
    (h : Extends now addrs (known, s.made) (s.unionEndpoints now addrs)) :
    ep ∈ (s.updateEndpoints frequency now addrs).endpoints ↔
      (s.unionEndpoints now addrs).1.get ep.addr = some ep ∧
        now - Cluster.maxAge frequency ≤ ep.lastLookupTime := by
  unfold Cluster.updateEndpoints
  rw [if_neg hne]
  show ep ∈ List.map Prod.snd _ ↔ _
  rw [List.mem_map, h.sorted.get_eq_some_iff]
  constructor
  · rintro ⟨e, he, rfl⟩
    obtain ⟨hmem, hage⟩ := List.mem_filter.mp he
    rw [h.keyed e hmem]
    exact ⟨hmem, not_lt.mp (of_decide_eq_true hage)⟩
  · intro hep
    refine ⟨(ep.addr, ep), List.mem_filter.mpr ⟨hep.1, ?_⟩, rfl⟩
    exact decide_eq_true (not_lt.mpr hep.2)

/-- Whatever the endpoints were, afterwards each address is there once. -/
theorem nodup_updateEndpoints (hs : Distinct s) (hne : addrs ≠ [])
    (hnow : ∀ addr ∈ addrs, now ≤ addr.2) :
    ((s.updateEndpoints frequency now addrs).endpoints.map Endpoint.addr).Nodup := by
  obtain ⟨known, -, hextends⟩ := extends_unionEndpoints hs hnow
  unfold Cluster.updateEndpoints
  rw [if_neg hne]
  show (List.map Endpoint.addr (List.map Prod.snd _)).Nodup
  rw [List.map_map]
  apply List.Pairwise.map (R := fun e e' : Addr × Endpoint Addr => e.2.addr ≠ e'.2.addr)
  · exact fun _ _ h => h
  · apply List.Pairwise.imp_of_mem _ (hextends.sorted.filter _)
    intro e e' he he' hlt
    rw [hextends.keyed e (List.mem_of_mem_filter he),
      hextends.keyed e' (List.mem_of_mem_filter he')]
    exact ne_of_lt hlt

/-- The endpoints after a lookup, from a state whose endpoints have distinct addresses. -/
theorem Distinct.merges (hs : Distinct s) (hfrequency : 0 ≤ frequency) (hne : addrs ≠ [])
    (hnow : ∀ addr ∈ addrs, now ≤ addr.2) :
    Merges frequency now addrs s.endpoints (s.updateEndpoints frequency now addrs).endpoints := by
  obtain ⟨known, hknown, hextends⟩ := extends_unionEndpoints hs hnow
  have hmem (ep : Endpoint Addr) := mem_updateEndpoints frequency ep hne
    hextends
  have hage : 0 ≤ Cluster.maxAge frequency := by
    unfold Cluster.maxAge
    omega
  refine ⟨nodup_updateEndpoints hs hne hnow, fun addr => ?_, fun ep hep ep' hep' haddr => ?_,
    fun ep' hep' hother ep hep => ?_⟩
  · rw [List.mem_map]
    constructor
    · rintro ⟨ep', hep', rfl⟩
      obtain ⟨hget, hrecent⟩ := (hmem ep').mp hep'
      by_cases hfound : ep'.addr ∈ addrs.map Prod.fst
      · exact .inl hfound
      · rw [hextends.others _ hfound] at hget
        obtain ⟨hold, haddr⟩ := (hknown _ _).mp hget
        exact .inr ⟨ep', hold, haddr, hrecent⟩
    · intro h
      by_cases hfound : addr ∈ addrs.map Prod.fst
      -- an address that was found is not too old
      · obtain ⟨ep', hget, hrecent⟩ := hextends.found addr hfound
        have haddr := hextends.keyed.get hextends.sorted hget
        refine ⟨ep', (hmem ep').mpr ⟨?_, by omega⟩, haddr⟩
        rw [haddr]
        exact hget
      · obtain ⟨ep, hold, haddr, hrecent⟩ := h.resolve_left hfound
        refine ⟨ep, (hmem ep).mpr ⟨?_, hrecent⟩, haddr⟩
        rw [haddr, hextends.others addr hfound]
        exact (hknown addr ep).mpr ⟨hold, haddr⟩
  · obtain ⟨hget, -⟩ := (hmem ep').mp hep'
    exact hextends.keeps ep'.addr ep ep' ((hknown _ _).mpr ⟨hep, haddr.symm⟩) hget
  · obtain ⟨hget, -⟩ := (hmem ep').mp hep'
    have hnone : known.get ep'.addr = none := by
      by_contra hsome
      obtain ⟨old, hold⟩ := Option.ne_none_iff_exists'.mp hsome
      obtain ⟨hmemold, haddr⟩ := (hknown _ _).mp hold
      exact hother (haddr ▸ List.mem_map_of_mem hmemold)
    have hid := (hextends.fresh ep'.addr ep' hnone hget).1
    have hmade := hs.made ep hep
    omega

/-! ## Every reachable state -/

/-- A lookup keeps the addresses distinct. -/
theorem Distinct.updateEndpoints (hs : Distinct s) (hne : addrs ≠ [])
    (hnow : ∀ addr ∈ addrs, now ≤ addr.2) : Distinct (s.updateEndpoints frequency now addrs) where
  addrs := nodup_updateEndpoints hs hne hnow
  made := by
    intro ep hep
    obtain ⟨known, hknown, hextends⟩ := extends_unionEndpoints hs hnow
    obtain ⟨hget, -⟩ := (mem_updateEndpoints _ ep hne hextends).mp hep
    have hmade : (s.updateEndpoints frequency now addrs).made = (s.unionEndpoints now addrs).2 := by
      unfold Cluster.updateEndpoints
      rw [if_neg hne]
      rfl
    rw [hmade]
    cases hbefore : known.get ep.addr with
    | none => exact (hextends.fresh ep.addr ep hbefore hget).2
    | some old =>
      rw [hextends.keeps ep.addr old ep hbefore hget]
      exact (hs.made old ((hknown _ _).mp hbefore).1).trans_le hextends.made

omit [LinearOrder Addr] in
/-- Fewer endpoints. -/
theorem Distinct.remove (hs : Distinct s) {t : Cluster Addr A}
    (hsub : t.endpoints.Sublist s.endpoints) (hmade : t.made = s.made) : Distinct t where
  addrs := hs.addrs.sublist (hsub.map Endpoint.addr)
  made := by
    intro ep hep
    rw [hmade]
    exact hs.made ep (hsub.subset hep)

variable [DecidableEq A]

omit [LinearOrder Addr] in
/-- A call that waits or goes on with an endpoint changes no endpoint. -/
theorem endpoints_waitOrChoose (s : Cluster Addr A) (a : A) :
    (s.choose a).endpoints = s.endpoints ∧ (s.choose a).made = s.made ∧
      (s.waitOrChoose a).endpoints = s.endpoints ∧ (s.waitOrChoose a).made = s.made := by
  have hchoose : (s.choose a).endpoints = s.endpoints ∧ (s.choose a).made = s.made := by
    unfold Cluster.choose
    split
    · exact ⟨rfl, rfl⟩
    · exact ⟨rfl, rfl⟩
  refine ⟨hchoose.1, hchoose.2, ?_⟩
  unfold Cluster.waitOrChoose
  split
  · exact ⟨rfl, rfl⟩
  · exact hchoose

omit [LinearOrder Addr] [DecidableEq A] in
theorem endpoints_startLookup (s : Cluster Addr A) :
    s.startLookup.endpoints = s.endpoints ∧ s.startLookup.made = s.made := by
  unfold Cluster.startLookup
  split
  · exact ⟨rfl, rfl⟩
  · exact ⟨rfl, rfl⟩

theorem Distinct.step (hs : Distinct s) {x : LookupAction Addr A} (he : s.enabled x) :
    Distinct (s.next frequency x) := by
  match x with
  | .enter a old =>
    show Distinct (if s.endpoints = [] ∨ old = true then s.startLookup.waitOrChoose a
      else s.choose a)
    split
    · obtain ⟨-, -, hwait, hmade⟩ := endpoints_waitOrChoose s.startLookup a
      have hstart := endpoints_startLookup s
      apply hs.remove
      · rw [hwait, hstart.1]
      · rw [hmade, hstart.2]
    · obtain ⟨hchoose, hmade, -, -⟩ := endpoints_waitOrChoose s a
      exact hs.remove (by rw [hchoose]) hmade
  | .wake a =>
    cases herr : s.lookupErr with
    | some e =>
      simp only [Cluster.next, herr]
      exact hs.remove (List.Sublist.refl _) rfl
    | none =>
      simp only [Cluster.next, herr]
      obtain ⟨-, -, hwait, hmade⟩ := endpoints_waitOrChoose s a
      exact hs.remove (by rw [hwait]) hmade
  | .leave a => exact hs.remove (List.Sublist.refl _) rfl
  | .lookupSucceeds now addrs => exact hs.updateEndpoints he.2.1 he.2.2
  | .lookupFails => exact hs.remove (List.Sublist.refl _) rfl
  | .lookupThrows => exact hs.remove (List.Sublist.refl _) rfl
  | .erase endpoint => exact hs.remove List.eraseP_sublist rfl
  | .deleteCachedEndpoints => exact hs.remove (List.nil_sublist _) rfl
  | .eraseAllEndpoints => exact hs.remove (List.nil_sublist _) rfl

/-- In every reachable state. -/
theorem distinct (hs : (lookupMachine Addr A frequency).Reachable Machine.anyStep s) :
    Distinct s := by
  apply hs.invariant
  · exact ⟨List.nodup_nil, fun _ hep => absurd hep List.not_mem_nil⟩
  · intro s x h _ he
    exact h.step he

/-! ## Addresses of any family -/

/-- What `update_endpoints` sees of a list of addresses. -/
def found (addrs : List (SockaddrIn6 × ℤ)) : List (Address × ℤ) :=
  addrs.map fun addr => (addr.1.address, addr.2)

/-- From every reachable state, with a lookup frequency that is not negative. The time at which
an endpoint is made is not before the beginning of the update. -/
theorem updateEndpoints_merges {s : Cluster Address A} {addrs : List (SockaddrIn6 × ℤ)}
    (hfrequency : 0 ≤ frequency)
    (hs : (lookupMachine Address A frequency).Reachable Machine.anyStep s)
    (he : s.enabled (.lookupSucceeds now (found addrs))) :
    Merges frequency now (found addrs) s.endpoints
        (s.next frequency (.lookupSucceeds now (found addrs))).endpoints ∧
      (∀ addr : SockaddrIn6, addr.address ∈ (found addrs).map Prod.fst ↔
        ∃ addr' ∈ addrs, addr.same addr'.1 = true) ∧
      ∀ addr1 addr2 : SockaddrIn6, (addr1.before addr2 = true ↔ addr1.address < addr2.address) ∧
        (addr1.same addr2 = true ↔ addr1.address = addr2.address) := by
  refine ⟨(distinct hs).merges hfrequency he.2.1 he.2.2, fun addr => ?_, fun addr1 addr2 =>
    ⟨SockaddrIn6.before_iff, SockaddrIn6.same_iff⟩⟩
  simp only [found, List.map_map, List.mem_map, SockaddrIn6.same_iff, Function.comp_apply]
  constructor
  · rintro ⟨addr', haddr', heq⟩
    exact ⟨addr', haddr', heq.symm⟩
  · rintro ⟨addr', haddr', heq⟩
    exact ⟨addr', haddr', heq.symm⟩

/-- An address on port 80, with something behind what is compared of an IPv4 address. -/
def SockaddrIn6.web (family host rest : UInt8) : SockaddrIn6 :=
  ⟨#v[family, 0, 0, 80, 10, 0, 0, host, 0, 0, 0, 0, 0, 0, 0, 0,
    rest, rest, rest, rest, rest, rest, rest, rest, rest, rest, rest, rest]⟩

/-- Two IPv4 addresses are known, and one of them is found again, with an IPv6 address in front of
it and behind it. -/
theorem updateEndpoints_merges_two : ∃ s : Cluster Address (Fin 1), s.endpoints.length = 2 ∧
    Merges 20 300000000000
      (found [(.web 10 1 0, 300000000001), (.web 2 1 7, 300000000002), (.web 10 1 0, 300000000003)])
      s.endpoints
      (s.next 20 (.lookupSucceeds 300000000000 (found [(.web 10 1 0, 300000000001),
        (.web 2 1 7, 300000000002), (.web 10 1 0, 300000000003)]))).endpoints := by
  have h : ∃ s, (lookupMachine Address (Fin 1) 20).Reachable Machine.anyStep s ∧
      decide (s.endpoints.length = 2 ∧ s.inFlight = true) = true := by
    apply Machine.reachable_of_replay (l := [.enter 0 false,
      .lookupSucceeds 5 (found [(.web 2 1 0, 6), (.web 2 2 0, 7)]), .wake 0, .leave 0,
      .enter 0 true])
    decide +kernel
  obtain ⟨s, hs, hstate⟩ := h
  obtain ⟨hlen, hflight⟩ := of_decide_eq_true hstate
  refine ⟨s, hlen, (updateEndpoints_merges (by decide) hs ⟨hflight, ?_, ?_⟩).1⟩
  · decide +kernel
  · decide +kernel

end Anon.Epc
