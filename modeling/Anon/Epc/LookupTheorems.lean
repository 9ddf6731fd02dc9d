import Anon.Epc.Lookup

/-!
# Nobody waits for a lookup that is not under way

A fiber waits while there are no endpoints, and is notified at the end of a lookup. Before it has
locked the mutex again, others may remove the endpoints that the lookup has found, or leave an
error that is not about the present.

* `LookupHolds`: a fiber that sleeps has a lookup to wait for, and one that throws has no endpoint.
* `Undisturbed`: the condition on the steps.
* `WaitInv`: the invariant.
* `lookup_holds`: every run whose steps meet the condition.
-/

namespace Anon.Epc

variable {Addr A : Type} [LinearOrder Addr] [DecidableEq A] {frequency : ℤ} {s : Cluster Addr A}

/-- A fiber that waits for endpoints is notified or has a lookup to wait for, and one that was
woken throws the saved error only where there are no endpoints. -/
structure LookupHolds (frequency : ℤ) (s : Cluster Addr A) : Prop where
  waiting : ∀ a, s.pc a = .asleep → s.inFlight = true
  throwing : ∀ a e, s.pc a = .notified → (s.next frequency (.wake a)).pc a = .threw e →
    s.endpoints = []

/-- A fiber was notified and has not locked the mutex yet. -/
def Cluster.Woken (s : Cluster Addr A) : Prop := ∃ a, s.pc a = .notified

/-- Whatever removes an endpoint leaves another one if a fiber was woken, unless a lookup is in
flight or an error is saved. -/
def Cluster.Keeps (s : Cluster Addr A) (rest : List (Endpoint Addr)) : Prop :=
  s.Woken → s.endpoints ≠ [] → rest = [] → s.inFlight = true ∨ s.lookupErr ≠ none

/-- No lookup finds endpoints while an error is saved and a fiber waits, none fails while there
are endpoints and a fiber was woken, and the last endpoint is not removed while a fiber was woken
and would sleep again. -/
def Undisturbed (s : Cluster Addr A) : LookupAction Addr A → Prop
  | .lookupSucceeds _ _ => s.lookupErr = none ∨ ∀ a, s.pc a ≠ .asleep ∧ s.pc a ≠ .notified
  | .lookupFails => s.Woken → s.endpoints = []
  | .lookupThrows => False
  | .erase endpoint => s.Keeps (s.endpoints.eraseP fun ep => ep.id = endpoint)
  | .deleteCachedEndpoints => s.Keeps []
  | _ => True

omit [LinearOrder Addr] in
instance [Fintype A] (s : Cluster Addr A) : Decidable s.Woken :=
  inferInstanceAs (Decidable (∃ _, _))

instance [Fintype A] (s : Cluster Addr A) (rest : List (Endpoint Addr)) :
    Decidable (s.Keeps rest) :=
  inferInstanceAs (Decidable (_ → _))

instance [Fintype A] (s : Cluster Addr A) (x : LookupAction Addr A) :
    Decidable (Undisturbed s x) :=
  match x with
  | .enter _ _ => isTrue trivial
  | .wake _ => isTrue trivial
  | .leave _ => isTrue trivial
  | .lookupSucceeds _ _ => inferInstanceAs (Decidable (_ ∨ ∀ _, _ ∧ _))
  | .lookupFails => inferInstanceAs (Decidable (_ → _))
  | .lookupThrows => isFalse id
  | .erase _ => inferInstanceAs (Decidable (Cluster.Keeps _ _))
  | .deleteCachedEndpoints => inferInstanceAs (Decidable (Cluster.Keeps _ _))
  | .eraseAllEndpoints => isTrue trivial

/-! ## What a lookup finds -/

/-- The endpoint of an address that was found is a recent one. -/
theorem exists_recent_addAddr {now : ℤ} {addr : Addr × ℤ} (hnow : now ≤ addr.2)
    (m : OrderedMap Addr (Endpoint Addr) × ℕ) :
    ∃ e ∈ (Cluster.addAddr now m addr).1, now ≤ e.2.lastLookupTime := by
  unfold Cluster.addAddr
  cases m.1.get addr.1 with
  | none =>
    obtain ⟨old, hmem⟩ := OrderedMap.exists_mem_alter addr.1
      (fun _ => (⟨m.2, addr.1, addr.2⟩ : Endpoint Addr)) m.1
    exact ⟨_, hmem, hnow⟩
  | some ep =>
    obtain ⟨old, hmem⟩ := OrderedMap.exists_mem_alter addr.1 (fun old =>
      { old.getD (⟨m.2, addr.1, addr.2⟩ : Endpoint Addr) with lastLookupTime := now }) m.1
    exact ⟨_, hmem, le_rfl⟩

omit [DecidableEq A] in
theorem exists_recent {now : ℤ} {addrs : List (Addr × ℤ)} (hne : addrs ≠ [])
    (hnow : ∀ addr ∈ addrs, now ≤ addr.2) :
    ∃ e ∈ (s.unionEndpoints now addrs).1, now ≤ e.2.lastLookupTime := by
  obtain ⟨init, last, rfl⟩ := List.eq_nil_or_concat addrs |>.resolve_left hne
  unfold Cluster.unionEndpoints
  simp only [List.concat_eq_append, List.foldl_append, List.foldl_cons, List.foldl_nil]
  apply exists_recent_addAddr
  apply hnow
  rw [List.concat_eq_append]
  exact List.mem_append_right init List.mem_cons_self

omit [DecidableEq A] in
/-- A lookup that finds addresses leaves endpoints. -/
theorem endpoints_updateEndpoints_ne_nil (hfrequency : 0 ≤ frequency) {now : ℤ}
    {addrs : List (Addr × ℤ)} (hne : addrs ≠ []) (hnow : ∀ addr ∈ addrs, now ≤ addr.2) :
    (s.updateEndpoints frequency now addrs).endpoints ≠ [] := by
  obtain ⟨e, he, hrecent⟩ := exists_recent (s := s) hne hnow
  unfold Cluster.updateEndpoints
  rw [if_neg hne]
  show List.map _ _ ≠ []
  apply List.ne_nil_of_mem
  apply List.mem_map_of_mem
  apply List.mem_filter.mpr
  refine ⟨he, decide_eq_true ?_⟩
  have hage : 0 ≤ Cluster.maxAge frequency := by
    unfold Cluster.maxAge
    omega
  omega

/-! ## The invariant -/

structure WaitInv (s : Cluster Addr A) : Prop where
  inFlight : s.lookingUpEndpoints = s.inFlight
  asleep : ∀ a, s.pc a = .asleep → s.inFlight = true ∧ s.endpoints = []
  saved : ∀ a, s.pc a = .notified → s.lookupErr ≠ none → s.endpoints = []
  empty : ∀ a, s.pc a = .notified → s.endpoints = [] → s.lookupErr ≠ none ∨ s.inFlight = true

omit [LinearOrder Addr] in
theorem pc_setPc (s : Cluster Addr A) (a b : A) (pc : LookupPc) :
    (s.setPc a pc).pc b = if b = a then pc else s.pc b := by
  show Function.update s.pc a pc b = _
  rw [Function.update_apply]

theorem waitInv_init : WaitInv (lookupMachine Addr A frequency).init where
  inFlight := rfl
  asleep := fun a ha => absurd ha (by simp [lookupMachine])
  saved := fun a ha => absurd ha (by simp [lookupMachine])
  empty := fun a ha => absurd ha (by simp [lookupMachine])

omit [LinearOrder Addr] in
/-- A fiber that goes to another place than to sleep or to be woken is of no concern. -/
theorem WaitInv.setPc (h : WaitInv s) (a : A) {pc : LookupPc}
    (hasleep : pc = .asleep → s.inFlight = true ∧ s.endpoints = []) (hnotified : pc ≠ .notified) :
    WaitInv (s.setPc a pc) where
  inFlight := h.inFlight
  asleep := by
    intro b hb
    rw [pc_setPc] at hb
    split at hb
    · exact hasleep hb
    · exact h.asleep b hb
  saved := by
    intro b hb
    rw [pc_setPc] at hb
    split at hb
    · exact absurd hb hnotified
    · exact h.saved b hb
  empty := by
    intro b hb
    rw [pc_setPc] at hb
    split at hb
    · exact absurd hb hnotified
    · exact h.empty b hb

omit [LinearOrder Addr] in
theorem WaitInv.choose (h : WaitInv s) (a : A) : WaitInv (s.choose a) := by
  unfold Cluster.choose
  split
  · next ep _ =>
    have hindex : WaitInv { s with roundRobinIndex := s.roundRobinIndex + 1 } :=
      ⟨h.inFlight, h.asleep, h.saved, h.empty⟩
    exact hindex.setPc a (fun hpc => absurd hpc (by simp)) (by simp)
  · exact h

omit [LinearOrder Addr] in
/-- A fiber may go to sleep where a lookup is in flight. -/
theorem WaitInv.waitOrChoose (h : WaitInv s) (a : A)
    (hflight : s.endpoints = [] → s.inFlight = true) : WaitInv (s.waitOrChoose a) := by
  unfold Cluster.waitOrChoose
  split
  · next hempty => exact h.setPc a (fun _ => ⟨hflight hempty, hempty⟩) (by simp)
  · exact h.choose a

omit [LinearOrder Addr] [DecidableEq A] in
/-- After a lookup is started one is in flight. -/
theorem WaitInv.startLookup (h : WaitInv s) :
    WaitInv s.startLookup ∧ s.startLookup.inFlight = true := by
  unfold Cluster.startLookup
  -- a lookup that is in flight is not started again
  split
  · next hlooking => exact ⟨h, h.inFlight.symm.trans hlooking⟩
  · refine ⟨⟨rfl, fun a ha => ⟨rfl, (h.asleep a ha).2⟩, fun a _ hsaved => ?_, fun a _ _ => ?_⟩, rfl⟩
    · exact absurd rfl hsaved
    · exact .inr rfl

omit [LinearOrder Addr] [DecidableEq A] in
/-- Fewer endpoints. -/
theorem WaitInv.remove (h : WaitInv s) {rest : List (Endpoint Addr)}
    (hrest : rest.Sublist s.endpoints) (hkeeps : s.Keeps rest) :
    WaitInv { s with endpoints := rest } where
  inFlight := h.inFlight
  asleep := by
    intro a ha
    refine ⟨(h.asleep a ha).1, ?_⟩
    have hempty := (h.asleep a ha).2
    rw [hempty] at hrest
    exact List.sublist_nil.mp hrest
  saved := by
    intro a ha hsaved
    have hempty := h.saved a ha hsaved
    rw [hempty] at hrest
    exact List.sublist_nil.mp hrest
  empty := by
    intro a ha hempty
    by_cases hbefore : s.endpoints = []
    · exact h.empty a ha hbefore
    · exact (hkeeps ⟨a, ha⟩ hbefore hempty).symm

omit [DecidableEq A] in
/-- The state after a lookup wakes every fiber that waits. -/
theorem pc_updateEndpoints (s : Cluster Addr A) (now : ℤ) (addrs : List (Addr × ℤ)) (a : A) :
    (s.updateEndpoints frequency now addrs).pc a =
      if s.pc a = .asleep then .notified else s.pc a := by
  unfold Cluster.updateEndpoints Cluster.notifyAll
  by_cases hnil : addrs = []
  · simp only [if_pos hnil]
  · simp only [if_neg hnil]

omit [DecidableEq A] in
theorem asleep_or_notified_of_woken {now : ℤ} {addrs : List (Addr × ℤ)} {a : A}
    (ha : (s.updateEndpoints frequency now addrs).pc a = .notified) :
    s.pc a = .asleep ∨ s.pc a = .notified := by
  rw [pc_updateEndpoints] at ha
  split at ha
  · next hasleep => exact .inl hasleep
  · exact .inr ha

omit [DecidableEq A] in
theorem not_asleep_updateEndpoints {now : ℤ} {addrs : List (Addr × ℤ)} (a : A) :
    (s.updateEndpoints frequency now addrs).pc a ≠ .asleep := by
  rw [pc_updateEndpoints]
  split
  · simp
  · next hno => exact hno

omit [DecidableEq A] in
theorem WaitInv.lookupSucceeds (hfrequency : 0 ≤ frequency) {now : ℤ}
    {addrs : List (Addr × ℤ)} (hne : addrs ≠ []) (hnow : ∀ addr ∈ addrs, now ≤ addr.2)
    (hclean : s.lookupErr = none ∨ ∀ a, s.pc a ≠ .asleep ∧ s.pc a ≠ .notified) :
    WaitInv (s.updateEndpoints frequency now addrs) where
  inFlight := by
    unfold Cluster.updateEndpoints
    rfl
  asleep := fun a ha => absurd ha (not_asleep_updateEndpoints a)
  saved := by
    intro a ha hsaved
    have herr : (s.updateEndpoints frequency now addrs).lookupErr = s.lookupErr := by
      unfold Cluster.updateEndpoints
      rw [if_neg hne]
      rfl
    rw [herr] at hsaved
    have hnobody := hclean.resolve_left hsaved a
    obtain hasleep | hnotified := asleep_or_notified_of_woken ha
    · exact absurd hasleep hnobody.1
    · exact absurd hnotified hnobody.2
  empty := fun a _ hempty => absurd hempty (endpoints_updateEndpoints_ne_nil hfrequency hne hnow)

omit [DecidableEq A] in
theorem WaitInv.lookupFails (h : WaitInv s) (hclean : s.Woken → s.endpoints = []) :
    WaitInv (s.updateEndpoints frequency 0 []) where
  inFlight := rfl
  asleep := fun a ha => absurd ha (not_asleep_updateEndpoints a)
  saved := by
    intro a ha _
    show s.endpoints = []
    obtain hasleep | hnotified := asleep_or_notified_of_woken ha
    · exact (h.asleep a hasleep).2
    · exact hclean ⟨a, hnotified⟩
  empty := by
    intro a _ _
    left
    show some LookupErr.dnsLookupFailed ≠ none
    simp

theorem WaitInv.step (h : WaitInv s) (hfrequency : 0 ≤ frequency) {x : LookupAction Addr A}
    (hclean : Undisturbed s x) (he : s.enabled x) : WaitInv (s.next frequency x) := by
  match x with
  | .enter a old =>
    show WaitInv (if s.endpoints = [] ∨ old = true then s.startLookup.waitOrChoose a
      else s.choose a)
    split
    · obtain ⟨hstart, hflight⟩ := h.startLookup
      exact hstart.waitOrChoose a fun _ => hflight
    · exact h.choose a
  -- the saved error is thrown, and without one the loop goes on
  | .wake a =>
    cases herr : s.lookupErr with
    | some e =>
      simp only [Cluster.next, herr]
      exact h.setPc a (fun hpc => absurd hpc (by simp)) (by simp)
    | none =>
      simp only [Cluster.next, herr]
      apply h.waitOrChoose a
      intro hempty
      exact (h.empty a he hempty).resolve_left fun hsaved => hsaved herr
  | .leave a => exact h.setPc a (fun hpc => absurd hpc (by simp)) (by simp)
  | .lookupSucceeds now addrs => exact .lookupSucceeds hfrequency he.2.1 he.2.2 hclean
  | .lookupFails => exact h.lookupFails hclean
  | .lookupThrows => exact absurd hclean id
  | .erase endpoint => exact h.remove List.eraseP_sublist hclean
  | .deleteCachedEndpoints => exact h.remove (List.nil_sublist _) hclean
  | .eraseAllEndpoints =>
    exact ⟨h.inFlight, fun a ha => ⟨(h.asleep a ha).1, rfl⟩, fun _ _ _ => rfl,
      fun _ _ _ => .inl (Option.some_ne_none _)⟩

/-- What is meant follows from the invariant. -/
theorem WaitInv.holds (h : WaitInv s) : LookupHolds frequency s where
  waiting := fun a ha => (h.asleep a ha).1
  throwing := by
    intro a e ha hthrew
    apply h.saved a ha
    intro hnone
    -- without a saved error no fiber throws
    have hwake : s.next frequency (.wake a) = s.waitOrChoose a := by
      simp only [Cluster.next, hnone]
    rw [hwake] at hthrew
    unfold Cluster.waitOrChoose Cluster.choose at hthrew
    split at hthrew
    · rw [pc_setPc, if_pos rfl] at hthrew
      exact absurd hthrew (by simp)
    · split at hthrew
      · rw [pc_setPc, if_pos rfl] at hthrew
        exact absurd hthrew (by simp)
      · rw [ha] at hthrew
        exact absurd hthrew (by simp)

/-- In every run whose steps meet the condition, with a lookup frequency that is not negative. -/
theorem lookup_holds (hfrequency : 0 ≤ frequency)
    (hs : (lookupMachine Addr A frequency).Reachable Undisturbed s) : LookupHolds frequency s := by
  have hinv : WaitInv s := by
    apply hs.invariant waitInv_init
    intro s x h hclean he
    exact h.step hfrequency hclean he
  exact hinv.holds

/-- Two fibers wait, a lookup finds an endpoint for both, and one of them loses it again. -/
theorem lookup_holds_two : ∃ s : Cluster ℕ (Fin 2), LookupHolds 20 s ∧
    s.pc 0 = .chosen 0 ∧ s.pc 1 = .asleep := by
  have h : ∃ s, (lookupMachine ℕ (Fin 2) 20).Reachable Undisturbed s ∧
      decide (s.pc 0 = .chosen 0 ∧ s.pc 1 = .asleep) = true := by
    apply Machine.reachable_of_replay (l := [.enter 0 false, .enter 1 false,
      .lookupSucceeds 5 [(7, 6)], .wake 0, .wake 1, .erase 0, .leave 1, .enter 1 false])
    decide +kernel
  obtain ⟨s, hs, hstate⟩ := h
  exact ⟨s, lookup_holds (by decide) hs, of_decide_eq_true hstate⟩

/-- A fiber that was woken finds the endpoint gone, and sleeps with no lookup under way; and one
that was woken would throw the error of `erase_all_endpoints` although a lookup has found an
endpoint since. -/
theorem lookup_breaks :
    (∃ s, (lookupMachine ℕ (Fin 2) 20).Reachable Machine.anyStep s ∧ s.lookupErr = none ∧
      ¬LookupHolds 20 s) ∧
    ∃ s, (lookupMachine ℕ (Fin 2) 20).Reachable Machine.anyStep s ∧ s.endpoints ≠ [] ∧
      ¬LookupHolds 20 s := by
  constructor
  · have h : ∃ s, (lookupMachine ℕ (Fin 2) 20).Reachable Machine.anyStep s ∧
        decide (s.lookupErr = none ∧ s.pc 0 = .asleep ∧ s.inFlight = false) = true := by
      apply Machine.reachable_of_replay (l := [.enter 0 false, .enter 1 false,
        .lookupSucceeds 5 [(7, 6)], .wake 1, .erase 0, .leave 1, .wake 0])
      decide +kernel
    obtain ⟨s, hs, hstate⟩ := h
    obtain ⟨herr, hasleep, hflight⟩ := of_decide_eq_true hstate
    refine ⟨s, hs, herr, fun hholds => ?_⟩
    rw [hholds.waiting 0 hasleep] at hflight
    exact absurd hflight (by decide)
  · have h : ∃ s, (lookupMachine ℕ (Fin 2) 20).Reachable Machine.anyStep s ∧
        decide (s.endpoints ≠ [] ∧ s.pc 0 = .notified ∧
          (s.next 20 (.wake 0)).pc 0 = .threw .eraseAllEndpoints) = true := by
      apply Machine.reachable_of_replay (l := [.enter 0 false, .eraseAllEndpoints,
        .lookupSucceeds 5 [(7, 6)]])
      decide +kernel
    obtain ⟨s, hs, hstate⟩ := h
    obtain ⟨hne, hnotified, hthrew⟩ := of_decide_eq_true hstate
    exact ⟨s, hs, hne, fun hholds => hne (hholds.throwing 0 _ hnotified hthrew)⟩

end Anon.Epc
