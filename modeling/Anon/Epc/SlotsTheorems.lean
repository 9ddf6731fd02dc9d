import Anon.Epc.Slots

/-!
# No slot is lost

The counter of an endpoint is meant to be the number of requests under way. An attempt that ends
in its callback gives its slot back and wakes the fibers that wait for one; an attempt that fails
before it has made its `cleanup` does neither.

* `SlotsHold`, `Notifies`: what is meant, of a state and of a step.
* `Connecting`: the condition on the steps.
* `SlotInv`: the invariant.
* `slots_hold`: every run whose steps meet the condition.
-/

namespace Anon.Epc

/-- The weight of a call in the counter. -/
def CallerPc.weight (pc : CallerPc) : ℤ := if pc.attempting then 1 else 0

section

variable {A : Type} [Fintype A] {maxConnPerEp : ℤ} {doTls : Bool} {s : Slots A}

/-- The counter is the number of calls between their increment and the end of their attempt, it
is at most `max_conn_per_ep_`, and who waits for a slot waits for such a call. -/
structure SlotsHold (maxConnPerEp : ℤ) (s : Slots A) : Prop where
  account : s.deleted = false → s.outstandingRequests = count CallerPc.weight s.pc
  bound : s.deleted = false → s.outstandingRequests ≤ maxConnPerEp
  waiting : ∀ a, s.pc a = .asleep → ∃ b, (s.pc b).attempting = true

variable [DecidableEq A]

omit [Fintype A] in
/-- If the step ends an attempt, then it wakes every fiber that waits. -/
def Notifies (maxConnPerEp : ℤ) (s : Slots A) (x : SlotAction A) : Prop :=
  ∀ a, (s.pc a).attempting = true → ((s.next maxConnPerEp x).pc a).attempting = false →
    ∀ b, s.pc b = .asleep → (s.next maxConnPerEp x).pc b = .notified

/-- Every attempt gets its connection and its pipe. -/
def Connecting (_ : Slots A) : SlotAction A → Prop
  | .connectFails _ => False
  | .handshakeFails _ => False
  | _ => True

omit [Fintype A] in
instance (s : Slots A) (x : SlotAction A) : Decidable (Connecting s x) :=
  match x with
  | .choose _ => isTrue trivial
  | .enter _ _ => isTrue trivial
  | .connects _ => isTrue trivial
  | .connectFails _ => isFalse id
  | .makesPipe _ => isTrue trivial
  | .handshakeFails _ => isFalse id
  | .returns _ _ _ => isTrue trivial
  | .throws _ => isTrue trivial
  | .erase => isTrue trivial
  | .delete => isTrue trivial

/-! ## The invariant -/

structure SlotInv (maxConnPerEp : ℤ) (s : Slots A) : Prop where
  account : s.deleted = false → s.outstandingRequests = count CallerPc.weight s.pc
  bound : s.deleted = false → s.outstandingRequests ≤ maxConnPerEp
  /-- Nobody sleeps while there is a slot. -/
  full : ∀ a, s.pc a = .asleep → maxConnPerEp ≤ s.outstandingRequests
  /-- Who holds the endpoint keeps it. -/
  live : ∀ a, (s.pc a).holds = true → s.deleted = false

omit [Fintype A] in
theorem slots_pc_setPc (s : Slots A) (a b : A) (pc : CallerPc) :
    (s.setPc a pc).pc b = if b = a then pc else s.pc b := by
  show Function.update s.pc a pc b = _
  rw [Function.update_apply]

/-- Moving one call changes the account by the difference of its weights. -/
theorem count_setPc (s : Slots A) (a : A) (pc : CallerPc) :
    count CallerPc.weight (s.setPc a pc).pc =
      count CallerPc.weight s.pc + (pc.weight - (s.pc a).weight) :=
  count_update a pc

omit [DecidableEq A] in
/-- Waking changes no account. -/
theorem count_notifyAll (s : Slots A) :
    count CallerPc.weight s.notifyAll.pc = count CallerPc.weight s.pc := by
  apply count_congr
  intro a
  show CallerPc.weight (if s.pc a = .asleep then .notified else s.pc a) = _
  split
  · next ha =>
    rw [ha]
    rfl
  · rfl

theorem slotInv_init (hmax : 0 < maxConnPerEp) :
    SlotInv maxConnPerEp (slotsMachine A maxConnPerEp doTls).init where
  account := by
    intro _
    have hnone : count CallerPc.weight (fun _ : A => CallerPc.outside) = 0 :=
      count_eq_zero fun _ => rfl
    exact hnone.symm
  bound := fun _ => hmax.le
  full := fun a ha => absurd ha (by simp [slotsMachine])
  live := fun _ _ => rfl

/-- A call moves on that does not change the account, and does not go to sleep where a slot is
free. -/
theorem SlotInv.setPc (h : SlotInv maxConnPerEp s) (a : A) {pc : CallerPc}
    (hweight : pc.weight = (s.pc a).weight)
    (hasleep : pc = .asleep → maxConnPerEp ≤ s.outstandingRequests)
    (hholds : pc.holds = true → s.deleted = false) :
    SlotInv maxConnPerEp (s.setPc a pc) where
  account := by
    intro hlive
    rw [count_setPc, hweight, sub_self, add_zero]
    exact h.account hlive
  bound := h.bound
  full := by
    intro b hb
    rw [slots_pc_setPc] at hb
    split at hb
    · exact hasleep hb
    · exact h.full b hb
  live := by
    intro b hb
    rw [slots_pc_setPc] at hb
    split at hb
    · exact hholds hb
    · exact h.live b hb

/-- A call increments the counter. -/
theorem SlotInv.increment (h : SlotInv maxConnPerEp s) {a : A} {pc : CallerPc}
    (hlive : s.deleted = false)
    (hfree : ¬maxConnPerEp ≤ s.outstandingRequests) (hbefore : (s.pc a).weight = 0)
    (hweight : pc.weight = 1) (socks : List ℤ) :
    SlotInv maxConnPerEp ({ s with
      outstandingRequests := s.outstandingRequests + 1
      socks := socks }.setPc a pc) where
  account := by
    intro hlive
    have hcount := h.account hlive
    have hmoved : count CallerPc.weight (Function.update s.pc a pc) =
        count CallerPc.weight s.pc + (pc.weight - (s.pc a).weight) := count_update a pc
    show s.outstandingRequests + 1 = count CallerPc.weight (Function.update s.pc a pc)
    omega
  bound := by
    intro _
    show s.outstandingRequests + 1 ≤ maxConnPerEp
    omega
  full := by
    intro b hb
    rw [slots_pc_setPc] at hb
    split at hb
    · rw [hb] at hweight
      exact absurd hweight (by decide)
    · exact absurd (h.full b hb) hfree
  live := fun _ _ => hlive

theorem SlotInv.enter (h : SlotInv maxConnPerEp s) {a : A} (now : ℤ)
    (ha : s.pc a = .chosen ∨ s.pc a = .notified) :
    SlotInv maxConnPerEp (s.enter maxConnPerEp a now) := by
  have hlive : s.deleted = false := by
    apply h.live a
    obtain ha | ha := ha
    · rw [ha]
      rfl
    · rw [ha]
      rfl
  have hweight : (s.pc a).weight = 0 := by
    obtain ha | ha := ha
    · rw [ha]
      rfl
    · rw [ha]
      rfl
  unfold Slots.enter
  -- the call sleeps, or throws, or takes a slot, with a socket or without
  split
  · next hfull => exact h.setPc a hweight.symm (fun _ => hfull) fun _ => hlive
  · next hfree =>
    split
    · exact h.setPc a hweight.symm (fun hpc => absurd hpc (by simp)) fun _ => hlive
    · split
      · exact h.increment hlive hfree hweight rfl _
      · exact h.increment hlive hfree hweight rfl _

/-- The end of an attempt: nobody sleeps any more. -/
theorem SlotInv.cleanup (h : SlotInv maxConnPerEp s) {a : A} (ha : s.pc a = .calling)
    (cache : Option ℤ) (exceptionThrown : Bool) :
    SlotInv maxConnPerEp (s.cleanup a cache exceptionThrown) := by
  unfold Slots.cleanup
  -- of an endpoint that has been deleted nothing is left to account for
  split
  · next hdeleted =>
    refine ⟨fun hlive => ?_, fun hlive => ?_, fun b hb => ?_, fun b hb => ?_⟩
    · exact absurd (hlive.symm.trans hdeleted) (by simp)
    · exact absurd (hlive.symm.trans hdeleted) (by simp)
    · rw [slots_pc_setPc] at hb
      split at hb
      · exact absurd hb (by simp)
      · exact h.full b hb
    · rw [slots_pc_setPc] at hb
      split at hb
      · exact absurd hb (by decide)
      · exact h.live b hb
  · next hnot =>
    have hlive : s.deleted = false := by simpa using hnot
    have hcount := h.account hlive
    have hbound := h.bound hlive
    refine ⟨fun _ => ?_, fun _ => ?_, fun b hb => ?_, fun _ _ => hlive⟩
    · rw [count_notifyAll, count_setPc]
      show s.outstandingRequests - 1 = count CallerPc.weight s.pc +
        (CallerPc.outside.weight - (s.pc a).weight)
      rw [ha, hcount]
      show _ - 1 = _ + (0 - 1)
      omega
    · show s.outstandingRequests - 1 ≤ maxConnPerEp
      omega
    · have hwoken : (if (Function.update s.pc a CallerPc.outside) b = .asleep then
          CallerPc.notified else Function.update s.pc a CallerPc.outside b) = .asleep := hb
      split at hwoken
      · exact absurd hwoken (by simp)
      · next hno => exact absurd hwoken hno

theorem SlotInv.step (h : SlotInv maxConnPerEp s) {x : SlotAction A} (hx : Connecting s x)
    (he : s.enabled doTls x) : SlotInv maxConnPerEp (s.next maxConnPerEp x) := by
  match x with
  | .choose a =>
    apply h.setPc a _ (fun hpc => absurd hpc (by simp)) fun _ => he.2.2
    rw [he.1]
    rfl
  | .enter a now => exact h.enter now he
  | .connects a =>
    have ha : s.pc a = .connecting := he
    apply h.setPc a _ (fun hpc => absurd hpc (by simp))
    · intro _
      apply h.live a
      rw [ha]
      rfl
    · rw [ha]
      rfl
  | .makesPipe a =>
    have ha : s.pc a = .connected := he
    apply h.setPc a _ (fun hpc => absurd hpc (by simp)) fun hholds => absurd hholds (by decide)
    rw [ha]
    rfl
  | .returns a cache now => exact h.cleanup he _ false
  | .throws a => exact h.cleanup he none true
  | .erase => exact ⟨h.account, h.bound, h.full, h.live⟩
  | .delete =>
    refine ⟨fun hlive => absurd hlive (by simp [Slots.next]), fun hlive => absurd hlive
      (by simp [Slots.next]), h.full, fun a ha => ?_⟩
    have hno : (s.pc a).holds = false := he.2 a
    exact absurd (hno.symm.trans ha) (by simp)

omit [DecidableEq A] in
/-- What is meant follows from the invariant. -/
theorem SlotInv.holds (h : SlotInv maxConnPerEp s) (hmax : 0 < maxConnPerEp) :
    SlotsHold maxConnPerEp s where
  account := h.account
  bound := h.bound
  waiting := by
    intro a ha
    have hlive : s.deleted = false := by
      apply h.live a
      rw [ha]
      rfl
    have hfull := h.full a ha
    have hcount := h.account hlive
    -- all slots are taken, so somebody is in an attempt
    have hne : count CallerPc.weight s.pc ≠ 0 := by omega
    obtain ⟨b, hb⟩ := exists_of_count_ne_zero hne
    refine ⟨b, ?_⟩
    by_contra hno
    exact hb (if_neg hno)

/-! ## The end of an attempt -/

omit [Fintype A] in
/-- Moving one call ends an attempt only where this call was in one and is in none any more. -/
theorem notifies_setPc {x : SlotAction A} {a : A} {pc : CallerPc}
    (hnext : (s.next maxConnPerEp x).pc = (s.setPc a pc).pc)
    (hpc : (s.pc a).attempting = true → pc.attempting = true) : Notifies maxConnPerEp s x := by
  intro b hb hend
  rw [hnext, slots_pc_setPc] at hend
  split at hend
  · next heq =>
    rw [heq] at hb
    exact absurd (hpc hb) (by simp [hend])
  · exact absurd (hb.symm.trans hend) (by simp)

theorem notifies_cleanup (h : SlotInv maxConnPerEp s) {a : A} (ha : s.pc a = .calling)
    (cache : Option ℤ) (exceptionThrown : Bool) {b : A} (hb : s.pc b = .asleep) :
    (s.cleanup a cache exceptionThrown).pc b = .notified := by
  have hlive : s.deleted = false := by
    apply h.live b
    rw [hb]
    rfl
  have hne : b ≠ a := by
    rintro rfl
    rw [ha] at hb
    exact absurd hb (by simp)
  unfold Slots.cleanup
  rw [if_neg (by simp [hlive])]
  show (if Function.update s.pc a CallerPc.outside b = .asleep then CallerPc.notified
    else Function.update s.pc a CallerPc.outside b) = .notified
  rw [Function.update_of_ne hne, if_pos hb]

omit [Fintype A] in
/-- Going through the loop moves the call and nobody else. -/
theorem exists_pc_enter (maxConnPerEp : ℤ) (s : Slots A) (a : A) (now : ℤ) :
    ∃ pc, (s.enter maxConnPerEp a now).pc = (s.setPc a pc).pc := by
  unfold Slots.enter
  split
  · exact ⟨_, rfl⟩
  · split
    · exact ⟨_, rfl⟩
    · split
      · exact ⟨_, rfl⟩
      · exact ⟨_, rfl⟩

/-- An attempt that gets its pipe ends in its `cleanup`. -/
theorem SlotInv.notifies (h : SlotInv maxConnPerEp s) {x : SlotAction A} (hx : Connecting s x)
    (he : s.enabled doTls x) : Notifies maxConnPerEp s x := by
  match x with
  | .choose a =>
    have hnext : (s.next maxConnPerEp (.choose a)).pc = (s.setPc a .chosen).pc := rfl
    apply notifies_setPc hnext
    intro hatt
    rw [he.1] at hatt
    exact absurd hatt (by decide)
  | .enter a now =>
    obtain ⟨pc, hpc⟩ := exists_pc_enter maxConnPerEp s a now
    have hnext : (s.next maxConnPerEp (.enter a now)).pc = (s.setPc a pc).pc := hpc
    apply notifies_setPc hnext
    intro hatt
    obtain ha | ha := he
    · rw [ha] at hatt
      exact absurd hatt (by decide)
    · rw [ha] at hatt
      exact absurd hatt (by decide)
  | .connects a =>
    have hnext : (s.next maxConnPerEp (.connects a)).pc = (s.setPc a .connected).pc := rfl
    exact notifies_setPc hnext fun _ => rfl
  | .makesPipe a =>
    have hnext : (s.next maxConnPerEp (.makesPipe a)).pc = (s.setPc a .calling).pc := rfl
    exact notifies_setPc hnext fun _ => rfl
  | .returns a cache now =>
    intro _ _ _ b hb
    exact notifies_cleanup h he _ false hb
  | .throws a =>
    intro _ _ _ b hb
    exact notifies_cleanup h he none true hb
  | .erase | .delete =>
    intro b hb hend
    exact absurd (hb.symm.trans hend) (by simp)

/-! ## Runs -/

/-- In every run whose steps meet the condition, with at least one slot. -/
theorem slots_hold (hmax : 0 < maxConnPerEp)
    (hs : (slotsMachine A maxConnPerEp doTls).Reachable Connecting s) :
    SlotsHold maxConnPerEp s ∧
      ∀ x, Connecting s x → s.enabled doTls x → Notifies maxConnPerEp s x := by
  have hinv : SlotInv maxConnPerEp s := by
    apply hs.invariant (slotInv_init hmax)
    intro s x h hx he
    exact h.step hx he
  exact ⟨hinv.holds hmax, fun x hx he => hinv.notifies hx he⟩

end

/-- One slot and two calls: the second one waits while the first one is in its callback, and then
gets the slot and the socket of the first one, which has to wait when it comes again. -/
theorem slots_hold_two : ∃ s : Slots (Fin 2), SlotsHold 1 s ∧
    s.outstandingRequests = 1 ∧ s.pc 0 = .asleep ∧ s.pc 1 = .calling := by
  have h : ∃ s, (slotsMachine (Fin 2) 1 true).Reachable Connecting s ∧
      decide (s.outstandingRequests = 1 ∧ s.pc 0 = .asleep ∧ s.pc 1 = .calling) = true := by
    apply Machine.reachable_of_replay (l := [.choose 0, .enter 0 5, .connects 0, .makesPipe 0,
      .choose 1, .enter 1 6, .returns 0 true 7, .choose 0, .enter 1 8, .enter 0 9])
    decide +kernel
  obtain ⟨s, hs, hstate⟩ := h
  exact ⟨s, (slots_hold (by decide) hs).1, of_decide_eq_true hstate⟩

/-- One slot and two calls: the first one cannot connect, and the second one waits for ever. -/
theorem slots_lost : ∃ s, (slotsMachine (Fin 2) 1 false).Reachable Machine.anyStep s ∧
    ¬SlotsHold 1 s := by
  have h : ∃ s, (slotsMachine (Fin 2) 1 false).Reachable Machine.anyStep s ∧
      decide (s.pc 1 = .asleep ∧ ∀ b, (s.pc b).attempting = false) = true := by
    apply Machine.reachable_of_replay (l := [.choose 0, .enter 0 5, .choose 1, .enter 1 6,
      .connectFails 0])
    decide +kernel
  obtain ⟨s, hs, hstate⟩ := h
  obtain ⟨hasleep, hnone⟩ := of_decide_eq_true hstate
  refine ⟨s, hs, fun hholds => ?_⟩
  obtain ⟨b, hb⟩ := hholds.waiting 1 hasleep
  exact absurd (hb.symm.trans (hnone b)) (by simp)

end Anon.Epc
