import Anon.IoDispatch.HandshakeTheorems

/-!
# At-rest functions

`while_paused2` leaves a function that an io thread runs once every io thread has come to the top
of its loop: each of them is charged one unit of `thread_countdown_`, which it settles there. The
account is right as long as no other kind of pause charges the io threads (`Flushing`); a
`k_pause` of `while_paused` charges the threads and not the total.

* `Spare`: without other pauses the calls come one after the other by themselves.
* `Rest`: the account of `thread_countdown_` and of the functions.
* `Calm`: no io thread is in a callback when the functions run, if none takes an event while
  functions are waiting.
-/

namespace Anon.IoDispatch

open PauseState

variable {A : Type} [Fintype A] [DecidableEq A] {io : A → Bool} {s s' : PauseState A}
  {x : PauseAction A} {a b : A}

/-! ## Pauses by `while_paused2` alone -/

/-- `while_paused` is called only where it has no other thread to pause, and `on_each` not at
all. -/
def Flushing (io : A → Bool) (_ : PauseState A) : PauseAction A → Prop
  | .begin_ .whilePaused a => numThreads io = ioWeight (io a)
  | .beginEach _ => False
  | _ => True

namespace Pc

/-- In a call of `while_paused`. -/
def plain : Pc → Bool
  | locked k _ | writing k _ _ | pauseWait k _ _ | calling k _ => !k.fromIo
  | _ => false

/-- In a pause that has set `num_paused_threads_`. -/
def pauses : Pc → Bool
  | writing _ _ _ | pauseWait _ _ _ | calling _ _ | doneWait _ _ => true
  | _ => false

theorem plain_awake (pc : Pc) : pc.awake.plain = pc.plain := by
  cases pc <;> rfl

theorem pauses_awake (pc : Pc) : pc.awake.pauses = pc.pauses := by
  cases pc <;> rfl

theorem leads_of_pauses {pc : Pc} (h : pc.pauses = true) : pc.leads = true := by
  cases pc <;> first | rfl | exact absurd h Bool.false_ne_true

end Pc

/-- An io thread is paused only while `while_paused2` is in progress. -/
structure Spare (io : A → Bool) (s : PauseState A) : Prop where
  noEach : ∀ b, (s.pc b).onEach = false
  plain : ∀ a, (s.pc a).plain = true → numThreads io = ioWeight (io a)
  paused : ∀ b, (s.pc b).paused = true → ∃ l, (s.pc l).pauses = true

omit [DecidableEq A] in
/-- Nobody is paused when nobody is counted. -/
theorem paused_eq_false (h : count Pc.pausedWeight s.pc = 0) (b : A) :
    (s.pc b).paused = false := by
  have hzero := eq_zero_of_count_eq_zero Pc.pausedWeight_nonneg h b
  by_contra hb
  rw [Pc.pausedWeight, if_pos (by simpa using hb)] at hzero
  exact absurd hzero (by decide)

omit [DecidableEq A] in
/-- `while_paused` calls its function without a paused thread. -/
theorem Spare.paused_of_calling (h : Spare io s) (hphase : Phase io s) {p : ℕ}
    (ha : s.pc a = .calling .whilePaused p) : count Pc.pausedWeight s.pc = 0 := by
  obtain ⟨-, hcount, -⟩ := hphase.of_calling ha
  have hplain := h.plain a (by rw [ha]; rfl)
  have hown : own io .whilePaused a = ioWeight (io a) := rfl
  omega

/-- The calls come one after the other by themselves. -/
theorem Spare.serial (h : Spare io s) (hphase : Phase io s) (hx : Flushing io s x)
    (hm : Moves io s x s') : Serial s x := by
  cases hm with
  | begin_ k a ha ho hio => exact h.noEach
  | lockCom a k p ha hc =>
    intro b
    by_contra hb
    obtain ⟨l, hl⟩ := h.paused b (by simpa using hb)
    have hla := hphase.leads_unique (a := a) (by rw [ha]; rfl) (Pc.leads_of_pauses hl)
    rw [hla, ha] at hl
    exact absurd hl (by simp [Pc.pauses])
  | callWhilePaused a p throws ha =>
    cases throws with
    | false => trivial
    | true =>
      simp only [Serial, ha]
      exact paused_eq_false (h.paused_of_calling hphase ha)
  | callWhilePaused2 a p throws ha => cases throws <;> simp [Serial, ha]
  | beginEach a ha ho => exact hx.elim
  | _ => trivial

/-- A step that neither pauses a thread nor ends a pause. -/
theorem Spare.frame (h : Spare io s) (hp : Places io s) (hm : Moves io s x s')
    (hone : (s'.pc x.actor).onEach = false)
    (hplain : (s'.pc x.actor).plain = true → numThreads io = ioWeight (io x.actor))
    (hpaused : (s'.pc x.actor).paused = true →
      (s.pc x.actor).paused = true ∨ ∃ l, (s'.pc l).pauses = true)
    (hpauses : (s.pc x.actor).pauses = true →
      (s'.pc x.actor).pauses = true ∨ ∀ b, (s'.pc b).paused = false) : Spare io s' := by
  constructor
  · intro b
    by_cases hb : b = x.actor
    · exact hb ▸ hone
    · rw [role_congr Pc.onEach_awake (hm.awake_of_ne hp hb)]
      exact h.noEach b
  · intro b hbp
    by_cases hb : b = x.actor
    · exact hb ▸ hplain (hb ▸ hbp)
    · rw [role_congr Pc.plain_awake (hm.awake_of_ne hp hb)] at hbp
      exact h.plain b hbp
  · intro b hbp
    have hold : (s.pc b).paused = true ∨ ∃ l, (s'.pc l).pauses = true := by
      by_cases hb : b = x.actor
      · exact hb ▸ hpaused (hb ▸ hbp)
      · rw [role_congr Pc.paused_awake (hm.awake_of_ne hp hb)] at hbp
        exact .inl hbp
    obtain hold | hnew := hold
    · obtain ⟨l, hl⟩ := h.paused b hold
      by_cases hlx : l = x.actor
      · obtain hl' | hnone := hpauses (hlx ▸ hl)
        · exact ⟨x.actor, hl'⟩
        · rw [hnone b] at hbp
          exact absurd hbp Bool.false_ne_true
      · exact ⟨l, by rwa [role_congr Pc.pauses_awake (hm.awake_of_ne hp hlx)]⟩
    · exact hnew

/-- A pause that ends leaves nobody paused. -/
theorem paused_of_count (hp : Places io s) (hm : Moves io s x s')
    (h : count Pc.pausedWeight s.pc = 0) (ha : (s'.pc x.actor).paused = false) (b : A) :
    (s'.pc b).paused = false := by
  by_cases hb : b = x.actor
  · exact hb ▸ ha
  · rw [role_congr Pc.paused_awake (hm.awake_of_ne hp hb)]
    exact paused_eq_false h b

omit [DecidableEq A] in
/-- Nobody is anywhere in an `on_each`. -/
theorem Spare.not_onEach (h : Spare io s) {P : Prop} (ha : (s.pc a).onEach = true) : P := by
  rw [h.noEach a] at ha
  exact absurd ha Bool.false_ne_true

theorem Spare.step (h : Spare io s) (hphase : Phase io s) (hp : Places io s)
    (hm : Moves io s x s') (hx : Flushing io s x) : Spare io s' := by
  have hm' := hm
  cases hm with
  | begin_ k a ha ho hio =>
    refine h.frame hp hm' (by simp) ?_ (by simp) (by simp [ha, Pc.pauses])
    intro hk
    cases k with
    | whilePaused => exact hx
    | whilePaused2 => simp [Pc.plain, PauseKind.fromIo] at hk
  -- the leader goes on with what it has begun
  | lockCom a k p ha hc | write a k p n ha hn | testCall a k p ha hn | testWait a k p ha hn
  | allPaused a k p ha hc hn | notAllPaused a k p ha hc hn =>
    exact h.frame hp hm' (by simp) (fun hk => h.plain a (by simpa [ha, Pc.plain] using hk))
      (by simp) (by simp [Pc.pauses])
  | notAllDone a p ha hc hn =>
    exact h.frame hp hm' (by simp) (by simp [Pc.plain]) (by simp) (by simp [Pc.pauses])
  | allDone a p ha hc hn =>
    have haccount := (hphase.of_leads (a := a) (by rw [ha]; rfl)).2
    rw [ha] at haccount
    have hsum := haccount.2.2
    have hzero : count Pc.pausedWeight s.pc = 0 := by omega
    exact h.frame hp hm' (by simp) (by simp [Pc.plain]) (by simp)
      fun _ => .inr (paused_of_count hp hm' hzero (by simp))
  | callWhilePaused a p throws ha =>
    have hzero := h.paused_of_calling hphase ha
    refine h.frame hp hm' ?_ ?_ ?_ fun _ => .inr (paused_of_count hp hm' hzero ?_)
    all_goals cases throws <;> simp [endWhilePaused, Pc.plain]
  | callWhilePaused2 a p throws ha =>
    obtain ⟨-, hcount, -⟩ := hphase.of_calling ha
    have hown : own io .whilePaused2 a = 1 := rfl
    by_cases hN : numThreads io = 1
    · have hzero : count Pc.pausedWeight s.pc = 0 := by omega
      refine h.frame hp hm' ?_ ?_ ?_ fun _ => .inr (paused_of_count hp hm' hzero ?_)
      all_goals simp [endWhilePaused2, hN, Pc.plain]
    · refine h.frame hp hm' ?_ ?_ ?_ fun _ => .inl ?_
      all_goals simp [endWhilePaused2, hN, Pc.plain, Pc.pauses]
  | resumed a p ha hc hn =>
    refine h.frame hp hm' ?_ ?_ ?_ ?_
    · simp only [wakeNext, ha, if_pos hn]
      split <;> simp [Pc.notifyResume2]
    · simp only [wakeNext, ha, if_pos hn]
      split <;> simp [Pc.notifyResume2, Pc.plain]
    · simp only [wakeNext, ha, if_pos hn]
      split <;> simp [Pc.notifyResume2]
    · simp [ha, Pc.pauses]
  | count a w p ha hc hw =>
    obtain ⟨l, k, asleep, hal, hl, -, -⟩ := hphase.of_pauseCmd hp ha hc
    refine h.frame hp hm' (by simp) (by simp [Pc.plain]) (fun _ => .inr ⟨l, ?_⟩)
      (by simp [ha, Pc.pauses])
    rw [role_congr Pc.pauses_awake (hm'.awake_of_ne hp (Ne.symm hal)), hl]
    rfl
  | takeEach a c rest hpipe ha harm =>
    -- The command would be one of a caller that waits.
    cases hphase with
    | quiet hquiet hempty =>
      rw [hempty] at hpipe
      exact absurd hpipe.symm (List.cons_ne_nil _ _)
    | led l hfollows haccount =>
      obtain ⟨k, p, n, -, hp⟩ | ⟨d, asleep, hl, -⟩ :=
        haccount.command (d := .onEach c) (by simp [hpipe])
      · exact absurd hp (by simp)
      · exact h.not_onEach (a := l) (by rw [hl]; rfl)
  | beginEach a ha ho => exact hx.elim
  -- no call of `on_each` is in progress
  | eachReturns a c ha ho hn | eachWaits a c ha ho hn | eachResumed a c ha ho hn
  | eachStillPaused a c ha ho hn | exec a w c ha ho hw =>
    exact h.not_onEach (a := a) (by rw [ha]; rfl)
  | stillPaused a p ha hc hn =>
    exact h.frame hp hm' (by simp) (by simp [Pc.plain]) (by simp [ha]) (by simp [ha, Pc.pauses])
  | spurious a pc ha =>
    have hawake := Pc.awake_of_spurious ha
    have hpc : (s.setPc a pc).pc a = pc := Function.update_self _ _ _
    refine h.frame hp hm' ?_ ?_ ?_ ?_ <;> simp only [PauseAction.actor, hpc]
    · rw [role_congr Pc.onEach_awake hawake]
      exact h.noEach a
    · rw [role_congr Pc.plain_awake hawake]
      exact h.plain a
    · rw [role_congr Pc.paused_awake hawake]
      exact .inl
    · rw [role_congr Pc.pauses_awake hawake]
      exact .inl
  | top a ha =>
    refine h.frame hp hm' ?_ ?_ ?_ (by simp [ha, Pc.pauses])
    all_goals
      simp only [topNext]
      split
    all_goals (try split) <;> simp [Pc.plain]
  -- a thread that is not the leader goes on
  | takePause a p rest hpipe ha harm | lockAtRest a ha hc | runAtRest a f todo ha
  | endAtRest a ha | event a ha | finish a ha hio =>
    exact h.frame hp hm' (by simp) (by simp [Pc.plain]) (by simp) (by simp [ha, Pc.pauses])

/-! ## The charges -/

namespace Pc

/-- The pause that a thread waits to be resumed from. -/
def pausedFor : Pc → Option ℕ
  | resumeWait p _ => some p
  | _ => none

/-- On its way to the at-rest functions, or running them. -/
def rests : Pc → Bool
  | atRestLock | atRest _ => true
  | _ => false

/-- The at-rest functions that a thread still has to run. -/
def resting : Pc → Option (List ℕ)
  | atRest todo => some todo
  | _ => none

theorem pausedFor_awake (pc : Pc) : pc.awake.pausedFor = pc.pausedFor := by
  cases pc <;> rfl

theorem rests_awake (pc : Pc) : pc.awake.rests = pc.rests := by
  cases pc <;> rfl

theorem resting_awake (pc : Pc) : pc.awake.resting = pc.resting := by
  cases pc <;> rfl

/-- One for a thread whose pause has called its function: it is charged once it goes on. -/
def owed (called : List ℕ) (pc : Pc) : ℤ :=
  match pc.pausedFor with
  | some p => if p ∈ called then 1 else 0
  | none => 0

theorem owed_of_not_paused (called : List ℕ) {pc : Pc} (h : pc.paused = false) :
    pc.owed called = 0 := by
  cases pc <;> first | rfl | exact absurd h (by simp)

theorem paused_of_pausedFor {pc : Pc} {p : ℕ} (h : pc.pausedFor = some p) : pc.paused = true := by
  cases pc <;> first | rfl | simp [pausedFor] at h

end Pc

/-- What a thread will settle at the top of its loop. -/
def PauseState.charge (s : PauseState A) (b : A) : ℤ := s.countdown b + (s.pc b).owed s.called

/-- Every thread that is paused finds, once the counter is reset, that its function was called. -/
def Settles (s : PauseState A) : Prop :=
  ∀ b p, (s.pc b).pausedFor = some p → s.numPaused = 0 → p ∈ s.called

/-- `thread_countdown_` is the sum of the charges, and whoever is charged has yet to come to the
top of its loop. -/
structure Charges (io : A → Bool) (s : PauseState A) : Prop where
  nonneg : ∀ b, 0 ≤ s.charge b
  total : s.threadCountdown = count (fun z => z) s.charge
  behind : ∀ b, s.charge b ≠ 0 → io b = true ∧ s.topped b < s.registrations
  topped : ∀ b, s.topped b ≤ s.registrations
  resting : ∀ a, (s.pc a).rests = true → s.threadCountdown = 0

/-- The functions that were left are the ones that ran and the ones that wait. -/
structure Functions (io : A → Bool) (s : PauseState A) : Prop where
  numbered : ∀ f ∈ s.registered, f < s.registrations
  nodup : s.registered.Nodup
  idle : (∀ a, (s.pc a).resting = none) → (s.ran ++ s.atRestFunctions).Perm s.registered
  running : ∀ a todo, (s.pc a).resting = some todo → (s.ran ++ todo).Perm s.registered
  waiting : ∀ f ∈ s.atRestFunctions, f ∈ s.registered
  pending : ∀ f ∈ s.atRestFunctions, ∀ b, io b = true → s.topped b ≤ f → s.charge b ≠ 0
  todo : ∀ a todo, (s.pc a).resting = some todo →
    (∀ f ∈ todo, ∀ b, io b = true → f < s.topped b) ∧ (todo ≠ [] → s.atRestFunctions ≠ [])
  ran : ∀ f ∈ s.ran, ∀ b, io b = true → f < s.topped b
  live : s.atRestFunctions ≠ [] → s.threadCountdown ≠ 0 ∨ ∃ a, (s.pc a).rests = true

/-- A step that leaves the countdown and the functions alone. -/
structure RestKept (s s' : PauseState A) : Prop where
  total : s'.threadCountdown = s.threadCountdown
  functions : s'.atRestFunctions = s.atRestFunctions
  registrations : s'.registrations = s.registrations
  registered : s'.registered = s.registered
  ran : s'.ran = s.ran
  topped : s'.topped = s.topped
  charge : ∀ b, s'.charge b = s.charge b
  rests : ∀ b, (s'.pc b).rests = (s.pc b).rests
  resting : ∀ b, (s'.pc b).resting = (s.pc b).resting

omit [DecidableEq A] in
theorem Charges.frame (h : Charges io s) (htotal : s'.threadCountdown = s.threadCountdown)
    (hregistrations : s'.registrations = s.registrations) (htopped : s'.topped = s.topped)
    (hcharge : ∀ b, s'.charge b = s.charge b)
    (hrests : ∀ b, (s'.pc b).rests = true → (s.pc b).rests = true) : Charges io s' := by
  constructor
  · intro b
    rw [hcharge]
    exact h.nonneg b
  · rw [htotal, h.total]
    exact (count_congr (q := fun z => z) hcharge).symm
  · intro b
    rw [hcharge, htopped, hregistrations]
    exact h.behind b
  · rw [htopped, hregistrations]
    exact h.topped
  · intro a ha
    rw [htotal]
    exact h.resting a (hrests a ha)

omit [Fintype A] [DecidableEq A] in
theorem Functions.frame (h : Functions io s) (hk : RestKept s s') : Functions io s' := by
  constructor
  · rw [hk.registered, hk.registrations]
    exact h.numbered
  · rw [hk.registered]
    exact h.nodup
  · intro hall
    rw [hk.ran, hk.functions, hk.registered]
    exact h.idle fun a => (hk.resting a).symm.trans (hall a)
  · intro a
    rw [hk.resting, hk.ran, hk.registered]
    exact h.running a
  · rw [hk.functions, hk.registered]
    exact h.waiting
  · rw [hk.functions, hk.topped]
    intro f hf b hio hle
    rw [hk.charge]
    exact h.pending f hf b hio hle
  · intro a
    rw [hk.resting, hk.topped, hk.functions]
    exact h.todo a
  · rw [hk.ran, hk.topped]
    exact h.ran
  · rw [hk.functions, hk.total]
    intro hne
    obtain hne | ⟨a, ha⟩ := h.live hne
    · exact .inl hne
    · exact .inr ⟨a, (hk.rests a).trans ha⟩

/-- A step whose books are the same: nothing is counted down, registered or run. -/
structure BooksKept (s s' : PauseState A) : Prop where
  total : s'.threadCountdown = s.threadCountdown
  functions : s'.atRestFunctions = s.atRestFunctions
  registrations : s'.registrations = s.registrations
  registered : s'.registered = s.registered
  ran : s'.ran = s.ran
  topped : s'.topped = s.topped
  countdown : s'.countdown = s.countdown

/-- The thread that acts moves outside of the at-rest functions. -/
theorem BooksKept.restKept (hb : BooksKept s s') (hp : Places io s) (hm : Moves io s x s')
    (hcharge : ∀ b, (s'.pc b).owed s'.called = (s.pc b).owed s.called)
    (hrests : (s'.pc x.actor).rests = (s.pc x.actor).rests)
    (hresting : (s'.pc x.actor).resting = (s.pc x.actor).resting) : RestKept s s' := by
  obtain ⟨htotal, hfunctions, hregistrations, hregistered, hran, htopped, hcountdown⟩ := hb
  refine ⟨htotal, hfunctions, hregistrations, hregistered, hran, htopped, ?_, ?_, ?_⟩
  · intro b
    rw [charge, hcountdown, hcharge, charge]
  · intro b
    by_cases hbx : b = x.actor
    · rw [hbx, hrests]
    · exact role_congr Pc.rests_awake (hm.awake_of_ne hp hbx)
  · intro b
    by_cases hbx : b = x.actor
    · rw [hbx, hresting]
    · exact role_congr Pc.resting_awake (hm.awake_of_ne hp hbx)

theorem Pc.owed_congr (called : List ℕ) {pc pc' : Pc} (h : pc'.pausedFor = pc.pausedFor) :
    pc'.owed called = pc.owed called := by
  rw [owed, h, owed]

/-- The charges are the same if the functions called are, and nobody was paused or resumed. -/
theorem owed_kept (hp : Places io s) (hm : Moves io s x s') (hcalled : s'.called = s.called)
    (hactor : (s'.pc x.actor).pausedFor = (s.pc x.actor).pausedFor) (b : A) :
    (s'.pc b).owed s'.called = (s.pc b).owed s.called := by
  rw [hcalled]
  apply Pc.owed_congr
  by_cases hbx : b = x.actor
  · rw [hbx, hactor]
  · exact role_congr Pc.pausedFor_awake (hm.awake_of_ne hp hbx)

/-! ### Who has been called -/

/-- A step that pauses nobody and does not reset the counter. -/
theorem Settles.frame (h : Settles s) (hp : Places io s) (hm : Moves io s x s')
    (hcalled : s'.called = s.called)
    (hn : s'.numPaused = 0 → s.numPaused = 0 ∨ ∀ b, (s.pc b).paused = false)
    (hactor : ∀ p, (s'.pc x.actor).pausedFor = some p →
      (s.pc x.actor).pausedFor = some p) : Settles s' := by
  intro b p hb hzero
  have hold : (s.pc b).pausedFor = some p := by
    by_cases hbx : b = x.actor
    · exact hbx ▸ hactor p (hbx ▸ hb)
    · rwa [role_congr Pc.pausedFor_awake (hm.awake_of_ne hp hbx)] at hb
  obtain hzero | hnone := hn hzero
  · exact hcalled ▸ h b p hold hzero
  · have hpaused := Pc.paused_of_pausedFor hold
    rw [hnone b] at hpaused
    exact absurd hpaused Bool.false_ne_true

theorem Settles.step (h : Settles s) (hspare : Spare io s) (hphase : Phase io s)
    (hp : Places io s) (hm : Moves io s x s') (hx : Flushing io s x) : Settles s' := by
  have hm' := hm
  have hserial := hspare.serial hphase hx hm
  cases hm with
  | callWhilePaused a p throws ha =>
    have hzero := hspare.paused_of_calling hphase ha
    have hnone := paused_of_count hp hm' hzero (by cases throws <;> simp [endWhilePaused])
    intro b q hb
    have hpaused := Pc.paused_of_pausedFor hb
    rw [hnone b] at hpaused
    exact absurd hpaused Bool.false_ne_true
  | callWhilePaused2 a p throws ha =>
    obtain ⟨-, -, hothers⟩ := hphase.of_calling ha
    intro b q hb hn
    have hcalled : (s.endWhilePaused2 io a p throws).called = p :: s.called := by
      simp only [endWhilePaused2]
      split <;> rfl
    by_cases hba : b = a
    · rw [hba] at hb
      simp only [endWhilePaused2] at hb
      split at hb <;> simp [Pc.pausedFor] at hb
    · rw [role_congr Pc.pausedFor_awake (hm'.awake_of_ne hp hba)] at hb
      obtain hneutral | ⟨asleep, hpc⟩ := hothers b hba
      · have hpaused := Pc.paused_of_pausedFor hb
        cases hpc : s.pc b <;> simp [hpc] at hneutral hpaused
      · rw [hpc] at hb
        obtain rfl : p = q := by simpa [Pc.pausedFor] using hb
        rw [hcalled]
        exact List.mem_cons_self
  | count a w p ha hc hw =>
    obtain ⟨l, k, asleep, -, -, hpausing, -⟩ := hphase.of_pauseCmd hp ha hc
    intro b q hb hn
    -- The thread has just been counted.
    have hcounted : (({ s with armed := true }.countPaused io w).setPc a
        (.resumeWait p true)).numPaused = s.numPaused + 1 := by
      simp only [countPaused]
      split <;> cases w <;> rfl
    have hown : 0 ≤ own io k l := own_nonneg k
    have hpaused := count_pausedWeight_nonneg (s := s)
    have hsum := hpausing.counted
    rw [hcounted] at hn
    omega
  | lockCom a k p ha hc =>
    exact h.frame hp hm' rfl (fun _ => .inr hserial) (by simp [Pc.pausedFor])
  | resumed a p ha hc hn =>
    refine h.frame hp hm' ?_ (fun _ => .inl hn) ?_
    all_goals
      simp only [wakeNext, ha, if_pos hn]
      split <;> simp [Pc.pausedFor, Pc.notifyResume2]
  | top a ha =>
    refine h.frame hp hm' ?_ ?_ ?_
    all_goals
      simp only [topNext]
      split
    all_goals (try split) <;> simp [Pc.pausedFor]
    all_goals exact fun h => .inl h
  | spurious a pc ha =>
    refine h.frame hp hm' rfl .inl fun p hpc => ?_
    have hsame : (s.setPc a pc).pc a = pc := Function.update_self _ _ _
    rw [PauseAction.actor, hsame, role_congr Pc.pausedFor_awake (Pc.awake_of_spurious ha)] at hpc
    exact hpc
  | beginEach a ha ho => exact hx.elim
  | eachReturns a c ha ho hn => exact hspare.not_onEach (a := a) (by rw [ha]; rfl)
  | exec a w c ha ho hw => exact hspare.not_onEach (a := a) (by rw [ha]; rfl)
  | stillPaused a p ha hc hn =>
    exact h.frame hp hm' rfl .inl (by simp [ha, Pc.pausedFor])
  | eachStillPaused a c ha ho hn =>
    exact h.frame hp hm' rfl .inl (by simp [ha, Pc.pausedFor])
  | _ => exact h.frame hp hm' rfl .inl (by simp [Pc.pausedFor])

/-! ### The steps of the countdown -/

/-- No thread is on its way to the at-rest functions while another one calls its function. -/
theorem not_rests_of_calling (hphase : Phase io s) (hp : Places io s) {p : ℕ}
    (ha : s.pc a = .calling .whilePaused2 p) (b : A) : (s.pc b).rests = false := by
  obtain ⟨-, hcount, hothers⟩ := hphase.of_calling ha
  have hio : io a = true := hp.ioOnly a (by rw [ha]; rfl)
  have hown : own io .whilePaused2 a = ioWeight (io a) := own_eq _ fun _ => hio
  by_contra hrests
  have hrests : (s.pc b).rests = true := by simpa using hrests
  by_cases hba : b = a
  · rw [hba, ha] at hrests
    exact absurd hrests Bool.false_ne_true
  · have hbio := hp.ioOnly b (by cases hpc : s.pc b <;> simp [hpc, Pc.rests] at hrests <;> rfl)
    have hpaused := hp.paused_of_eq (by rw [ha]; rfl) (hown ▸ hcount) hba hbio
    cases hpc : s.pc b <;> simp [hpc, Pc.rests] at hrests hpaused

omit [DecidableEq A] in
theorem Pc.resting_of_not_rests {pc : Pc} (h : pc.rests = false) : pc.resting = none := by
  cases pc <;> first | rfl | exact absurd h (by simp [Pc.rests])

/-- Each io thread is charged once more. -/
theorem charge_callWhilePaused2 (hphase : Phase io s) (hp : Places io s) (hcalls : Calls s)
    {p : ℕ} {throws : Bool} (ha : s.pc a = .calling .whilePaused2 p)
    (hm : Moves io s (.call a throws) (s.endWhilePaused2 io a p throws)) (b : A) :
    (s.endWhilePaused2 io a p throws).charge b = s.charge b + ioWeight (io b) := by
  obtain ⟨-, hcount, hothers⟩ := hphase.of_calling ha
  have hio : io a = true := hp.ioOnly a (by rw [ha]; rfl)
  have hown : own io .whilePaused2 a = ioWeight (io a) := own_eq _ fun _ => hio
  have hcalled : (s.endWhilePaused2 io a p throws).called = p :: s.called := by
    simp only [endWhilePaused2]
    split <;> rfl
  have hcountdown : (s.endWhilePaused2 io a p throws).countdown =
      Function.update s.countdown a (s.countdown a + 1) := by
    simp only [endWhilePaused2]
    split <;> rfl
  rw [charge, charge, hcalled, hcountdown]
  by_cases hba : b = a
  · have hnew : (s.endWhilePaused2 io a p throws).pc a = .user ∨
        (s.endWhilePaused2 io a p throws).pc a = .doneWait p true := by
      simp only [endWhilePaused2]
      split <;> simp
    rw [hba, Function.update_self, ha, hio]
    obtain hnew | hnew := hnew
    all_goals
      rw [hnew]
      simp [Pc.owed, Pc.pausedFor, ioWeight]
  · have hsame := role_congr Pc.pausedFor_awake (hm.awake_of_ne hp hba)
    rw [Function.update_of_ne hba, Pc.owed_congr _ hsame]
    obtain hneutral | ⟨asleep, hpc⟩ := hothers b hba
    · -- Any other io thread would be paused.
      have hnot : io b = false := by
        by_contra hbio
        have hpaused := hp.paused_of_eq (by rw [ha]; rfl) (hown ▸ hcount) hba (by simpa using hbio)
        cases hpc : s.pc b <;> simp [hpc] at hneutral hpaused
      have hpaused : (s.pc b).paused = false := by
        cases hpc : s.pc b <;> simp [hpc] at hneutral ⊢
      rw [hnot, Pc.owed_of_not_paused _ hpaused, Pc.owed_of_not_paused _ hpaused]
      simp [ioWeight]
    · have hbio : io b = true := hp.ioOnly b (by rw [hpc]; rfl)
      have hnot : p ∉ s.called := (hcalls.awaits a p (by rw [ha]; rfl)).2
      simp [hpc, hbio, hnot, Pc.owed, Pc.pausedFor, ioWeight]

omit [DecidableEq A] in
/-- A step of `while_paused2` that charges every io thread. -/
theorem Charges.charged (h : Charges io s)
    (htotal : s'.threadCountdown = s.threadCountdown + numThreads io)
    (hregistrations : s'.registrations = s.registrations + 1) (htopped : s'.topped = s.topped)
    (hcharge : ∀ b, s'.charge b = s.charge b + ioWeight (io b))
    (hrests : ∀ b, (s'.pc b).rests = false) : Charges io s' := by
  constructor
  · intro b
    have hold := h.nonneg b
    have hweight := ioWeight_nonneg (io b)
    rw [hcharge]
    omega
  · rw [htotal, h.total, numThreads, count, count, count, ← Finset.sum_add_distrib]
    exact Finset.sum_congr rfl fun b _ => (hcharge b).symm
  · intro b hb
    rw [htopped, hregistrations]
    refine ⟨?_, Nat.lt_succ_of_le (h.topped b)⟩
    by_contra hio
    have hio : io b = false := by simpa using hio
    rw [hcharge, hio] at hb
    exact absurd (h.behind b (by simpa [ioWeight] using hb)).1 (by simp [hio])
  · intro b
    rw [htopped, hregistrations]
    exact (h.topped b).trans (Nat.le_succ _)
  · intro b hb
    rw [hrests b] at hb
    exact absurd hb Bool.false_ne_true

omit [DecidableEq A] in
/-- A step of `while_paused2` that charges every io thread and may leave a function. -/
theorem Functions.registered (h : Functions io s) (hcharges : Charges io s) {throws : Bool}
    {g : A} (hg : io g = true)
    (htotal : s'.threadCountdown = s.threadCountdown + numThreads io)
    (hregistrations : s'.registrations = s.registrations + 1) (htopped : s'.topped = s.topped)
    (hran : s'.ran = s.ran)
    (hfunctions : s'.atRestFunctions =
      if throws then s.atRestFunctions else s.registrations :: s.atRestFunctions)
    (hregistered : s'.registered =
      if throws then s.registered else s.registrations :: s.registered)
    (hcharge : ∀ b, s'.charge b = s.charge b + ioWeight (io b))
    (hold : ∀ b, (s.pc b).rests = false) (hnew : ∀ b, (s'.pc b).rests = false) :
    Functions io s' := by
  have hidle := h.idle fun b => Pc.resting_of_not_rests (hold b)
  have hnone : ∀ b todo, (s'.pc b).resting ≠ some todo := by
    intro b todo hb
    rw [Pc.resting_of_not_rests (hnew b)] at hb
    exact absurd hb (by simp)
  constructor
  · intro f hf
    rw [hregistered] at hf
    rw [hregistrations]
    cases throws with
    | true => exact Nat.lt_succ_of_lt (h.numbered f hf)
    | false =>
      obtain rfl | hf := List.mem_cons.mp hf
      · exact Nat.lt_succ_self _
      · exact Nat.lt_succ_of_lt (h.numbered f hf)
  · rw [hregistered]
    cases throws with
    | true => exact h.nodup
    | false =>
      refine List.nodup_cons.mpr ⟨fun hf => ?_, h.nodup⟩
      exact absurd (h.numbered _ hf) (lt_irrefl _)
  · intro _
    rw [hran, hfunctions, hregistered]
    cases throws with
    | true => exact hidle
    | false => exact List.perm_middle.trans (hidle.cons _)
  · exact fun b todo hb => absurd hb (hnone b todo)
  · rw [hfunctions, hregistered]
    cases throws with
    | true => exact h.waiting
    | false =>
      intro f hf
      exact (List.mem_cons.mp hf).elim (fun hfr => hfr ▸ List.mem_cons_self)
        fun hf => List.mem_cons_of_mem _ (h.waiting f hf)
  · intro f _ b hio _
    have hcb := hcharges.nonneg b
    rw [hcharge, hio, ioWeight, if_pos rfl]
    omega
  · exact fun b todo hb => absurd hb (hnone b todo)
  · rw [hran, htopped]
    exact h.ran
  · intro _
    refine .inl ?_
    have hle := le_count (f := io) ioWeight_nonneg g
    have hnonneg : 0 ≤ s.threadCountdown := by
      rw [hcharges.total]
      exact Finset.sum_nonneg fun b _ => hcharges.nonneg b
    rw [hg, ioWeight, if_pos rfl] at hle
    rw [htotal, numThreads]
    omega

omit [Fintype A] in
/-- A thread at the top of its loop settles its charge. -/
theorem charge_top (b : A) :
    (s.topNext a).charge b = Function.update s.charge a 0 b := by
  have hcalled : (s.topNext a).called = s.called := by
    simp only [topNext]
    split
    · rfl
    · split <;> rfl
  rw [charge, hcalled]
  by_cases hba : b = a
  · rw [hba, Function.update_self]
    simp only [topNext]
    split
    · next hcd => simp [hcd, Pc.owed, Pc.pausedFor]
    · split <;> simp [Pc.owed, Pc.pausedFor]
  · rw [Function.update_of_ne hba, charge]
    simp only [topNext]
    split
    · simp [Function.update_of_ne hba]
    · split <;> simp [Function.update_of_ne hba]

omit [Fintype A] in
/-- What the top of the loop does besides. -/
theorem topNext_books (ha : s.pc a = .top) :
    (s.topNext a).threadCountdown = s.threadCountdown - s.charge a ∧
    (s.topNext a).topped = Function.update s.topped a s.registrations ∧
    (s.topNext a).registrations = s.registrations ∧ (s.topNext a).registered = s.registered ∧
    (s.topNext a).ran = s.ran ∧ (s.topNext a).atRestFunctions = s.atRestFunctions ∧
    (s.topNext a).called = s.called ∧ (∀ b, ((s.topNext a).pc b).resting = (s.pc b).resting) ∧
    (∀ b, b ≠ a → (s.topNext a).pc b = s.pc b) ∧
    (((s.topNext a).pc a).rests = true ↔ s.charge a ≠ 0 ∧ s.threadCountdown - s.charge a = 0) := by
  have hcharge : s.charge a = s.countdown a := by simp [charge, ha, Pc.owed, Pc.pausedFor]
  have hresting : ∀ pc : Pc, pc.resting = none → ∀ b,
      (Function.update s.pc a pc b).resting = (s.pc b).resting := by
    intro pc hpc
    exact forall_update (R := fun b (pc : Pc) => pc.resting = (s.pc b).resting) (fun _ => rfl)
      (by rw [hpc, ha]; rfl)
  rw [hcharge]
  simp only [topNext]
  by_cases hcd : s.countdown a = 0
  · rw [if_pos hcd, hcd, sub_zero]
    refine ⟨rfl, rfl, rfl, rfl, rfl, rfl, rfl, hresting _ rfl, fun b hb => ?_, ?_⟩
    · exact Function.update_of_ne hb _ _
    · simp [Pc.rests]
  · rw [if_neg hcd]
    by_cases hncd : s.threadCountdown - s.countdown a = 0
    · rw [if_pos hncd]
      refine ⟨rfl, rfl, rfl, rfl, rfl, rfl, rfl, hresting _ rfl, fun b hb => ?_, ?_⟩
      · exact Function.update_of_ne hb _ _
      · simp [Pc.rests, hcd, hncd]
    · rw [if_neg hncd]
      refine ⟨rfl, rfl, rfl, rfl, rfl, rfl, rfl, hresting _ rfl, fun b hb => ?_, ?_⟩
      · exact Function.update_of_ne hb _ _
      · simp [Pc.rests, hncd]

omit [DecidableEq A] in
/-- Once the countdown is at zero nobody is charged. -/
theorem Charges.charge_eq_zero (h : Charges io s) (hzero : s.threadCountdown = 0) (b : A) :
    s.charge b = 0 := by
  rw [h.total] at hzero
  exact (Finset.sum_eq_zero_iff_of_nonneg fun c _ => h.nonneg c).mp hzero b (Finset.mem_univ b)

theorem Charges.top (h : Charges io s) (ha : s.pc a = .top) : Charges io (s.topNext a) := by
  obtain ⟨htotal, htopped, hregistrations, -, -, -, -, -, hpc, hrests⟩ := topNext_books ha
  have hcharge := charge_top (s := s) (a := a)
  constructor
  · intro b
    rw [hcharge]
    revert b
    exact forall_update (R := fun _ (z : ℤ) => 0 ≤ z) h.nonneg le_rfl
  · rw [htotal, count_congr (q := fun z => z) hcharge, count_update, h.total]
    omega
  · intro b
    rw [hcharge, htopped, hregistrations]
    by_cases hba : b = a
    · rw [hba, Function.update_self]
      exact fun hne => absurd rfl hne
    · rw [Function.update_of_ne hba, Function.update_of_ne hba]
      exact h.behind b
  · intro b
    rw [htopped, hregistrations]
    exact forall_update (R := fun _ n => n ≤ s.registrations) h.topped le_rfl b
  · intro b hb
    by_cases hba : b = a
    · rw [htotal]
      exact (hrests.mp (hba ▸ hb)).2
    · rw [hpc b hba] at hb
      have hzero := h.resting b hb
      rw [htotal, hzero, h.charge_eq_zero hzero a]
      rfl

theorem Functions.top (h : Functions io s) (hcharges : Charges io s) (ha : s.pc a = .top) :
    Functions io (s.topNext a) := by
  obtain ⟨htotal, htopped, hregistrations, hregistered, hran, hfunctions, -, hresting, hpc,
    hrests⟩ := topNext_books ha
  have hcharge := charge_top (s := s) (a := a)
  have hle : ∀ b, s.topped b ≤ (s.topNext a).topped b := by
    intro b
    rw [htopped]
    exact forall_update (R := fun b n => s.topped b ≤ n) (fun _ => le_rfl) (hcharges.topped a) b
  constructor
  · rw [hregistered, hregistrations]
    exact h.numbered
  · rw [hregistered]
    exact h.nodup
  · intro hall
    rw [hran, hfunctions, hregistered]
    exact h.idle fun b => (hresting b).symm.trans (hall b)
  · intro b
    rw [hresting, hran, hregistered]
    exact h.running b
  · rw [hfunctions, hregistered]
    exact h.waiting
  · rw [hfunctions, htopped]
    intro f hf b hio hbf
    rw [hcharge]
    by_cases hba : b = a
    · -- The thread has just seen every registration.
      rw [hba, Function.update_self] at hbf
      exact absurd (h.numbered f (h.waiting f hf)) (not_lt.mpr hbf)
    · rw [Function.update_of_ne hba] at hbf ⊢
      exact h.pending f hf b hio hbf
  · intro b
    rw [hresting, hfunctions]
    intro todo hb
    obtain ⟨htodo, hne⟩ := h.todo b todo hb
    exact ⟨fun f hf c hio => (htodo f hf c hio).trans_le (hle c), hne⟩
  · rw [hran]
    exact fun f hf c hio => (h.ran f hf c hio).trans_le (hle c)
  · rw [hfunctions]
    intro hne
    by_cases hzero : (s.topNext a).threadCountdown = 0
    · right
      rw [htotal] at hzero
      by_cases hca : s.charge a = 0
      · obtain hlive | ⟨b, hb⟩ := h.live hne
        · rw [hca, sub_zero] at hzero
          exact absurd hzero hlive
        · refine ⟨b, ?_⟩
          rw [hpc b ?_]
          · exact hb
          · intro hba
            rw [hba, ha] at hb
            exact absurd hb Bool.false_ne_true
      · exact ⟨a, hrests.mpr ⟨hca, hzero⟩⟩
    · exact .inl hzero

/-! ### The steps of the functions -/

omit [DecidableEq A] in
/-- At most one thread runs at-rest functions, and it holds `pause_com_mutex_`. -/
theorem Places.resting_unique (hp : Places io s) {todo todo' : List ℕ}
    (ha : (s.pc a).resting = some todo) (hb : (s.pc b).resting = some todo') : b = a := by
  have hholds : ∀ (c : A) (l : List ℕ), (s.pc c).resting = some l → (s.pc c).holdsCom = true := by
    intro c l hc
    cases hpc : s.pc c <;> simp [hpc, Pc.resting] at hc
    rfl
  exact hp.com.unique (hholds b _ hb) (hholds a _ ha)

theorem Functions.lockAtRest (h : Functions io s) (hcharges : Charges io s) (hp : Places io s)
    (ha : s.pc a = .atRestLock) (hc : s.com = none) :
    Functions io ({ s with com := some a }.setPc a (.atRest s.atRestFunctions)) := by
  have hnone : ∀ b, (s.pc b).resting = none := by
    intro b
    have hcom := (hc ▸ hp.com).of_none b
    cases hpc : s.pc b <;> simp [hpc, Pc.holdsCom] at hcom <;> rfl
  have hzero := hcharges.resting a (by rw [ha]; rfl)
  have hnew : ∀ b todo, (Function.update s.pc a (.atRest s.atRestFunctions) b).resting = some todo →
      todo = s.atRestFunctions := by
    refine forall_update (R := fun _ (pc : Pc) => ∀ todo, pc.resting = some todo →
      todo = s.atRestFunctions) (fun b todo hb => ?_) ?_
    · rw [hnone b] at hb
      exact absurd hb (by simp)
    · intro todo htodo
      exact (Option.some.inj htodo).symm
  have hcharge : ∀ b, ({ s with com := some a }.setPc a (.atRest s.atRestFunctions)).charge b =
      s.charge b := by
    intro b
    rw [charge, charge]
    refine congrArg _ (Pc.owed_congr _ ?_)
    exact forall_update (R := fun b (pc : Pc) => pc.pausedFor = (s.pc b).pausedFor)
      (fun _ => rfl) (by rw [ha]; rfl) b
  constructor
  · exact h.numbered
  · exact h.nodup
  · exact fun _ => h.idle hnone
  · intro b todo hb
    rw [hnew b todo hb]
    exact h.idle hnone
  · exact h.waiting
  · intro f hf b hio hle
    rw [hcharge]
    exact h.pending f hf b hio hle
  · intro b todo hb
    rw [hnew b todo hb]
    refine ⟨fun f hf c hio => ?_, id⟩
    -- Nobody is charged any more, so everybody has come to the top since.
    by_contra hlt
    exact h.pending f hf c hio (not_lt.mp hlt) (hcharges.charge_eq_zero hzero c)
  · exact h.ran
  · intro _
    exact .inr ⟨a, by simp [Pc.rests]⟩

theorem Functions.runAtRest (h : Functions io s) (hp : Places io s) {f : ℕ} {todo : List ℕ}
    (ha : s.pc a = .atRest (f :: todo)) :
    Functions io ({ s with ran := f :: s.ran }.setPc a (.atRest todo)) := by
  have hold : (s.pc a).resting = some (f :: todo) := by rw [ha]; rfl
  have hself : (Function.update s.pc a (.atRest todo) a).resting = some todo := by
    rw [Function.update_self]
    rfl
  have hnew : ∀ b l, (Function.update s.pc a (.atRest todo) b).resting = some l → l = todo := by
    intro b l hb
    by_cases hba : b = a
    · rw [hba, hself] at hb
      exact (Option.some.inj hb).symm
    · rw [Function.update_of_ne hba] at hb
      exact absurd (hp.resting_unique hold hb) hba
  obtain ⟨htodo, hne⟩ := h.todo a _ hold
  have hcharge : ∀ b, ({ s with ran := f :: s.ran }.setPc a (.atRest todo)).charge b =
      s.charge b := by
    intro b
    rw [charge, charge]
    refine congrArg _ (Pc.owed_congr _ ?_)
    exact forall_update (R := fun b (pc : Pc) => pc.pausedFor = (s.pc b).pausedFor)
      (fun _ => rfl) (by rw [ha]; rfl) b
  constructor
  · exact h.numbered
  · exact h.nodup
  · intro hall
    exact absurd (hall a) (by rw [setPc, hself]; simp)
  · intro b l hb
    rw [hnew b l hb]
    exact List.perm_middle.symm.trans (h.running a _ hold)
  · exact h.waiting
  · intro g hg b hio hle
    rw [hcharge]
    exact h.pending g hg b hio hle
  · intro b l hb
    rw [hnew b l hb]
    exact ⟨fun g hg => htodo g (List.mem_cons_of_mem _ hg), fun _ => hne (List.cons_ne_nil _ _)⟩
  · intro g hg
    obtain rfl | hg := List.mem_cons.mp hg
    · exact htodo g List.mem_cons_self
    · exact h.ran g hg
  · intro hne'
    exact .inr ⟨a, by simp [Pc.rests]⟩

theorem Functions.endAtRest (h : Functions io s) (hp : Places io s) (ha : s.pc a = .atRest []) :
    Functions io ({ s with atRestFunctions := [], com := none }.setPc a .epoll) := by
  have hold : (s.pc a).resting = some [] := by rw [ha]; rfl
  have hnew : ∀ b l, (Function.update s.pc a .epoll b).resting ≠ some l := by
    intro b l hb
    by_cases hba : b = a
    · rw [hba, Function.update_self] at hb
      exact absurd hb (by simp [Pc.resting])
    · rw [Function.update_of_ne hba] at hb
      exact absurd (hp.resting_unique hold hb) hba
  refine ⟨h.numbered, h.nodup, fun _ => h.running a _ hold, fun b l hb => absurd hb (hnew b l), ?_,
    ?_, fun b l hb => absurd hb (hnew b l), h.ran, fun hne => absurd rfl hne⟩
  · exact fun f hf => absurd hf List.not_mem_nil
  · exact fun f hf => absurd hf List.not_mem_nil

/-! ## Every run -/

/-- What holds in every state of a run in which `while_paused2` is the only pause. -/
structure AtRest (io : A → Bool) (s : PauseState A) : Prop where
  orderly : Orderly io s
  spare : Spare io s
  settles : Settles s
  charges : Charges io s
  functions : Functions io s

omit [DecidableEq A] in
theorem AtRest.kept (h : AtRest io s) (hk : RestKept s s') : Charges io s' ∧ Functions io s' := by
  refine ⟨h.charges.frame hk.total hk.registrations hk.topped hk.charge fun b hb => ?_,
    h.functions.frame hk⟩
  rwa [hk.rests] at hb

/-- A step of a thread that stays outside of the at-rest functions and is not paused or resumed. -/
theorem AtRest.kept_of_books (h : AtRest io s) (hm : Moves io s x s') (hb : BooksKept s s')
    (hcalled : s'.called = s.called)
    (hpaused : (s'.pc x.actor).pausedFor = (s.pc x.actor).pausedFor)
    (hrests : (s'.pc x.actor).rests = (s.pc x.actor).rests)
    (hresting : (s'.pc x.actor).resting = (s.pc x.actor).resting) :
    Charges io s' ∧ Functions io s' := by
  have hp := h.orderly.places
  exact h.kept (hb.restKept hp hm (owed_kept hp hm hcalled hpaused) hrests hresting)

/-- What a resumed thread was owed becomes its countdown. -/
theorem AtRest.resumed (h : AtRest io s) {p : ℕ} (ha : s.pc a = .resumeWait p false)
    (hn : s.numPaused = 0) (hm : Moves io s (.wake a) (s.wakeNext io a)) :
    RestKept s (s.wakeNext io a) := by
  have hp := h.orderly.places
  have hcalled : p ∈ s.called := h.settles a p (by rw [ha]; rfl) hn
  have hbooks : (s.wakeNext io a).countdown = Function.update s.countdown a (s.countdown a + 1) ∧
      (s.wakeNext io a).called = s.called ∧ (s.wakeNext io a).pc a = .top := by
    simp only [wakeNext, ha, if_pos hn]
    split <;> simp [Pc.notifyResume2]
  obtain ⟨hcountdown, hcalls, hpc⟩ := hbooks
  have hkept : (s.wakeNext io a).threadCountdown = s.threadCountdown ∧
      (s.wakeNext io a).atRestFunctions = s.atRestFunctions ∧
      (s.wakeNext io a).registrations = s.registrations ∧
      (s.wakeNext io a).registered = s.registered ∧ (s.wakeNext io a).ran = s.ran ∧
      (s.wakeNext io a).topped = s.topped := by
    simp only [wakeNext, ha, if_pos hn]
    split <;> exact ⟨rfl, rfl, rfl, rfl, rfl, rfl⟩
  obtain ⟨htotal, hfunctions, hregistrations, hregistered, hran, htopped⟩ := hkept
  refine ⟨htotal, hfunctions, hregistrations, hregistered, hran, htopped, ?_, ?_, ?_⟩
  · intro b
    rw [charge, charge, hcountdown, hcalls]
    by_cases hba : b = a
    · rw [hba, Function.update_self, hpc, ha]
      simp [Pc.owed, Pc.pausedFor, hcalled]
    · rw [Function.update_of_ne hba]
      exact congrArg _ (Pc.owed_congr _ (role_congr Pc.pausedFor_awake (hm.awake_of_ne hp hba)))
  · intro b
    by_cases hba : b = a
    · rw [hba, hpc, ha]
      rfl
    · exact role_congr Pc.rests_awake (hm.awake_of_ne hp hba)
  · intro b
    by_cases hba : b = a
    · rw [hba, hpc, ha]
      rfl
    · exact role_congr Pc.resting_awake (hm.awake_of_ne hp hba)

/-- A step keeps the account of the countdown and of the functions. -/
theorem AtRest.rest_step (h : AtRest io s) (hm : Moves io s x s') (hx : Flushing io s x) :
    Charges io s' ∧ Functions io s' := by
  have hm' := hm
  have hrest := h
  obtain ⟨⟨hp, hphase, -, hcalls⟩, hspare, hsettles, hcharges, hfunctions⟩ := h
  cases hm with
  | top a ha => exact ⟨hcharges.top ha, hfunctions.top hcharges ha⟩
  | lockAtRest a ha hc =>
    refine ⟨?_, hfunctions.lockAtRest hcharges hp ha hc⟩
    refine hcharges.frame rfl rfl rfl (fun b => ?_) fun b hb => ?_
    · rw [charge, charge]
      exact congrArg _ (owed_kept hp hm' rfl (by simp [ha, Pc.pausedFor]) b)
    · exact forall_update (R := fun b (pc : Pc) => pc.rests = true → (s.pc b).rests = true)
        (fun _ => id) (fun _ => by rw [ha]; rfl) b hb
  | runAtRest a f todo ha =>
    refine ⟨?_, hfunctions.runAtRest hp ha⟩
    refine hcharges.frame rfl rfl rfl (fun b => ?_) fun b hb => ?_
    · rw [charge, charge]
      exact congrArg _ (owed_kept hp hm' rfl (by simp [ha, Pc.pausedFor]) b)
    · exact forall_update (R := fun b (pc : Pc) => pc.rests = true → (s.pc b).rests = true)
        (fun _ => id) (fun _ => by rw [ha]; rfl) b hb
  | endAtRest a ha =>
    refine ⟨?_, hfunctions.endAtRest hp ha⟩
    refine hcharges.frame rfl rfl rfl (fun b => ?_) fun b hb => ?_
    · rw [charge, charge]
      exact congrArg _ (owed_kept hp hm' rfl (by simp [ha, Pc.pausedFor]) b)
    · exact forall_update (R := fun b (pc : Pc) => pc.rests = true → (s.pc b).rests = true)
        (fun _ => id) (fun _ => by rw [ha]; rfl) b hb
  -- the threads that are paused are charged, and from here on none of them rests
  | callWhilePaused2 a p throws ha =>
    have hcharge := charge_callWhilePaused2 hphase hp hcalls ha hm'
    have hold := not_rests_of_calling hphase hp ha
    have hnew : ∀ b, ((s.endWhilePaused2 io a p throws).pc b).rests = false := by
      intro b
      by_cases hba : b = a
      · rw [hba]
        simp only [endWhilePaused2]
        split <;> simp [Pc.rests]
      · rw [role_congr Pc.rests_awake (hm'.awake_of_ne hp hba)]
        exact hold b
    have hbooks : (s.endWhilePaused2 io a p throws).threadCountdown =
          s.threadCountdown + numThreads io ∧
        (s.endWhilePaused2 io a p throws).registrations = s.registrations + 1 ∧
        (s.endWhilePaused2 io a p throws).topped = s.topped ∧
        (s.endWhilePaused2 io a p throws).ran = s.ran ∧
        (s.endWhilePaused2 io a p throws).atRestFunctions =
          (if throws then s.atRestFunctions else s.registrations :: s.atRestFunctions) ∧
        (s.endWhilePaused2 io a p throws).registered =
          (if throws then s.registered else s.registrations :: s.registered) := by
      simp only [endWhilePaused2]
      split <;> exact ⟨rfl, rfl, rfl, rfl, rfl, rfl⟩
    obtain ⟨htotal, hregistrations, htopped, hran, hleft, hregistered⟩ := hbooks
    refine ⟨hcharges.charged htotal hregistrations htopped hcharge hnew, ?_⟩
    exact hfunctions.registered hcharges (hp.ioOnly a (by rw [ha]; rfl)) htotal hregistrations
      htopped hran hleft hregistered hcharge hold hnew
  | callWhilePaused a p throws ha =>
    -- Nobody is paused, so nobody will be charged.
    have hzero := hspare.paused_of_calling hphase ha
    have hnew := paused_of_count hp hm' hzero (by cases throws <;> simp [endWhilePaused])
    refine hrest.kept (BooksKept.restKept ?_ hp hm' (fun b => ?_) ?_ ?_)
    · cases throws <;> exact ⟨rfl, rfl, rfl, rfl, rfl, rfl, rfl⟩
    · rw [Pc.owed_of_not_paused _ (hnew b), Pc.owed_of_not_paused _ (paused_eq_false hzero b)]
    · cases throws <;> simp [endWhilePaused, ha, Pc.rests]
    · cases throws <;> simp [endWhilePaused, ha, Pc.resting]
  | resumed a p ha hc hn => exact hrest.kept (hrest.resumed ha hn hm')
  | count a w p ha hc hw =>
    -- The function of the pause has not been called yet.
    obtain ⟨l, k, asleep, hal, hl, -, -⟩ := hphase.of_pauseCmd hp ha hc
    have hnot : p ∉ s.called := (hcalls.awaits l p (by rw [hl]; rfl)).2
    have hcalled : (({ s with armed := true }.countPaused io w).setPc a
        (.resumeWait p true)).called = s.called := by
      simp only [countPaused]
      split <;> cases w <;> rfl
    refine hrest.kept (BooksKept.restKept ?_ hp hm' (fun b => ?_) ?_ ?_)
    · simp only [countPaused]
      split <;> cases w <;> exact ⟨rfl, rfl, rfl, rfl, rfl, rfl, rfl⟩
    · rw [hcalled]
      by_cases hba : b = a
      · simp [hba, ha, Pc.owed, Pc.pausedFor, hnot]
      · exact Pc.owed_congr _ (role_congr Pc.pausedFor_awake (hm'.awake_of_ne hp hba))
    · simp [ha, Pc.rests]
    · simp [ha, Pc.resting]
  | beginEach a ha ho => exact hx.elim
  | eachReturns a c ha ho hn => exact hspare.not_onEach (a := a) (by rw [ha]; rfl)
  | exec a w c ha ho hw => exact hspare.not_onEach (a := a) (by rw [ha]; rfl)
  | spurious a pc ha =>
    have hawake := Pc.awake_of_spurious ha
    have hself : (s.setPc a pc).pc a = pc := Function.update_self _ _ _
    refine hrest.kept_of_books hm' ⟨rfl, rfl, rfl, rfl, rfl, rfl, rfl⟩ rfl ?_ ?_ ?_ <;>
      rw [PauseAction.actor, hself]
    · exact role_congr Pc.pausedFor_awake hawake
    · exact role_congr Pc.rests_awake hawake
    · exact role_congr Pc.resting_awake hawake
  -- the other steps do not touch the books
  | begin_ k a ha ho hio | lockCom a k p ha hc | write a k p n ha hn | testCall a k p ha hn
  | testWait a k p ha hn | stillPaused a p ha hc hn | allPaused a k p ha hc hn
  | notAllPaused a k p ha hc hn | allDone a p ha hc hn | notAllDone a p ha hc hn
  | eachWaits a c ha ho hn | eachResumed a c ha ho hn | eachStillPaused a c ha ho hn
  | takePause a p rest hpipe ha harm | takeEach a c rest hpipe ha harm | event a ha
  | finish a ha hio =>
    exact hrest.kept_of_books hm' ⟨rfl, rfl, rfl, rfl, rfl, rfl, rfl⟩ rfl
      (by simp [ha, Pc.pausedFor]) (by simp [ha, Pc.rests]) (by simp [ha, Pc.resting])

theorem atRest_init : AtRest io (pauseMachine io).init := by
  have hpc : ∀ a, (pauseMachine io).init.pc a = .top ∨ (pauseMachine io).init.pc a = .user := by
    intro a
    simp only [pauseMachine]
    split <;> simp
  have hcharge : ∀ a, (pauseMachine io).init.charge a = 0 := by
    intro a
    rw [charge]
    obtain h | h := hpc a <;> rw [h] <;> rfl
  refine ⟨orderly_init, ⟨?_, ?_, ?_⟩, ?_, ⟨?_, ?_, ?_, ?_, ?_⟩, ?_⟩
  · intro a
    obtain h | h := hpc a <;> rw [h] <;> rfl
  · intro a ha
    obtain h | h := hpc a <;> rw [h] at ha <;> exact absurd ha (by simp [Pc.plain])
  · intro a ha
    obtain h | h := hpc a <;> rw [h] at ha <;> exact absurd ha (by simp)
  · intro a p ha
    obtain h | h := hpc a <;> rw [h] at ha <;> exact absurd ha (by simp [Pc.pausedFor])
  · exact fun a => (hcharge a).ge
  · exact (count_eq_zero hcharge).symm
  · exact fun a ha => absurd (hcharge a) ha
  · exact fun a => le_rfl
  · exact fun a _ => rfl
  · constructor
    · exact fun f hf => absurd hf List.not_mem_nil
    · exact List.nodup_nil
    · exact fun _ => List.Perm.refl _
    · intro a todo ha
      obtain h | h := hpc a <;> rw [h] at ha <;> exact absurd ha (by simp [Pc.resting])
    · exact fun f hf => absurd hf List.not_mem_nil
    · exact fun f hf => absurd hf List.not_mem_nil
    · intro a todo ha
      obtain h | h := hpc a <;> rw [h] at ha <;> exact absurd ha (by simp [Pc.resting])
    · exact fun f hf => absurd hf List.not_mem_nil
    · exact fun hne => absurd rfl hne

theorem AtRest.step (h : AtRest io s) (hx : Flushing io s x) (he : s.enabled io x) :
    AtRest io (s.next io x) := by
  have hm := moves_of_enabled he
  obtain ⟨hcharges, hfunctions⟩ := h.rest_step hm hx
  have hphase := h.orderly.phase
  have hp := h.orderly.places
  have hserial := h.spare.serial hphase hx hm
  exact ⟨h.orderly.step hserial he, h.spare.step hphase hp hm hx,
    h.settles.step h.spare hphase hp hm hx, hcharges, hfunctions⟩

theorem atRest_of_reachable (hs : (pauseMachine io).Reachable (Flushing io) s) : AtRest io s :=
  hs.invariant atRest_init fun _ _ h hx he => h.step hx he

/-- What callers of `while_paused2` rely on, in one state of a run. `topped b` is the number of
registrations when the thread `b` last came to the top of its loop, and `f` names the registration
after `f` others. -/
structure AtRestHolds (io : A → Bool) (s : PauseState A) : Prop where
  /-- Only registered functions run. -/
  registered : ∀ f ∈ s.ran, f ∈ s.registered
  /-- No function runs twice. -/
  once : s.ran.Nodup
  /-- Before a function runs, every io thread comes to the top of its loop. -/
  flushed : ∀ f ∈ s.ran, ∀ b, io b = true → f < s.topped b
  /-- When every io thread has come to the top of its loop since the last registration, all
  functions have run, unless a thread is there to run them. -/
  all : (∀ b, io b = true → s.topped b = s.registrations) →
    (∀ a, s.pc a ≠ .atRestLock ∧ ∀ todo, s.pc a ≠ .atRest todo) → ∀ f ∈ s.registered, f ∈ s.ran

/-- In a run without pauses by `while_paused` each function registered by `while_paused2` runs
once, after every io thread has come to the top of its loop. -/
theorem at_rest_holds (hs : (pauseMachine io).Reachable (Flushing io) s) : AtRestHolds io s := by
  obtain ⟨⟨hp, -, -, -⟩, -, -, hcharges, hfunctions⟩ := atRest_of_reachable hs
  -- The functions that ran and the ones that are left make up the registered ones.
  have hsplit : ∃ left, (s.ran ++ left).Perm s.registered := by
    by_cases hrun : ∀ a, (s.pc a).resting = none
    · exact ⟨_, hfunctions.idle hrun⟩
    · push Not at hrun
      obtain ⟨a, ha⟩ := hrun
      obtain ⟨todo, htodo⟩ := Option.ne_none_iff_exists'.mp ha
      exact ⟨todo, hfunctions.running a todo htodo⟩
  obtain ⟨left, hperm⟩ := hsplit
  refine ⟨fun f hf => hperm.subset (List.mem_append_left _ hf), ?_, hfunctions.ran, ?_⟩
  · exact (hperm.nodup_iff.mpr hfunctions.nodup).of_append_left
  · intro htopped hno f hf
    have hrests : ∀ a, (s.pc a).rests = false := by
      intro a
      obtain ⟨hlock, hrun⟩ := hno a
      cases hpc : s.pc a <;> first | rfl | exact absurd hpc hlock | exact absurd hpc (hrun _)
    -- Nobody is charged, since nobody has yet to come to the top.
    have hcharge : ∀ b, s.charge b = 0 := by
      intro b
      by_contra hb
      obtain ⟨hio, hlt⟩ := hcharges.behind b hb
      rw [htopped b hio] at hlt
      exact lt_irrefl _ hlt
    have hempty : s.atRestFunctions = [] := by
      by_contra hne
      obtain hlive | ⟨a, ha⟩ := hfunctions.live hne
      · rw [hcharges.total, count_eq_zero (q := fun z => z) hcharge] at hlive
        exact hlive rfl
      · rw [hrests a] at ha
        exact absurd ha Bool.false_ne_true
    have hidle := hfunctions.idle fun a => Pc.resting_of_not_rests (hrests a)
    rw [hempty, List.append_nil] at hidle
    exact hidle.symm.subset hf

instance (s : PauseState A) (x : PauseAction A) : Decidable (Flushing io s x) :=
  match x with
  | .begin_ .whilePaused a => inferInstanceAs (Decidable (numThreads io = ioWeight (io a)))
  | .beginEach _ => isFalse not_false
  | .begin_ .whilePaused2 _ | .lockCom _ | .write _ | .test _ | .call _ _ | .wake _ | .spurious _
  | .takePause _ | .count _ _ | .top _ | .lockAtRest _ | .runAtRest _ | .endAtRest _ | .event _
  | .finish _ | .takeEach _ | .exec _ _ => isTrue trivial

/-- Two io threads; the function that one of them registers has run. -/
theorem at_rest_holds_pair : ∃ s : PauseState (Fin 2), AtRestHolds (fun _ => true) s ∧
    s.ran = [0] := by
  have h : ∃ s, (pauseMachine fun _ : Fin 2 => true).Reachable (Flushing fun _ => true) s ∧
      decide (s.ran = [0]) = true := by
    apply Machine.reachable_of_replay (l := [.top 0, .event 0, .top 1,
      .begin_ .whilePaused2 0, .lockCom 0, .write 0, .test 0, .takePause 1, .count 1 (some 0),
      .wake 0, .call 0 false, .wake 1, .wake 0, .top 1, .finish 0, .top 0,
      .lockAtRest 0, .runAtRest 0, .endAtRest 0])
    decide +kernel
  obtain ⟨s, hs, hstate⟩ := h
  exact ⟨s, at_rest_holds hs, of_decide_eq_true hstate⟩

/-- Two io threads. The pause of a `while_paused` charges the thread 1, which the total does not
know, so after the next `while_paused2` the countdown reaches zero while the thread 0 is still in
the callback that made the call. -/
theorem at_rest_runs_early : ∃ s : PauseState (Fin 2),
    (pauseMachine fun _ : Fin 2 => true).Reachable Machine.anyStep s ∧
      ¬AtRestHolds (fun _ => true) s := by
  have h : ∃ s, (pauseMachine fun _ : Fin 2 => true).Reachable Machine.anyStep s ∧
      decide (0 ∈ s.ran ∧ s.topped 0 = 0) = true := by
    apply Machine.reachable_of_replay (l := [.top 0, .event 0, .top 1,
      .begin_ .whilePaused 0, .lockCom 0, .write 0, .test 0, .takePause 1, .count 1 (some 0),
      .wake 0, .call 0 false, .wake 1, .top 1,
      .begin_ .whilePaused2 0, .lockCom 0, .write 0, .test 0, .takePause 1, .count 1 (some 0),
      .wake 0, .call 0 false, .wake 1, .top 1, .lockAtRest 1, .runAtRest 1])
    decide +kernel
  obtain ⟨s, hs, hstate⟩ := h
  obtain ⟨hran, htopped⟩ := of_decide_eq_true hstate
  refine ⟨s, hs, fun hholds => ?_⟩
  have hlt := hholds.flushed 0 hran 0 rfl
  rw [htopped] at hlt
  exact absurd hlt (lt_irrefl 0)

/-! ## Nobody dispatches while the functions run -/

/-- Besides, an io thread takes an event only while no at-rest function is waiting. -/
def Quiescing (io : A → Bool) (s : PauseState A) (x : PauseAction A) : Prop :=
  Flushing io s x ∧
    match x with
    | .event _ => s.atRestFunctions = []
    | _ => True

/-- In an event's callback or a fiber. -/
def Pc.dispatches : Pc → Bool
  | user | locked _ _ | writing _ _ _ | pauseWait _ _ _ | calling _ _ | doneWait _ _
  | eachWait _ _ => true
  | _ => false

theorem Pc.dispatches_awake (pc : Pc) : pc.awake.dispatches = pc.dispatches := by
  cases pc <;> rfl

theorem Pc.dispatches_of_leads {pc : Pc} (h : pc.leads = true) : pc.dispatches = true := by
  cases pc <;> first | rfl | exact absurd h Bool.false_ne_true

/-- While functions are waiting, an io thread that is in a callback has yet to come to the top of
its loop. -/
def Calm (io : A → Bool) (s : PauseState A) : Prop :=
  s.atRestFunctions ≠ [] →
    ∀ b, io b = true → (s.pc b).dispatches = true → s.countdown b ≠ 0

/-- A step that leaves no function and brings no thread into a callback. -/
theorem Calm.frame (h : Calm io s) (hp : Places io s) (hm : Moves io s x s')
    (hfunctions : s'.atRestFunctions ≠ [] → s.atRestFunctions ≠ [])
    (hcountdown : ∀ b, (s'.pc b).dispatches = true → s'.countdown b = s.countdown b)
    (hactor : (s'.pc x.actor).dispatches = true → (s.pc x.actor).dispatches = true) :
    Calm io s' := by
  intro hne b hio hb
  rw [hcountdown b hb]
  refine h (hfunctions hne) b hio ?_
  by_cases hbx : b = x.actor
  · exact hbx ▸ hactor (hbx ▸ hb)
  · rwa [role_congr Pc.dispatches_awake (hm.awake_of_ne hp hbx)] at hb

/-- The caller of `while_paused2` is charged, and every other io thread is paused. -/
theorem calm_callWhilePaused2 (h : AtRest io s) {p : ℕ} {throws : Bool}
    (ha : s.pc a = .calling .whilePaused2 p)
    (hm : Moves io s (.call a throws) (s.endWhilePaused2 io a p throws)) :
    Calm io (s.endWhilePaused2 io a p throws) := by
  have hp := h.orderly.places
  obtain ⟨-, hcount, -⟩ := h.orderly.phase.of_calling ha
  have hown : own io .whilePaused2 a = ioWeight (io a) :=
    own_eq _ fun _ => hp.ioOnly a (by rw [ha]; rfl)
  have hcountdown : (s.endWhilePaused2 io a p throws).countdown =
      Function.update s.countdown a (s.countdown a + 1) := by
    simp only [endWhilePaused2]
    split <;> rfl
  intro _ b hio hb
  rw [hcountdown]
  by_cases hba : b = a
  · have hnonneg := h.charges.nonneg a
    rw [charge, ha] at hnonneg
    have hnonneg : 0 ≤ s.countdown a := by simpa [Pc.owed, Pc.pausedFor] using hnonneg
    rw [hba, Function.update_self]
    omega
  · have hpaused := hp.paused_of_eq (by rw [ha]; rfl) (hown ▸ hcount) hba hio
    rw [role_congr Pc.dispatches_awake (hm.awake_of_ne hp hba)] at hb
    cases hpc : s.pc b <;> simp [hpc, Pc.dispatches] at hpaused hb

theorem Calm.step (h : Calm io s) (hrest : AtRest io s) (hm : Moves io s x s')
    (hx : Quiescing io s x) : Calm io s' := by
  have hm' := hm
  have hp := hrest.orderly.places
  have hspare := hrest.spare
  cases hm with
  | event a ha => exact fun hne => absurd hx.2 hne
  | callWhilePaused2 a p throws ha => exact calm_callWhilePaused2 hrest ha hm'
  | endAtRest a ha => exact fun hne => absurd rfl hne
  | resumed a p ha hc hn =>
    have hpc : (s.wakeNext io a).pc a = .top := by
      simp only [wakeNext, ha, if_pos hn]
      split <;> simp [Pc.notifyResume2]
    have hfunctions : (s.wakeNext io a).atRestFunctions = s.atRestFunctions := by
      simp only [wakeNext, ha, if_pos hn]
      split <;> rfl
    have hcountdown : (s.wakeNext io a).countdown =
        Function.update s.countdown a (s.countdown a + 1) := by
      simp only [wakeNext, ha, if_pos hn]
      split <;> rfl
    refine h.frame hp hm' (by rw [hfunctions]; exact id) (fun b hb => ?_) ?_
    · have hba : b ≠ a := by
        rintro rfl
        rw [hpc] at hb
        exact absurd hb Bool.false_ne_true
      rw [hcountdown, Function.update_of_ne hba]
    · rw [PauseAction.actor, hpc]
      exact fun hb => absurd hb Bool.false_ne_true
  | top a ha =>
    have hnot : ((s.topNext a).pc a).dispatches = false := by
      simp only [topNext]
      split
      · simp [Pc.dispatches]
      · split <;> simp [Pc.dispatches]
    obtain ⟨-, -, -, -, -, hfunctions, -⟩ := topNext_books ha
    refine h.frame hp hm' (by rw [hfunctions]; exact id) (fun b hb => ?_) ?_
    · have hba : b ≠ a := by
        rintro rfl
        rw [hnot] at hb
        exact absurd hb Bool.false_ne_true
      simp only [topNext]
      split
      · rfl
      · split <;> exact Function.update_of_ne hba _ _
    · rw [PauseAction.actor, hnot]
      exact fun hb => absurd hb Bool.false_ne_true
  | callWhilePaused a p throws ha =>
    refine h.frame hp hm' ?_ ?_ (by simp [ha, Pc.dispatches])
    · cases throws <;> exact id
    · cases throws <;> exact fun b _ => rfl
  | count a w p ha hc hw =>
    refine h.frame hp hm' ?_ ?_ (by simp [Pc.dispatches])
    · simp only [countPaused]
      split <;> cases w <;> exact id
    · simp only [countPaused]
      split <;> cases w <;> exact fun b _ => rfl
  | spurious a pc ha =>
    refine h.frame hp hm' id (fun b _ => rfl) ?_
    have hself : (s.setPc a pc).pc a = pc := Function.update_self _ _ _
    rw [PauseAction.actor, hself, role_congr Pc.dispatches_awake (Pc.awake_of_spurious ha)]
    exact id
  | beginEach a ha ho => exact hx.1.elim
  | eachReturns a c ha ho hn => exact hspare.not_onEach (a := a) (by rw [ha]; rfl)
  | exec a w c ha ho hw => exact hspare.not_onEach (a := a) (by rw [ha]; rfl)
  | begin_ k a ha ho hio | lockCom a k p ha hc | write a k p n ha hn | testCall a k p ha hn
  | testWait a k p ha hn | allPaused a k p ha hc hn | notAllPaused a k p ha hc hn
  | allDone a p ha hc hn | notAllDone a p ha hc hn | eachWaits a c ha ho hn =>
    exact h.frame hp hm' id (fun b _ => rfl) (by simp [ha, Pc.dispatches])
  | _ => exact h.frame hp hm' id (fun b _ => rfl) (by simp [Pc.dispatches])

theorem calm_of_reachable (hs : (pauseMachine io).Reachable (Quiescing io) s) :
    AtRest io s ∧ Calm io s := by
  refine hs.invariant (P := fun s => AtRest io s ∧ Calm io s)
    ⟨atRest_init, fun hne => absurd rfl hne⟩ ?_
  intro s x h hx he
  exact ⟨h.1.step hx.1 he, h.2.step h.1 (moves_of_enabled he) hx⟩

/-- While an at-rest function runs, every other io thread is in its loop: at the top, in
`epoll_wait`, or on its way to lock `pause_com_mutex_`. -/
def RunsAlone (io : A → Bool) (s : PauseState A) : Prop :=
  ∀ a f todo, s.pc a = .atRest (f :: todo) →
    ∀ b, b ≠ a → io b = true → s.pc b = .top ∨ s.pc b = .epoll ∨ s.pc b = .atRestLock

omit [DecidableEq A] in
/-- If there is an io thread, whoever leads a call is one. -/
theorem Spare.io_of_leads (h : Spare io s) (hp : Places io s) (hb : io b = true)
    (hl : (s.pc a).leads = true) : io a = true := by
  have hplain : (s.pc a).plain = true → io a = true := by
    intro hk
    have hN := h.plain a hk
    have hle := le_count (f := io) ioWeight_nonneg b
    rw [numThreads] at hN
    rw [hN, hb] at hle
    cases hio : io a with
    | true => rfl
    | false =>
      rw [hio] at hle
      exact absurd hle (by decide)
  by_cases hk : (s.pc a).ioOnly = true
  · exact hp.ioOnly a hk
  · have hone := h.noEach a
    cases hpc : s.pc a <;> simp [hpc, Pc.ioOnly] at hl hk hone
    all_goals
      apply hplain
      rw [hpc]
      simp [Pc.plain, hk]

/-- In a run in which no io thread takes an event while at-rest functions are waiting, the
functions run while no other io thread executes a callback. -/
theorem at_rest_runs_alone (hs : (pauseMachine io).Reachable (Quiescing io) s) :
    RunsAlone io s := by
  obtain ⟨⟨⟨hp, hphase, -, -⟩, hspare, -, hcharges, hfunctions⟩, hcalm⟩ := calm_of_reachable hs
  intro a f todo ha b hba hio
  have hne : s.atRestFunctions ≠ [] :=
    (hfunctions.todo a (f :: todo) (by rw [ha]; rfl)).2 (List.cons_ne_nil _ _)
  have hzero := hcharges.charge_eq_zero (hcharges.resting a (by rw [ha]; rfl))
  -- Nobody is charged any more, so no io thread is in a callback.
  have hcountdown : ∀ c, (s.pc c).dispatches = true → s.countdown c = 0 := by
    intro c hc
    have hcharge := hzero c
    rw [charge, Pc.owed_of_not_paused _ ?_, add_zero] at hcharge
    · exact hcharge
    · cases hpc : s.pc c <;> simp [hpc, Pc.dispatches] at hc ⊢
  have hnot : ∀ c, io c = true → (s.pc c).dispatches = false := by
    intro c hc
    by_contra hdis
    have hdis : (s.pc c).dispatches = true := by simpa using hdis
    exact hcalm hne c hc hdis (hcountdown c hdis)
  have hleads : ∀ l, (s.pc l).leads = false := by
    intro l
    by_contra hl
    have hl : (s.pc l).leads = true := by simpa using hl
    have hdis := hnot l (hspare.io_of_leads hp hio hl)
    rw [Pc.dispatches_of_leads hl] at hdis
    exact absurd hdis (by simp)
  have hneutral : (s.pc b).neutral = true := by
    cases hphase with
    | led l hfollows haccount =>
      have hl := hleads l
      rw [leads_of_account haccount] at hl
      exact absurd hl (by simp)
    | quiet hquiet hpipe =>
      refine (hquiet b).resolve_right fun hpaused => ?_
      obtain ⟨l, hl⟩ := hspare.paused b hpaused.1
      have hl' := hleads l
      rw [Pc.leads_of_pauses hl] at hl'
      exact absurd hl' (by simp)
  cases hpc : s.pc b <;> simp [hpc] at hneutral ⊢
  case atRest todo' =>
    have hresting : (s.pc a).resting = some (f :: todo) := by rw [ha]; rfl
    have hresting' : (s.pc b).resting = some todo' := by rw [hpc]; rfl
    exact hba (hp.resting_unique hresting hresting')
  case user =>
    have hdis := hnot b hio
    rw [hpc] at hdis
    exact absurd hdis (by simp [Pc.dispatches])

instance (s : PauseState A) (x : PauseAction A) : Decidable (Quiescing io s x) :=
  @instDecidableAnd _ _ inferInstance <|
    match x with
    | .event _ => inferInstanceAs (Decidable (s.atRestFunctions = []))
    | .begin_ _ _ | .lockCom _ | .write _ | .test _ | .call _ _ | .wake _ | .spurious _
    | .takePause _ | .count _ _ | .top _ | .lockAtRest _ | .runAtRest _ | .endAtRest _
    | .finish _ | .beginEach _ | .takeEach _ | .exec _ _ => isTrue trivial

/-- Two io threads; the thread 0 runs the function while the thread 1 is in `epoll_wait`. -/
theorem at_rest_runs_alone_pair : ∃ s : PauseState (Fin 2), RunsAlone (fun _ => true) s ∧
    s.pc 0 = .atRest [0] ∧ s.pc 1 = .epoll := by
  have h : ∃ s, (pauseMachine fun _ : Fin 2 => true).Reachable (Quiescing fun _ => true) s ∧
      decide (s.pc 0 = .atRest [0] ∧ s.pc 1 = .epoll) = true := by
    apply Machine.reachable_of_replay (l := [.top 0, .event 0, .top 1,
      .begin_ .whilePaused2 0, .lockCom 0, .write 0, .test 0, .takePause 1, .count 1 (some 0),
      .wake 0, .call 0 false, .wake 1, .wake 0, .top 1, .finish 0, .top 0, .lockAtRest 0])
    decide +kernel
  obtain ⟨s, hs, hstate⟩ := h
  exact ⟨s, at_rest_runs_alone hs, of_decide_eq_true hstate⟩

/-- Two io threads. The thread 0 has come to the top of its loop and takes an event; then the
thread 1 comes to the top, finds the countdown at zero and runs the function. -/
theorem at_rest_runs_beside_callback : ∃ s : PauseState (Fin 2),
    (pauseMachine fun _ : Fin 2 => true).Reachable (Flushing fun _ => true) s ∧
      ¬RunsAlone (fun _ => true) s := by
  have h : ∃ s, (pauseMachine fun _ : Fin 2 => true).Reachable (Flushing fun _ => true) s ∧
      decide (s.pc 1 = .atRest [0] ∧ s.pc 0 = .user) = true := by
    apply Machine.reachable_of_replay (l := [.top 0, .event 0, .top 1,
      .begin_ .whilePaused2 0, .lockCom 0, .write 0, .test 0, .takePause 1, .count 1 (some 0),
      .wake 0, .call 0 false, .wake 1, .wake 0, .finish 0, .top 0, .event 0,
      .top 1, .lockAtRest 1])
    decide +kernel
  obtain ⟨s, hs, hstate⟩ := h
  obtain ⟨h1, h0⟩ := of_decide_eq_true hstate
  refine ⟨s, hs, fun halone => ?_⟩
  have hplace := halone 1 0 [] h1 0 (by decide) rfl
  rw [h0] at hplace
  exact absurd hplace (by decide)

end Anon.IoDispatch
