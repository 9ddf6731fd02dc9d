import Anon.IoDispatch.PauseTheorems

/-!
# The handshake of a pause

Calls that come one after the other keep the io threads, the counters and the control pipe in
step. `Serial` is the condition on one step for that, and `Phase` the invariant: at most one
thread leads a call, the io threads follow it, and the counters add up to `num_threads_`.

* `Pc.follows`: where the other threads can be while a thread leads a call.
* `Account`: what the counters and the pipe hold then.
* `Phase.step`: what a single step does to it.
-/

namespace Anon.IoDispatch

open PauseState

variable {A : Type} [Fintype A] [DecidableEq A] {io : A → Bool} {s s' : PauseState A}
  {x : PauseAction A} {a b : A}

/-! ## Leaders and followers -/

namespace Pc

/-- Outside of any call and command. -/
@[simp] def neutral : Pc → Bool
  | top | atRestLock | atRest _ | epoll | user => true
  | _ => false

/-- An io thread that waits to be resumed. -/
@[simp] def paused : Pc → Bool
  | resumeWait _ _ | eachResumeWait _ _ => true
  | _ => false

/-- Anywhere in `on_each` or its command. -/
@[simp] def onEach : Pc → Bool
  | eachWait _ _ | eachCmd _ | eachResumeWait _ _ => true
  | _ => false

/-- In a call, or in the command of an `on_each` that nobody waits for any more. -/
@[simp] def leads : Pc → Bool
  | locked _ _ | writing _ _ _ | pauseWait _ _ _ | calling _ _ | doneWait _ _
  | eachWait _ _ => true
  | _ => false

/-- Where another thread can be while a thread is at `leader`; nowhere if that place is not in
a call. -/
@[simp] def follows (leader : Pc) : Pc → Prop
  | top | atRestLock | atRest _ | epoll | user => leader.leads = true
  | pauseCmd p => 
    match leader with
    | writing _ q _ | pauseWait _ q _ | calling _ q => q = p
    | _ => False
  | resumeWait p _ =>
    match leader with
    | locked _ _ | doneWait _ _ => True
    | writing _ q _ | pauseWait _ q _ | calling _ q => q = p
    | _ => False
  | eachCmd c | eachResumeWait c _ =>
    match leader with
    | eachWait d _ => d = c
    | _ => False
  | _ => False

/-- One for an io thread that waits to be resumed. -/
def pausedWeight (pc : Pc) : ℤ := if pc.paused then 1 else 0

theorem pausedWeight_nonneg (pc : Pc) : 0 ≤ pc.pausedWeight := by
  unfold pausedWeight
  split <;> omega

theorem paused_awake (pc : Pc) : pc.awake.paused = pc.paused := by
  cases pc <;> rfl

theorem onEach_awake (pc : Pc) : pc.awake.onEach = pc.onEach := by
  cases pc <;> rfl

theorem neutral_awake (pc : Pc) : pc.awake.neutral = pc.neutral := by
  cases pc <;> rfl

theorem leads_awake (pc : Pc) : pc.awake.leads = pc.leads := by
  cases pc <;> rfl

theorem follows_awake (leader pc : Pc) : leader.awake.follows pc.awake ↔ leader.follows pc := by
  cases pc <;> cases leader <;> rfl

/-- Followers do not lead. -/
theorem leads_of_follows {leader pc : Pc} (h : leader.follows pc) : pc.leads = false := by
  cases pc <;> first | rfl | exact h.elim

/-- A thread outside of calls and commands is in nobody's way. -/
theorem follows_of_neutral {leader pc : Pc} (hl : leader.leads = true) (h : pc.neutral = true) :
    leader.follows pc := by
  cases pc <;> first | exact hl | exact absurd h Bool.false_ne_true

@[simp] theorem readerWeight_of_neutral {pc : Pc} (h : pc.neutral = true) :
    pc.readerWeight = 0 := by
  cases pc <;> first | rfl | exact absurd h Bool.false_ne_true

@[simp] theorem pausedWeight_of_neutral {pc : Pc} (h : pc.neutral = true) :
    pc.pausedWeight = 0 := by
  cases pc <;> first | rfl | exact absurd h Bool.false_ne_true

end Pc

/-! ## The phase of a call -/

/-- The account of the pause `p` of the thread `a`, with `n` commands left to write: the threads
that are paused for it, the threads that have read its command, the commands in the pipe and the
ones to write are together the io threads that `a` has to pause. -/
structure Pausing (io : A → Bool) (s : PauseState A) (k : PauseKind) (a : A) (p n : ℕ) :
    Prop where
  counted : s.numPaused = own io k a + count Pc.pausedWeight s.pc
  commands : ∃ m : ℕ, s.pipe = List.replicate m (.pause p) ∧
    (m : ℤ) + count Pc.readerWeight s.pc + count Pc.pausedWeight s.pc + n =
      numThreads io - own io k a

/-- The account of the `on_each` call `c` of the thread `a`: there is one command until all io
threads are counted. -/
structure Eaching (io : A → Bool) (s : PauseState A) (a : A) (c : ℕ) : Prop where
  counted : s.numPaused = ioWeight (io a) + count Pc.pausedWeight s.pc
  commands : ∃ m : ℕ, s.pipe = List.replicate m (.onEach c) ∧
    (m : ℤ) + count Pc.readerWeight s.pc + (if s.numPaused = numThreads io then 1 else 0) = 1

/-- The counters and the pipe while the thread `a` leads a call. -/
def Account (io : A → Bool) (s : PauseState A) (a : A) : Pc → Prop
  | .locked _ _ => s.pipe = [] ∧ ∀ b, (s.pc b).paused = true → s.numPaused = 0
  | .writing k p n => Pausing io s k a p n
  | .pauseWait k p _ => Pausing io s k a p 0
  | .calling k p => Pausing io s k a p 0 ∧ s.numPaused = numThreads io
  | .doneWait _ _ => s.pipe = [] ∧ s.numPaused = 0 ∧
    s.numPauseDone + count Pc.pausedWeight s.pc = numThreads io
  | .eachWait c _ => Eaching io s a c
  | _ => False

/-- At most one thread leads a call, and the others follow it. Without a leader the threads that
are still in a resume wait find that they have been resumed. -/
inductive Phase (io : A → Bool) (s : PauseState A) : Prop
  | quiet (hquiet : ∀ b, (s.pc b).neutral = true ∨ (s.pc b).paused = true ∧ s.numPaused = 0)
      (hpipe : s.pipe = [])
  | led (a : A) (hfollows : ∀ b, b ≠ a → (s.pc a).follows (s.pc b))
      (haccount : Account io s a (s.pc a))

omit [DecidableEq A] in
theorem leads_of_account {pc : Pc} (h : Account io s a pc) : pc.leads = true := by
  cases pc <;> first | rfl | exact h.elim

omit [DecidableEq A] in
/-- What holds of a thread that leads. -/
theorem Phase.of_leads (h : Phase io s) (ha : (s.pc a).leads = true) :
    (∀ b, b ≠ a → (s.pc a).follows (s.pc b)) ∧ Account io s a (s.pc a) := by
  cases h with
  | quiet hquiet hpipe =>
    have := hquiet a
    cases hpc : s.pc a <;> simp [hpc] at this ha
  | led l hfollows haccount =>
    by_cases hal : a = l
    · subst hal
      exact ⟨hfollows, haccount⟩
    · rw [Pc.leads_of_follows (hfollows a hal)] at ha
      exact absurd ha Bool.false_ne_true

omit [DecidableEq A] in
/-- There is at most one leader. -/
theorem Phase.leads_unique (h : Phase io s) (ha : (s.pc a).leads = true)
    (hb : (s.pc b).leads = true) : b = a := by
  by_contra hne
  rw [Pc.leads_of_follows ((h.of_leads ha).1 b hne)] at hb
  exact absurd hb Bool.false_ne_true

/-! ## Moves that are no part of a call -/

/-- Up to sleep the thread has not moved, or it has moved outside of calls and commands. -/
def Aside (pc pc' : Pc) : Prop :=
  pc'.awake = pc.awake ∨ pc.neutral = true ∧ pc'.neutral = true

theorem Aside.paused {pc pc' : Pc} (h : Aside pc pc') : pc'.paused = pc.paused := by
  obtain h | ⟨hpc, hpc'⟩ := h
  · exact role_congr Pc.paused_awake h
  · cases pc <;> cases pc' <;> simp at hpc hpc' ⊢

theorem Aside.pausedWeight {pc pc' : Pc} (h : Aside pc pc') :
    pc'.pausedWeight = pc.pausedWeight := by
  rw [Pc.pausedWeight, h.paused, Pc.pausedWeight]

theorem Aside.readerWeight {pc pc' : Pc} (h : Aside pc pc') :
    pc'.readerWeight = pc.readerWeight := by
  obtain h | ⟨hpc, hpc'⟩ := h
  · exact role_congr Pc.readerWeight_awake h
  · rw [Pc.readerWeight_of_neutral hpc, Pc.readerWeight_of_neutral hpc']

theorem Aside.neutral {pc pc' : Pc} (h : Aside pc pc') : pc'.neutral = pc.neutral := by
  obtain h | ⟨hpc, hpc'⟩ := h
  · exact role_congr Pc.neutral_awake h
  · rw [hpc, hpc']

/-- A leader has not moved. -/
theorem Aside.awake_of_leads {pc pc' : Pc} (h : Aside pc pc') (hl : pc.leads = true) :
    pc'.awake = pc.awake := by
  obtain h | ⟨hpc, -⟩ := h
  · exact h
  · cases pc <;> simp at hl hpc

theorem Aside.follows {leader leader' pc pc' : Pc} (hl : leader'.awake = leader.awake)
    (h : Aside pc pc') (hf : leader.follows pc) (hlead : leader.leads = true) :
    leader'.follows pc' := by
  obtain h | ⟨-, hpc'⟩ := h
  · rw [← Pc.follows_awake] at hf ⊢
    rwa [hl, h]
  · refine Pc.follows_of_neutral ?_ hpc'
    rw [role_congr Pc.leads_awake hl, hlead]

omit [DecidableEq A] in
theorem account_awake (pc : Pc) : Account io s a pc.awake ↔ Account io s a pc := by
  cases pc <;> rfl

omit [DecidableEq A] in
/-- An account depends on the counters, the pipe and how many threads have read a command or are
paused. -/
theorem Account.congr {pc : Pc} (h : Account io s a pc) (hn : s'.numPaused = s.numPaused)
    (hd : s'.numPauseDone = s.numPauseDone) (hp : s'.pipe = s.pipe)
    (hpc : ∀ b, Aside (s.pc b) (s'.pc b)) : Account io s' a pc := by
  have hr : count Pc.readerWeight s'.pc = count Pc.readerWeight s.pc :=
    count_congr fun b => (hpc b).readerWeight
  have hw : count Pc.pausedWeight s'.pc = count Pc.pausedWeight s.pc :=
    count_congr fun b => (hpc b).pausedWeight
  have hpausing : ∀ k p n, Pausing io s k a p n → Pausing io s' k a p n := by
    intro k p n h
    refine ⟨by rw [hn, hw, h.counted], ?_⟩
    rw [hp, hr, hw]
    exact h.commands
  cases pc with
  | locked k p =>
    refine ⟨hp.trans h.1, fun b hb => ?_⟩
    rw [hn]
    exact h.2 b (by rwa [← (hpc b).paused])
  | writing k p n => exact hpausing k p n h
  | pauseWait k p asleep => exact hpausing k p 0 h
  | calling k p => exact ⟨hpausing k p 0 h.1, hn.trans h.2⟩
  | doneWait p asleep => exact ⟨hp.trans h.1, hn.trans h.2.1, by rw [hd, hw, h.2.2]⟩
  | eachWait c asleep =>
    refine ⟨by rw [hn, hw, h.counted], ?_⟩
    rw [hp, hr, hn]
    exact h.commands
  | _ => exact h.elim

omit [DecidableEq A] in
/-- What is no part of a call does not change its phase. -/
theorem Phase.frame (h : Phase io s) (hn : s'.numPaused = s.numPaused)
    (hd : s'.numPauseDone = s.numPauseDone) (hp : s'.pipe = s.pipe)
    (hpc : ∀ b, Aside (s.pc b) (s'.pc b)) : Phase io s' := by
  cases h with
  | quiet hquiet hpipe =>
    refine .quiet (fun b => ?_) (hp.trans hpipe)
    rw [(hpc b).neutral, (hpc b).paused, hn]
    exact hquiet b
  | led a hfollows haccount =>
    have hlead := leads_of_account haccount
    have hawake := (hpc a).awake_of_leads hlead
    refine .led a (fun b hb => (hpc b).follows hawake (hfollows b hb) hlead) ?_
    rw [← account_awake, hawake, account_awake]
    exact haccount.congr hn hd hp hpc

omit [Fintype A] in
/-- One thread moves aside. -/
theorem aside_update {pc : Pc} (h : Aside (s.pc a) pc) (b : A) :
    Aside (s.pc b) (Function.update s.pc a pc b) :=
  forall_update (R := fun b pc => Aside (s.pc b) pc) (fun _ => .inl rfl) h b

/-! ## The moves of a call -/

/-- The calls come one after the other. `pause_outer_mutex_` is taken only while no thread is in
an `on_each` or its command, and `num_paused_threads_` is set only while no io thread waits to be
resumed; a function given to `while_paused` throws only when no io thread is paused. -/
def Serial (s : PauseState A) : PauseAction A → Prop
  | .begin_ _ _ => ∀ b, (s.pc b).onEach = false
  | .lockCom _ => ∀ b, (s.pc b).paused = false
  | .beginEach _ => ∀ b, (s.pc b).onEach = false ∧ (s.pc b).paused = false
  | .call a true =>
    match s.pc a with
    | .calling .whilePaused _ => ∀ b, (s.pc b).paused = false
    | _ => True
  | _ => True

omit [DecidableEq A] in
theorem ioWeight_nonneg (b : Bool) : 0 ≤ ioWeight b := by
  cases b <;> decide

omit [DecidableEq A] in
/-- A pause does not wait for more threads than there are. -/
theorem own_le (k : PauseKind) (hk : k.fromIo = true → io a = true) :
    own io k a ≤ numThreads io := by
  have hle : ioWeight (io a) ≤ numThreads io := le_count (f := io) ioWeight_nonneg a
  cases k with
  | whilePaused => exact hle
  | whilePaused2 =>
    rw [hk rfl] at hle
    exact hle

omit [Fintype A] [DecidableEq A] in
theorem own_nonneg (k : PauseKind) : 0 ≤ own io k a := by
  cases k with
  | whilePaused => exact ioWeight_nonneg _
  | whilePaused2 => exact Int.one_nonneg

/-- The thread `a` moves on as the leader of a call. -/
theorem phase_of_update {pc : Pc} (hpc : s'.pc = Function.update s.pc a pc)
    (hf : ∀ b, b ≠ a → pc.follows (s.pc b)) (hacc : Account io s' a pc) : Phase io s' := by
  refine .led a (fun b hb => ?_) ?_
  · rw [hpc, Function.update_self, Function.update_of_ne hb]
    exact hf b hb
  · rw [hpc, Function.update_self]
    exact hacc

/-- A follower moves to where it still follows. -/
theorem phase_of_follower {l : A} {pc : Pc} (hal : a ≠ l)
    (hpc : s'.pc = Function.update s.pc a pc)
    (hfollows : ∀ b, b ≠ l → (s.pc l).follows (s.pc b)) (hf : (s.pc l).follows pc)
    (hacc : Account io s' l (s.pc l)) : Phase io s' := by
  have hl : s'.pc l = s.pc l := by rw [hpc, Function.update_of_ne hal.symm]
  refine .led l (fun b hb => ?_) (by rwa [hl])
  rw [hl, hpc]
  exact forall_update (R := fun b (pc : Pc) => b ≠ l → (s.pc l).follows pc) hfollows
    (fun _ => hf) b hb

/-- The leader leaves its call. -/
theorem quiet_of_update {pc : Pc} (hpc : s'.pc = Function.update s.pc a pc)
    (hneutral : pc.neutral = true)
    (hquiet : ∀ b, b ≠ a → (s.pc b).neutral = true ∨ (s.pc b).paused = true ∧ s'.numPaused = 0)
    (hpipe : s'.pipe = []) : Phase io s' := by
  refine .quiet (fun b => ?_) hpipe
  by_cases hb : b = a
  · rw [hpc, hb, Function.update_self]
    exact .inl hneutral
  · rw [hpc, Function.update_of_ne hb]
    exact hquiet b hb

omit [DecidableEq A] in
/-- Nobody leads a call while `pause_outer_mutex_` is free and nobody is in an `on_each`. -/
theorem Phase.quiet_of_free (h : Phase io s) (hp : Places io s) (ho : s.outer = none)
    (hno : ∀ b, (s.pc b).onEach = false) :
    (∀ b, (s.pc b).neutral = true ∨ (s.pc b).paused = true ∧ s.numPaused = 0) ∧ s.pipe = [] := by
  cases h with
  | quiet hquiet hpipe => exact ⟨hquiet, hpipe⟩
  | led l hfollows haccount =>
    have houter := (ho ▸ hp.outer).of_none l
    have hone := hno l
    cases hpc : s.pc l <;> simp [hpc, Pc.holdsOuter] at houter hone
    all_goals
      rw [hpc] at haccount
      exact haccount.elim

theorem Phase.begin_ (h : Phase io s) (hp : Places io s) {k : PauseKind} (ho : s.outer = none)
    (hno : ∀ b, (s.pc b).onEach = false) :
    Phase io ({ s with outer := some a, calls := s.calls + 1 }.setPc a (.locked k s.calls)) := by
  obtain ⟨hquiet, hpipe⟩ := h.quiet_of_free hp ho hno
  refine phase_of_update rfl (fun b hb => ?_) ⟨hpipe, fun b hb => ?_⟩
  · show (Pc.locked k s.calls).follows (s.pc b)
    have hone := hno b
    have hq := hquiet b
    cases hpc : s.pc b <;> simp [hpc] at hone hq ⊢
  · have hq : ∀ b, (s.pc b).paused = true → s.numPaused = 0 := by
      intro b hb
      obtain hq | hq := hquiet b
      · cases hpc : s.pc b <;> simp [hpc] at hb hq
      · exact hq.2
    revert hb
    show ((Function.update s.pc a (.locked k s.calls)) b).paused = true → s.numPaused = 0
    exact forall_update (R := fun _ (pc : Pc) => pc.paused = true → s.numPaused = 0) hq
      (fun hlocked => absurd hlocked (by simp)) b

theorem Phase.lockCom (h : Phase io s) (hp : Places io s) {k : PauseKind} {p : ℕ}
    (ha : s.pc a = .locked k p) (hno : ∀ b, (s.pc b).paused = false) :
    Phase io ({ s with com := some a, numPaused := own io k a }.setPc a
      (.writing k p (numThreads io - own io k a).toNat)) := by
  obtain ⟨hfollows, haccount⟩ := h.of_leads (a := a) (by rw [ha]; rfl)
  rw [ha] at hfollows haccount
  have hneutral : ∀ b, b ≠ a → (s.pc b).neutral = true := by
    intro b hb
    have hf := hfollows b hb
    have hnb := hno b
    cases hpc : s.pc b <;> simp [hpc] at hf hnb ⊢
  have hreaders : count Pc.readerWeight s.pc = 0 := by
    refine count_eq_zero fun b => ?_
    by_cases hb : b = a
    · rw [hb, ha]
      rfl
    · exact Pc.readerWeight_of_neutral (hneutral b hb)
  have hpaused : count Pc.pausedWeight s.pc = 0 := by
    refine count_eq_zero fun b => ?_
    rw [Pc.pausedWeight, hno b]
    rfl
  have hle : own io k a ≤ numThreads io := by
    refine own_le k fun hk => hp.ioOnly a ?_
    rw [ha]
    exact hk
  refine phase_of_update rfl (fun b hb => Pc.follows_of_neutral rfl (hneutral b hb)) ⟨?_, 0, ?_, ?_⟩
  · simp [hpaused, ha, Pc.pausedWeight]
  · exact haccount.1
  · simp [hreaders, hpaused, ha, Pc.pausedWeight, Pc.readerWeight]
    omega

theorem Phase.write (h : Phase io s) {k : PauseKind} {p n : ℕ} (ha : s.pc a = .writing k p n)
    (hn : n ≠ 0) : Phase io
      ({ s with pipe := s.pipe ++ [Command.pause p] }.setPc a (.writing k p (n - 1))) := by
  obtain ⟨hfollows, haccount⟩ := h.of_leads (a := a) (by rw [ha]; rfl)
  rw [ha] at hfollows haccount
  obtain ⟨hcounted, m, hpipe, hm⟩ := haccount
  refine phase_of_update rfl (fun b hb => hfollows b hb) ⟨?_, m + 1, ?_, ?_⟩
  · simp [hcounted, ha, Pc.pausedWeight]
  · show s.pipe ++ [Command.pause p] = _
    rw [hpipe, List.replicate_succ']
  · simp [ha, Pc.pausedWeight, Pc.readerWeight]
    omega

/-- Between two places of a leader of a pause the account of its threads is the same. -/
theorem Pausing.update {k : PauseKind} {p n : ℕ} {pc : Pc}
    (h : Pausing io s k a p n) (hn : s'.numPaused = s.numPaused) (hp : s'.pipe = s.pipe)
    (hpc : s'.pc = Function.update s.pc a pc)
    (hr : pc.readerWeight = (s.pc a).readerWeight)
    (hw : pc.pausedWeight = (s.pc a).pausedWeight) : Pausing io s' k a p n := by
  obtain ⟨hcounted, m, hpipe, hm⟩ := h
  refine ⟨?_, m, hp.trans hpipe, ?_⟩
  · rw [hn, hpc, count_update, hw, hcounted]
    omega
  · rw [hpc, count_update, count_update, hr, hw]
    omega

theorem Phase.testCall (h : Phase io s) {k : PauseKind} {p : ℕ} (ha : s.pc a = .writing k p 0)
    (hn : s.numPaused = numThreads io) : Phase io (s.setPc a (.calling k p)) := by
  obtain ⟨hfollows, haccount⟩ := h.of_leads (a := a) (by rw [ha]; rfl)
  rw [ha] at hfollows haccount
  refine phase_of_update rfl (fun b hb => hfollows b hb) ⟨?_, hn⟩
  exact Pausing.update haccount rfl rfl rfl (by rw [ha]; rfl) (by rw [ha]; rfl)

theorem Phase.testWait (h : Phase io s) {k : PauseKind} {p : ℕ}
    (ha : s.pc a = .writing k p 0) :
    Phase io ({ s with com := none }.setPc a (.pauseWait k p true)) := by
  obtain ⟨hfollows, haccount⟩ := h.of_leads (a := a) (by rw [ha]; rfl)
  rw [ha] at hfollows haccount
  refine phase_of_update rfl (fun b hb => hfollows b hb) ?_
  exact Pausing.update haccount rfl rfl rfl (by rw [ha]; rfl) (by rw [ha]; rfl)

theorem Phase.allPaused (h : Phase io s) {k : PauseKind} {p : ℕ}
    (ha : s.pc a = .pauseWait k p false) (hn : s.numPaused = numThreads io) :
    Phase io ({ s with com := some a }.setPc a (.calling k p)) := by
  obtain ⟨hfollows, haccount⟩ := h.of_leads (a := a) (by rw [ha]; rfl)
  rw [ha] at hfollows haccount
  refine phase_of_update rfl (fun b hb => hfollows b hb) ⟨?_, hn⟩
  exact Pausing.update haccount rfl rfl rfl (by rw [ha]; rfl) (by rw [ha]; rfl)

omit [DecidableEq A] in
/-- Once all io threads are counted, no command is left, and each thread is outside or paused. -/
theorem Phase.of_calling (h : Phase io s) {k : PauseKind} {p : ℕ} (ha : s.pc a = .calling k p) :
    s.pipe = [] ∧ own io k a + count Pc.pausedWeight s.pc = numThreads io ∧
      ∀ b, b ≠ a → (s.pc b).neutral = true ∨ ∃ asleep, s.pc b = .resumeWait p asleep := by
  obtain ⟨hfollows, haccount⟩ := h.of_leads (a := a) (by rw [ha]; rfl)
  rw [ha] at hfollows haccount
  obtain ⟨⟨hcounted, m, hpipe, hm⟩, hn⟩ := haccount
  have hreaders : 0 ≤ count Pc.readerWeight s.pc := count_nonneg Pc.readerWeight_nonneg
  have hzero : count Pc.readerWeight s.pc = 0 := by omega
  have hm0 : m = 0 := by omega
  refine ⟨by rw [hpipe, hm0]; rfl, by omega, fun b hb => ?_⟩
  have hf := hfollows b hb
  have hr := eq_zero_of_count_eq_zero Pc.readerWeight_nonneg hzero b
  cases hpc : s.pc b <;> simp [hpc, Pc.readerWeight] at hf hr ⊢
  exact hf.symm

omit [Fintype A] in
/-- Notified threads have not moved. -/
theorem aside_notifyResume {g : A → Pc} (hg : ∀ b, g b = Pc.notifyResume (s.pc b)) (pc : Pc)
    (b : A) : Aside (Function.update s.pc a pc b) (Function.update g a pc b) := by
  refine .inl (awake_update_congr (fun b => ?_) a pc b)
  rw [hg, Pc.awake_notifyResume]

theorem Phase.callWhilePaused (h : Phase io s) {p : ℕ} {throws : Bool}
    (ha : s.pc a = .calling .whilePaused p)
    (hno : throws = true → ∀ b, (s.pc b).paused = false) :
    Phase io (s.endWhilePaused a p throws) := by
  obtain ⟨hpipe, -, hothers⟩ := h.of_calling ha
  cases throws with
  | true =>
    refine quiet_of_update (s := s) (a := a) rfl rfl (fun b hb => ?_) hpipe
    have hnb := hno rfl b
    obtain hb | ⟨asleep, hb⟩ := hothers b hb
    · exact .inl hb
    · rw [hb] at hnb
      exact absurd hnb (by simp)
  | false =>
    have hquiet : Phase io ({ s with numPaused := 0 }.setPc a .user) := by
      refine quiet_of_update (s := s) (a := a) rfl rfl (fun b hb => ?_) hpipe
      obtain hb | ⟨asleep, hb⟩ := hothers b hb
      · exact .inl hb
      · exact .inr ⟨by rw [hb]; rfl, rfl⟩
    exact hquiet.frame rfl rfl rfl (aside_notifyResume (fun _ => rfl) _)

theorem Phase.callWhilePaused2 (h : Phase io s) {p : ℕ} {throws : Bool}
    (ha : s.pc a = .calling .whilePaused2 p) : Phase io (s.endWhilePaused2 io a p throws) := by
  obtain ⟨hpipe, hcount, hothers⟩ := h.of_calling ha
  simp only [endWhilePaused2]
  split
  · have hquiet : Phase io ({ s with numPaused := 0, numPauseDone := 1 }.setPc a .user) := by
      refine quiet_of_update (s := s) (a := a) rfl rfl (fun b hb => ?_) hpipe
      obtain hb | ⟨asleep, hb⟩ := hothers b hb
      · exact .inl hb
      · exact .inr ⟨by rw [hb]; rfl, rfl⟩
    exact hquiet.frame rfl rfl rfl (aside_notifyResume (fun _ => rfl) _)
  · have hled : Phase io
        ({ s with numPaused := 0, numPauseDone := 1 }.setPc a (.doneWait p true)) := by
      refine phase_of_update rfl (fun b hb => ?_) ⟨hpipe, rfl, ?_⟩
      · show (Pc.doneWait p true).follows (s.pc b)
        obtain hb | ⟨asleep, hb⟩ := hothers b hb
        · exact Pc.follows_of_neutral rfl hb
        · rw [hb]
          trivial
      · show 1 + count Pc.pausedWeight (Function.update s.pc a _) = numThreads io
        rw [count_update, ha, ← hcount]
        simp [Pc.pausedWeight, own]
    exact hled.frame rfl rfl rfl (aside_notifyResume (fun _ => rfl) _)

omit [DecidableEq A] in
theorem count_pausedWeight_nonneg : 0 ≤ count Pc.pausedWeight s.pc :=
  count_nonneg Pc.pausedWeight_nonneg

omit [DecidableEq A] in
/-- A paused thread is counted. -/
theorem one_le_count_paused (ha : (s.pc a).paused = true) : 1 ≤ count Pc.pausedWeight s.pc := by
  have hle := le_count (f := s.pc) Pc.pausedWeight_nonneg a
  rwa [Pc.pausedWeight, if_pos ha] at hle

omit [DecidableEq A] in
/-- While a pause counts its threads, a paused one does not find itself resumed. -/
theorem Pausing.numPaused_ne_zero {k : PauseKind} {l : A} {p n : ℕ} (h : Pausing io s k l p n)
    (ha : (s.pc a).paused = true) : s.numPaused ≠ 0 := by
  have hone := one_le_count_paused ha
  have hown : 0 ≤ own io k l := own_nonneg k
  rw [h.counted]
  omega

omit [DecidableEq A] in
/-- A thread that does not lead is not the leader. -/
theorem ne_of_not_leads {l : A} (hacc : Account io s l (s.pc l)) (ha : (s.pc a).leads = false) :
    a ≠ l := by
  intro hal
  rw [hal, leads_of_account hacc] at ha
  exact absurd ha (by simp)

theorem Phase.resumed (h : Phase io s) {p : ℕ} (ha : s.pc a = .resumeWait p false)
    (hn : s.numPaused = 0) : Phase io (s.wakeNext io a) := by
  have hpaused : (s.pc a).paused = true := by rw [ha]; rfl
  have hmove : Phase io ({ s with numPauseDone := s.numPauseDone + 1 }.setPc a .top) := by
    cases h with
    | quiet hquiet hpipe =>
      exact quiet_of_update (s := s) (a := a) rfl rfl (fun b _ => hquiet b) hpipe
    | led l hfollows haccount =>
      have hal := ne_of_not_leads (a := a) haccount (by rw [ha]; rfl)
      have hlead := leads_of_account haccount
      refine phase_of_follower hal rfl hfollows (Pc.follows_of_neutral hlead rfl) ?_
      have hf := hfollows a hal
      cases hpc : s.pc l <;> rw [hpc] at haccount <;> simp [ha, hpc] at hf
      case locked k q => exact ⟨haccount.1, fun _ _ => hn⟩
      case doneWait q asleep =>
        refine ⟨haccount.1, hn, ?_⟩
        show s.numPauseDone + 1 + count Pc.pausedWeight (Function.update s.pc a .top) = _
        rw [count_update, ha, ← haccount.2.2]
        simp only [Pc.pausedWeight, Pc.paused, if_true, Bool.false_eq_true, if_false]
        omega
      -- While a pause counts its threads, a paused one does not find itself resumed.
      case writing k q n => exact absurd hn (Pausing.numPaused_ne_zero haccount hpaused)
      case pauseWait k q asleep => exact absurd hn (Pausing.numPaused_ne_zero haccount hpaused)
      case calling k q => exact absurd hn (Pausing.numPaused_ne_zero haccount.1 hpaused)
  simp only [wakeNext, ha, if_pos hn]
  split
  · exact hmove.frame rfl rfl rfl fun b => .inl (Pc.awake_notifyResume2 _)
  · exact hmove.frame rfl rfl rfl fun b => .inl rfl

theorem Phase.allDone (h : Phase io s) {p : ℕ} (ha : s.pc a = .doneWait p false) :
    Phase io ({ s with outer := none }.return_ a p) := by
  obtain ⟨hfollows, haccount⟩ := h.of_leads (a := a) (by rw [ha]; rfl)
  rw [ha] at hfollows haccount
  refine quiet_of_update (s := s) (a := a) rfl rfl (fun b hb => ?_) haccount.1
  have hf := hfollows b hb
  have hn : s.numPaused = 0 := haccount.2.1
  cases hpc : s.pc b <;> simp [hpc] at hf ⊢
  exact hn

theorem Phase.eachReturns (h : Phase io s) {c : ℕ} (ha : s.pc a = .eachWait c false)
    (hn : s.numPaused = numThreads io) : Phase io (s.endEach io a c) := by
  obtain ⟨hfollows, haccount⟩ := h.of_leads (a := a) (by rw [ha]; rfl)
  rw [ha] at hfollows haccount
  obtain ⟨-, m, hpipe, hm⟩ := haccount
  rw [if_pos hn] at hm
  have hreaders : 0 ≤ count Pc.readerWeight s.pc := count_nonneg Pc.readerWeight_nonneg
  have hzero : count Pc.readerWeight s.pc = 0 := by omega
  have hm0 : m = 0 := by omega
  have hquiet : Phase io ({ s with numPaused := 0 }.setPc a .user) := by
    refine quiet_of_update (s := s) (a := a) rfl rfl (fun b hb => ?_) (by simp [hpipe, hm0])
    have hf := hfollows b hb
    have hr := eq_zero_of_count_eq_zero Pc.readerWeight_nonneg hzero b
    cases hpc : s.pc b <;> simp [hpc, Pc.readerWeight] at hf hr ⊢
  exact hquiet.frame rfl rfl rfl (aside_notifyResume (fun _ => rfl) _)

theorem Phase.eachResumed (h : Phase io s) {c : ℕ} (ha : s.pc a = .eachResumeWait c false)
    (hn : s.numPaused = 0) : Phase io (s.setPc a .top) := by
  have hpaused : (s.pc a).paused = true := by rw [ha]; rfl
  cases h with
  | quiet hquiet hpipe =>
    exact quiet_of_update (s := s) (a := a) rfl rfl (fun b _ => hquiet b) hpipe
  | led l hfollows haccount =>
    have hal := ne_of_not_leads (a := a) haccount (by rw [ha]; rfl)
    have hf := hfollows a hal
    cases hpc : s.pc l <;> rw [hpc] at haccount <;> simp [ha, hpc] at hf
    have hone := one_le_count_paused hpaused
    have hweight := ioWeight_nonneg (io l)
    have hcounted := Eaching.counted haccount
    omega

/-- What a thread that counts paused threads pauses for: the kind and number of its pause and the
commands it has left to write. -/
def Pc.pausing : Pc → Option (PauseKind × ℕ × ℕ)
  | writing k p n => some (k, p, n)
  | pauseWait k p _ | calling k p => some (k, p, 0)
  | _ => none

theorem Pc.follows_pauseCmd {leader : Pc} {p : ℕ} (h : leader.follows (.pauseCmd p)) :
    ∃ k n, leader.pausing = some (k, p, n) := by
  cases leader <;> simp [Pc.pausing] at h ⊢ <;> exact h

theorem Pc.follows_of_pausing {leader : Pc} {k : PauseKind} {p n : ℕ}
    (h : leader.pausing = some (k, p, n)) (asleep : Bool) :
    leader.follows (.pauseCmd p) ∧ leader.follows (.resumeWait p asleep) := by
  cases leader <;> simp [Pc.pausing] at h ⊢
  all_goals exact h.2.1

omit [DecidableEq A] in
theorem Account.pausing {l : A} {pc : Pc} (h : Account io s l pc) {k : PauseKind} {p n : ℕ}
    (hpc : pc.pausing = some (k, p, n)) : Pausing io s k l p n := by
  cases pc <;> simp [Pc.pausing] at hpc
  all_goals obtain ⟨rfl, rfl, rfl⟩ := hpc
  · exact h
  · exact h
  · exact h.1

omit [DecidableEq A] in
theorem Account.of_pausing {l : A} {pc : Pc} (h : Account io s l pc) {k : PauseKind} {p n : ℕ}
    (hpc : pc.pausing = some (k, p, n)) (hn : s'.numPaused = s.numPaused)
    (h' : Pausing io s' k l p n) : Account io s' l pc := by
  cases pc <;> simp [Pc.pausing] at hpc
  all_goals obtain ⟨rfl, rfl, rfl⟩ := hpc
  · exact h'
  · exact h'
  · exact ⟨h', hn.trans h.2⟩

omit [DecidableEq A] in
/-- The commands in the pipe are the ones of the leader. -/
theorem Account.command {l : A} {pc : Pc} (h : Account io s l pc) {d : Command}
    (hd : d ∈ s.pipe) :
    (∃ k p n, pc.pausing = some (k, p, n) ∧ d = .pause p) ∨
      ∃ c asleep, pc = .eachWait c asleep ∧ d = .onEach c := by
  have hpausing : ∀ {k p n}, Pausing io s k l p n → d = .pause p := by
    intro k p n h
    obtain ⟨m, hm, -⟩ := h.commands
    rw [hm] at hd
    exact List.eq_of_mem_replicate hd
  cases pc with
  | locked k p =>
    rw [h.1] at hd
    exact absurd hd (by simp)
  | doneWait p asleep =>
    rw [h.1] at hd
    exact absurd hd (by simp)
  | writing k p n => exact .inl ⟨k, p, n, rfl, hpausing h⟩
  | pauseWait k p asleep => exact .inl ⟨k, p, 0, rfl, hpausing h⟩
  | calling k p => exact .inl ⟨k, p, 0, rfl, hpausing h.1⟩
  | eachWait c asleep =>
    obtain ⟨m, hm, -⟩ := Eaching.commands h
    rw [hm] at hd
    exact .inr ⟨c, asleep, rfl, List.eq_of_mem_replicate hd⟩
  | _ => exact h.elim

theorem Phase.takePause (h : Phase io s) {p : ℕ} {rest : List Command}
    (hp : s.pipe = .pause p :: rest) (ha : s.pc a = .epoll) :
    Phase io ({ s with pipe := rest, armed := false }.setPc a (.pauseCmd p)) := by
  cases h with
  | quiet hquiet hpipe =>
    rw [hpipe] at hp
    exact absurd hp.symm (List.cons_ne_nil _ _)
  | led l hfollows haccount =>
    have hal := ne_of_not_leads (a := a) haccount (by rw [ha]; rfl)
    obtain ⟨k, q, n, hpc, hq⟩ | ⟨c, asleep, -, hc⟩ :=
      haccount.command (d := .pause p) (by simp [hp])
    · obtain rfl : p = q := by simpa using hq
      refine phase_of_follower hal rfl hfollows (Pc.follows_of_pausing hpc false).1 ?_
      refine haccount.of_pausing hpc rfl ?_
      obtain ⟨hcounted, m, hm, hsum⟩ := haccount.pausing hpc
      obtain ⟨m, rfl⟩ : ∃ m', m = m' + 1 := by
        refine Nat.exists_eq_succ_of_ne_zero fun hm0 => ?_
        rw [hm0, hp] at hm
        exact absurd hm (List.cons_ne_nil _ _)
      rw [hp, List.replicate_succ] at hm
      refine ⟨?_, m, (List.cons.inj hm).2, ?_⟩
      · simp [hcounted, ha, Pc.pausedWeight]
      · simp only [setPc, count_update, ha, Pc.pausedWeight, Pc.readerWeight, Pc.paused]
        push_cast at hsum
        simp only [Bool.false_eq_true, if_false]
        omega
    · exact absurd hc (by simp)

omit [DecidableEq A] in
/-- A thread that has read a pause command finds the leader waiting once it can lock
`pause_com_mutex_`. -/
theorem Phase.of_pauseCmd (h : Phase io s) (hp : Places io s) {p : ℕ}
    (ha : s.pc a = .pauseCmd p) (hc : s.com = none) :
    ∃ l k asleep, a ≠ l ∧ s.pc l = .pauseWait k p asleep ∧ Pausing io s k l p 0 ∧
      ∀ b, b ≠ l → (s.pc l).follows (s.pc b) := by
  cases h with
  | quiet hquiet hpipe =>
    have hq := hquiet a
    simp [ha] at hq
  | led l hfollows haccount =>
    have hal := ne_of_not_leads (a := a) haccount (by rw [ha]; rfl)
    have hf := hfollows a hal
    rw [ha] at hf
    obtain ⟨k, n, hpc⟩ := Pc.follows_pauseCmd hf
    have hcom := (hc ▸ hp.com).of_none l
    have hpausing := haccount.pausing hpc
    cases hl : s.pc l <;> simp [hl, Pc.pausing, Pc.holdsCom] at hpc hcom
    obtain ⟨rfl, rfl, rfl⟩ := hpc
    exact ⟨l, _, _, hal, hl, hpausing, hl ▸ hfollows⟩

omit [Fintype A] in
/-- A notification of `pause_cond_` moves nobody. -/
theorem aside_notifyOne (w : Option A) (pc : Pc) (b : A) :
    Aside (Function.update s.pc a pc b) (Function.update (s.notifyOne w).pc a pc b) :=
  .inl (awake_update_congr (fun b => awake_notifyOne w b) a pc b)

theorem Phase.countThread (h : Phase io s) (hp : Places io s) {w : Option A} {p : ℕ}
    (ha : s.pc a = .pauseCmd p) (hc : s.com = none) :
    Phase io (({ s with armed := true }.countPaused io w).setPc a (.resumeWait p true)) := by
  obtain ⟨l, k, asleep, hal, hl, hpausing, hfollows⟩ := h.of_pauseCmd hp ha hc
  have hmove : Phase io
      ({ s with numPaused := s.numPaused + 1 }.setPc a (.resumeWait p true)) := by
    refine phase_of_follower hal rfl hfollows (by rw [hl]; rfl) ?_
    rw [hl]
    obtain ⟨hcounted, m, hm, hsum⟩ := hpausing
    refine ⟨?_, m, hm, ?_⟩
    · simp [hcounted, ha, Pc.pausedWeight]
      omega
    · simp [ha, Pc.pausedWeight, Pc.readerWeight]
      push_cast at hsum
      omega
  simp only [countPaused]
  split
  · cases w with
    | none => exact hmove.frame rfl rfl rfl fun b => .inl rfl
    | some c => exact hmove.frame rfl rfl rfl (aside_notifyOne (some c) _)
  · exact hmove.frame rfl rfl rfl fun b => .inl rfl

omit [DecidableEq A] in
/-- Between calls all threads are outside of calls and commands, if none waits to be resumed. -/
theorem Phase.neutral_of_free (h : Phase io s) (hp : Places io s) (ho : s.outer = none)
    (hno : ∀ b, (s.pc b).onEach = false ∧ (s.pc b).paused = false) :
    (∀ b, (s.pc b).neutral = true) ∧ s.pipe = [] := by
  obtain ⟨hquiet, hpipe⟩ := h.quiet_of_free hp ho fun b => (hno b).1
  refine ⟨fun b => (hquiet b).elim id fun hb => ?_, hpipe⟩
  rw [(hno b).2] at hb
  exact absurd hb.1 Bool.false_ne_true

omit [DecidableEq A] in
/-- Threads outside of calls and commands are not counted anywhere. -/
theorem counts_of_neutral (h : ∀ b, (s.pc b).neutral = true) :
    count Pc.readerWeight s.pc = 0 ∧ count Pc.pausedWeight s.pc = 0 :=
  ⟨count_eq_zero fun b => Pc.readerWeight_of_neutral (h b),
    count_eq_zero fun b => Pc.pausedWeight_of_neutral (h b)⟩

theorem Phase.beginEach (h : Phase io s) (hp : Places io s) (ha : s.pc a = .user)
    (ho : s.outer = none) (hno : ∀ b, (s.pc b).onEach = false ∧ (s.pc b).paused = false) :
    Phase io (s.beginEachNext io a) := by
  obtain ⟨hneutral, hpipe⟩ := h.neutral_of_free hp ho hno
  obtain ⟨hreaders, hpaused⟩ := counts_of_neutral hneutral
  simp only [beginEachNext]
  split
  · next hN =>
    refine phase_of_update rfl (fun b _ => Pc.follows_of_neutral rfl (hneutral b)) ⟨?_, 1, ?_, ?_⟩
    · simp [hpaused, ha, Pc.pausedWeight]
    · simp [hpipe]
    · simp [hreaders, ha, Pc.readerWeight]
      omega
  · have hquiet : Phase io ({ s with numPaused := 0 }.setPc a .user) :=
      quiet_of_update (s := s) (a := a) rfl rfl (fun b _ => .inl (hneutral b)) hpipe
    exact hquiet.frame rfl rfl rfl (aside_notifyResume (fun _ => rfl) _)

theorem Phase.takeEach (h : Phase io s) {c : ℕ} {rest : List Command}
    (hp : s.pipe = .onEach c :: rest) (ha : s.pc a = .epoll) :
    Phase io ({ s with pipe := rest, armed := false }.setPc a (.eachCmd c)) := by
  cases h with
  | quiet hquiet hpipe =>
    rw [hpipe] at hp
    exact absurd hp.symm (List.cons_ne_nil _ _)
  | led l hfollows haccount =>
    have hal := ne_of_not_leads (a := a) haccount (by rw [ha]; rfl)
    obtain ⟨k, q, n, -, hq⟩ | ⟨d, asleep, hl, hd⟩ :=
      haccount.command (d := .onEach c) (by simp [hp])
    · exact absurd hq (by simp)
    · obtain rfl : c = d := by simpa using hd
      refine phase_of_follower hal rfl hfollows (by rw [hl]; rfl) ?_
      rw [hl] at haccount ⊢
      obtain ⟨hcounted, m, hm, hsum⟩ := haccount
      obtain ⟨m, rfl⟩ : ∃ m', m = m' + 1 := by
        refine Nat.exists_eq_succ_of_ne_zero fun hm0 => ?_
        rw [hm0, hp] at hm
        exact absurd hm (List.cons_ne_nil _ _)
      rw [hp, List.replicate_succ] at hm
      refine ⟨?_, m, (List.cons.inj hm).2, ?_⟩
      · simp [hcounted, ha, Pc.pausedWeight]
      · simp only [setPc, count_update, ha, Pc.readerWeight]
        push_cast at hsum
        omega

omit [DecidableEq A] in
/-- What the caller of an `on_each` finds while a thread handles its command. -/
theorem Phase.of_eachCmd (h : Phase io s) {c : ℕ} (ha : s.pc a = .eachCmd c) :
    ∃ l asleep, a ≠ l ∧ s.pc l = .eachWait c asleep ∧
      (∀ b, b ≠ l → (s.pc l).follows (s.pc b)) ∧
      s.numPaused = ioWeight (io l) + count Pc.pausedWeight s.pc ∧ s.pipe = [] ∧
      count Pc.readerWeight s.pc = 1 ∧ s.numPaused ≠ numThreads io := by
  cases h with
  | quiet hquiet hpipe =>
    have hq := hquiet a
    simp [ha] at hq
  | led l hfollows haccount =>
    have hal := ne_of_not_leads (a := a) haccount (by rw [ha]; rfl)
    have hf := hfollows a hal
    have hone := le_count (f := s.pc) Pc.readerWeight_nonneg a
    rw [ha] at hone
    simp only [Pc.readerWeight] at hone
    cases hl : s.pc l <;> rw [hl] at haccount <;> simp [ha, hl] at hf
    obtain ⟨hcounted, m, hm, hsum⟩ := haccount
    subst hf
    have hN : s.numPaused ≠ numThreads io := by
      intro hN
      rw [if_pos hN] at hsum
      omega
    rw [if_neg hN] at hsum
    have hm0 : m = 0 := by omega
    refine ⟨l, _, hal, hl, hl ▸ hfollows, hcounted, by rw [hm, hm0]; rfl, by omega, hN⟩

theorem Phase.exec (h : Phase io s) {w : Option A} {c : ℕ} (ha : s.pc a = .eachCmd c) :
    Phase io (({ s with armed := true, executed := (c, a) :: s.executed }.passOn io c w).setPc a
      (.eachResumeWait c true)) := by
  obtain ⟨l, asleep, hal, hl, hfollows, hcounted, hpipe, hreaders, hN⟩ := h.of_eachCmd ha
  have hmove : ∀ s' : PauseState A, s'.pc = Function.update s.pc a (.eachResumeWait c true) →
      s'.numPaused = s.numPaused + 1 →
      (s.numPaused + 1 = numThreads io → s'.pipe = []) →
      (s.numPaused + 1 ≠ numThreads io → s'.pipe = [.onEach c]) → Phase io s' := by
    intro s' hpc hn hlast hmore
    refine phase_of_follower hal hpc hfollows (by rw [hl]; rfl) ?_
    rw [hl]
    refine ⟨?_, ?_⟩
    · rw [hpc, count_update, ha, hn, hcounted]
      simp [Pc.pausedWeight]
      omega
    · rw [hpc, count_update, ha, hn, hreaders]
      by_cases hlastN : s.numPaused + 1 = numThreads io
      · exact ⟨0, hlast hlastN, by simp [hlastN, Pc.readerWeight]⟩
      · exact ⟨1, hmore hlastN, by simp [hlastN, Pc.readerWeight]⟩
  simp only [passOn]
  split
  · next hlast =>
    have hbase := hmove ({ s with numPaused := s.numPaused + 1 }.setPc a (.eachResumeWait c true))
      rfl rfl (fun _ => hpipe) (fun h => absurd hlast h)
    cases w with
    | none => exact hbase.frame rfl rfl rfl fun b => .inl rfl
    | some d => exact hbase.frame rfl rfl rfl (aside_notifyOne (some d) _)
  · next hmore =>
    exact hmove _ rfl rfl (fun h => absurd h hmore) (fun _ => by simp [hpipe])

omit [Fintype A] in
theorem aside_setPc {pc pc' : Pc} (ha : s.pc a = pc) (h : Aside pc pc') (b : A) :
    Aside (s.pc b) (Function.update s.pc a pc' b) :=
  aside_update (ha ▸ h) b

/-- A call that follows the others keeps the phase. -/
theorem Phase.step (h : Phase io s) (hp : Places io s) (hm : Moves io s x s')
    (hs : Serial s x) : Phase io s' := by
  cases hm with
  | begin_ k a ha ho hio => exact h.begin_ hp ho hs
  | lockCom a k p ha hc => exact h.lockCom hp ha hs
  | write a k p n ha hn => exact h.write ha hn
  | testCall a k p ha hn => exact h.testCall ha hn
  | testWait a k p ha hn => exact h.testWait ha
  | callWhilePaused a p throws ha =>
    refine h.callWhilePaused ha fun hthrows => ?_
    simpa only [hthrows, Serial, ha] using hs
  | callWhilePaused2 a p throws ha => exact h.callWhilePaused2 ha
  | resumed a p ha hc hn => exact h.resumed ha hn
  | allPaused a k p ha hc hn => exact h.allPaused ha hn
  | allDone a p ha hc hn => exact h.allDone ha
  | eachReturns a c ha ho hn => exact h.eachReturns ha hn
  | eachResumed a c ha ho hn => exact h.eachResumed ha hn
  | takePause a p rest hpipe ha harm => exact h.takePause hpipe ha
  | count a w p ha hc hw => exact h.countThread hp ha hc
  | beginEach a ha ho => exact h.beginEach hp ha ho hs
  | takeEach a c rest hpipe ha harm => exact h.takeEach hpipe ha
  | exec a w c ha ho hw => exact h.exec ha
  -- A thread goes back to sleep or stops sleeping.
  | stillPaused a p ha hc hn | notAllPaused a k p ha hc hn | notAllDone a p ha hc hn
  | eachWaits a c ha ho hn | eachStillPaused a c ha ho hn =>
    exact h.frame rfl rfl rfl (aside_setPc ha (.inl rfl))
  | spurious a pc ha => exact h.frame rfl rfl rfl (aside_update (.inl (Pc.awake_of_spurious ha)))
  -- A thread moves outside of calls and commands.
  | top a ha =>
    simp only [topNext]
    split
    · exact h.frame rfl rfl rfl (aside_setPc ha (.inr ⟨rfl, rfl⟩))
    · split <;> exact h.frame rfl rfl rfl (aside_setPc ha (.inr ⟨rfl, rfl⟩))
  | lockAtRest a ha hc | runAtRest a f todo ha | endAtRest a ha | event a ha | finish a ha hio =>
    exact h.frame rfl rfl rfl (aside_setPc ha (.inr ⟨rfl, rfl⟩))

theorem phase_init : Phase io (pauseMachine io).init := by
  refine .quiet (fun b => .inl ?_) rfl
  simp only [pauseMachine]
  split <;> rfl

end Anon.IoDispatch
