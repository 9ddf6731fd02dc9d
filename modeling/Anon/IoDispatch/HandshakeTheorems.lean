import Anon.IoDispatch.Handshake

/-!
# The handshake of a pause is sound

In a run in which the calls come one after the other (`Serial`), the function of a pause is called
while all other io threads wait to be resumed from that pause, and there is always a thread that
can go on. Without that condition `while_paused` can leave every thread waiting for another.

* `Wakeful`: no thread sleeps through what it waits for.
* `Goes`: some thread can go on by itself.
* `Calls`: which functions have been called.
-/

namespace Anon.IoDispatch

open PauseState

variable {A : Type} [Fintype A] [DecidableEq A] {io : A → Bool} {s s' : PauseState A}
  {x : PauseAction A} {a b : A}

/-! ## Wakeups -/

/-- What a sleeping thread waits for has not happened. -/
def MaySleep (io : A → Bool) (s : PauseState A) : Pc → Prop
  | .resumeWait _ true | .eachResumeWait _ true => s.numPaused ≠ 0
  | .pauseWait _ _ true | .eachWait _ true => s.numPaused ≠ numThreads io
  | .doneWait _ true => s.numPauseDone ≠ numThreads io
  | _ => True

/-- No thread sleeps through what it waits for. -/
def Wakeful (io : A → Bool) (s : PauseState A) : Prop := ∀ b, MaySleep io s (s.pc b)

omit [Fintype A] [DecidableEq A] in
theorem maySleep_of_neutral [Fintype A] {pc : Pc} (h : pc.neutral = true) :
    MaySleep io s pc := by
  cases pc <;> trivial

omit [DecidableEq A] in
/-- A notified thread does not sleep in a resume wait. -/
theorem maySleep_notifyResume {pc : Pc} (h : pc.leads = false) :
    MaySleep io s pc.notifyResume := by
  cases pc <;> trivial

/-- A step that leaves the counters alone puts a thread to sleep only where it may. -/
theorem Wakeful.update (h : Wakeful io s) {pc : Pc} (hn : s'.numPaused = s.numPaused)
    (hd : s'.numPauseDone = s.numPauseDone) (hpc : s'.pc = Function.update s.pc a pc)
    (ha : MaySleep io s pc) : Wakeful io s' := by
  intro b
  have hsame : ∀ pc : Pc, MaySleep io s pc → MaySleep io s' pc := by
    intro pc
    unfold MaySleep
    rw [hn, hd]
    exact id
  rw [hpc]
  exact hsame _ (forall_update (R := fun _ (pc : Pc) => MaySleep io s pc) h ha b)

/-- When the leader has notified `resume_cond_`, nobody else sleeps. -/
theorem Phase.wakeful_of_notifyResume (h : Phase io s) {pc : Pc} (hl : (s.pc a).leads = true)
    (hpc : s'.pc = Function.update (fun b => (s.pc b).notifyResume) a pc)
    (ha : MaySleep io s' pc) : Wakeful io s' := by
  intro b
  by_cases hb : b = a
  · rw [hpc, hb, Function.update_self]
    exact ha
  · rw [hpc, Function.update_of_ne hb]
    exact maySleep_notifyResume (Pc.leads_of_follows ((h.of_leads hl).1 b hb))

theorem Pc.sleepsOnPause_notifyPause (pc : Pc) : pc.notifyPause.sleepsOnPause = false := by
  cases pc <;> rfl

theorem Pc.leads_of_sleepsOnPause {pc : Pc} (h : pc.sleepsOnPause = true) : pc.leads = true := by
  cases pc <;> first | rfl | exact absurd h Bool.false_ne_true

/-- `notify_one` on `pause_cond_` reaches the leader. -/
theorem Phase.sleepsOnPause_notifyOne (h : Phase io s) {l : A} (hl : (s.pc l).leads = true)
    {w : Option A} (hw : s.canNotify w) : ((s.notifyOne w).pc l).sleepsOnPause = false := by
  cases w with
  | none => exact hw l
  | some d =>
    have hdl : d = l := h.leads_unique hl (Pc.leads_of_sleepsOnPause hw)
    subst hdl
    show (Function.update s.pc d _ d).sleepsOnPause = false
    rw [Function.update_self, Pc.sleepsOnPause_notifyPause]

omit [DecidableEq A] in
/-- Where a thread may be while threads are counted. -/
theorem maySleep_of_counting {pc : Pc} (hn : s.numPaused ≠ 0)
    (hdone : ∀ p asleep, pc ≠ .doneWait p asleep)
    (hsleep : pc.sleepsOnPause = true → s.numPaused ≠ numThreads io) : MaySleep io s pc := by
  cases pc with
  | resumeWait p asleep => cases asleep <;> trivial
  | eachResumeWait c asleep => cases asleep <;> trivial
  | pauseWait k p asleep => cases asleep <;> first | trivial | exact hsleep rfl
  | eachWait c asleep => cases asleep <;> first | trivial | exact hsleep rfl
  | doneWait p asleep => exact absurd rfl (hdone p asleep)
  | _ => trivial

/-- Counting a thread wakes the leader if it is the last one, and lets the paused ones sleep. -/
theorem Phase.wakeful_of_counted (h : Phase io s) {l : A} {w : Option A} {p : Pc}
    (hl : (s.pc l).leads = true) (hdone : ∀ k asleep, s.pc l ≠ .doneWait k asleep)
    (hw : s.canNotify w) (hpos : 0 ≤ s.numPaused) (hpaused : p.paused = true)
    (hn : s'.numPaused = s.numPaused + 1)
    (hpc : s'.pc = Function.update
      (if s.numPaused + 1 = numThreads io then (s.notifyOne w).pc else s.pc) a p) :
    Wakeful io s' := by
  have hn0 : s'.numPaused ≠ 0 := by omega
  intro b
  rw [hpc]
  revert b
  refine forall_update (R := fun _ (pc : Pc) => MaySleep io s' pc) (fun b => ?_) ?_
  · -- Whether or not the notification has reached it, the thread is where it was.
    obtain ⟨g, hg, hgb⟩ : ∃ g : A → Pc,
        g = (if s.numPaused + 1 = numThreads io then (s.notifyOne w).pc else s.pc) ∧
        (g b).awake = (s.pc b).awake := by
      refine ⟨_, rfl, ?_⟩
      split
      · exact awake_notifyOne w b
      · rfl
    rw [← hg]
    have hleads : (g b).leads = (s.pc b).leads := role_congr Pc.leads_awake hgb
    have hleader : (g b).leads = true → b = l := by
      intro hgl
      exact h.leads_unique hl (hleads ▸ hgl)
    refine maySleep_of_counting hn0 ?_ ?_
    · intro p asleep hgd
      have hbl := hleader (by rw [hgd]; rfl)
      rw [hgd, hbl] at hgb
      cases hsl : s.pc l <;> simp [hsl, Pc.awake] at hgb
      exact hdone _ _ hsl
    · intro hsleep hlast
      have hbl := hleader (Pc.leads_of_sleepsOnPause hsleep)
      rw [hn] at hlast
      rw [hg, if_pos hlast, hbl, h.sleepsOnPause_notifyOne hl hw] at hsleep
      exact absurd hsleep Bool.false_ne_true
  · refine maySleep_of_counting hn0 ?_ ?_
    · intro p asleep hpcd
      rw [hpcd] at hpaused
      exact absurd hpaused Bool.false_ne_true
    · intro hsleep
      cases p <;> simp [Pc.sleepsOnPause] at hpaused hsleep

omit [DecidableEq A] in
theorem maySleep_of_spurious {pc pc' : Pc} (h : pc.spurious = some pc') : MaySleep io s pc' := by
  unfold Pc.spurious at h
  split at h <;> simp only [Option.some.injEq, reduceCtorEq] at h
  all_goals
    rw [← h]
    trivial

omit [DecidableEq A] in
/-- Where a thread may be after another one was resumed. -/
theorem maySleep_of_resumed {pc : Pc} (h : MaySleep io s pc) (hn : s'.numPaused = s.numPaused)
    (hdone : ∀ p, pc = .doneWait p true → s'.numPauseDone ≠ numThreads io) :
    MaySleep io s' pc := by
  unfold MaySleep at h ⊢
  rw [hn]
  split at h <;> first | trivial | exact hdone _ rfl

/-- The last thread that is resumed wakes `while_paused2`. -/
theorem Wakeful.resumed (h : Wakeful io s) {p : ℕ} (ha : s.pc a = .resumeWait p false)
    (hn : s.numPaused = 0) : Wakeful io (s.wakeNext io a) := by
  simp only [wakeNext, ha, if_pos hn]
  have hb : ∀ b, MaySleep io s (Function.update s.pc a .top b) :=
    forall_update (R := fun _ (pc : Pc) => MaySleep io s pc) h trivial
  split
  · intro b
    have hmay := hb b
    simp only [mapPc, setPc]
    cases hpc : Function.update s.pc a .top b with
    | doneWait q asleep => trivial
    | _ =>
      rw [hpc] at hmay
      exact maySleep_of_resumed hmay rfl (by simp [Pc.notifyResume2])
  · next hmore => exact fun b => maySleep_of_resumed (hb b) rfl fun _ _ => hmore

/-- A call that follows the others leaves nobody asleep. -/
theorem Wakeful.step (h : Wakeful io s) (hphase : Phase io s) (hp : Places io s)
    (hm : Moves io s x s') (hs : Serial s x) : Wakeful io s' := by
  cases hm with
  | begin_ k a ha ho hio => exact h.update rfl rfl rfl trivial
  | lockCom a k p ha hc =>
    -- Nobody waits to be resumed or leads another call.
    obtain ⟨hfollows, -⟩ := hphase.of_leads (a := a) (by rw [ha]; rfl)
    rw [ha] at hfollows
    intro b
    by_cases hb : b = a
    · rw [hb]
      simp [MaySleep]
    · have hf := hfollows b hb
      have hno := hs b
      have hsame : Function.update s.pc a (.writing k p (numThreads io - own io k a).toNat) b
          = s.pc b := Function.update_of_ne hb _ _
      show MaySleep io _ (Function.update s.pc a _ b)
      rw [hsame]
      cases hpc : s.pc b <;> simp [hpc] at hf hno <;> trivial
  | write a k p n ha hn => exact h.update rfl rfl rfl trivial
  | testCall a k p ha hn => exact h.update rfl rfl rfl trivial
  | testWait a k p ha hn => exact h.update rfl rfl rfl hn
  | callWhilePaused a p throws ha =>
    cases throws with
    | true => exact h.update rfl rfl rfl trivial
    | false => exact hphase.wakeful_of_notifyResume (by rw [ha]; rfl) rfl trivial
  | callWhilePaused2 a p throws ha =>
    have hlead : (s.pc a).leads = true := by rw [ha]; rfl
    by_cases hN : numThreads io = 1
    · simp only [endWhilePaused2, if_pos hN]
      exact hphase.wakeful_of_notifyResume hlead rfl trivial
    · simp only [endWhilePaused2, if_neg hN]
      exact hphase.wakeful_of_notifyResume hlead rfl (Ne.symm hN)
  | resumed a p ha hc hn => exact h.resumed ha hn
  | allPaused a k p ha hc hn => exact h.update rfl rfl rfl trivial
  | allDone a p ha hc hn => exact h.update rfl rfl rfl trivial
  | eachReturns a c ha ho hn =>
    exact hphase.wakeful_of_notifyResume (by rw [ha]; rfl) rfl trivial
  | eachResumed a c ha ho hn => exact h.update rfl rfl rfl trivial
  | takePause a p rest hpipe ha harm => exact h.update rfl rfl rfl trivial
  | count a w p ha hc hw =>
    obtain ⟨l, k, asleep, hal, hl, hpausing, -⟩ := hphase.of_pauseCmd hp ha hc
    have hown : 0 ≤ own io k l := own_nonneg k
    have hpaused := count_pausedWeight_nonneg (s := s)
    refine hphase.wakeful_of_counted (l := l) (by rw [hl]; rfl) (by simp [hl]) hw
      (by rw [hpausing.counted]; omega) (a := a) (p := .resumeWait p true) rfl ?_ ?_
    all_goals
      simp only [countPaused]
      split
    · cases w <;> rfl
    · rfl
    · cases w <;> rfl
    · rfl
  | beginEach a ha ho =>
    obtain ⟨hneutral, -⟩ := hphase.neutral_of_free hp ho hs
    simp only [beginEachNext]
    split
    · next hN =>
      intro b
      refine forall_update (R := fun _ (pc : Pc) => MaySleep io _ pc) (f := s.pc) (fun b => ?_) ?_ b
      · exact maySleep_of_neutral (hneutral b)
      · exact ne_of_lt hN
    · intro b
      refine forall_update (R := fun _ (pc : Pc) => MaySleep io _ pc)
        (f := fun b => (s.pc b).notifyResume) (fun b => ?_) ?_ b
      · apply maySleep_notifyResume
        have hb := hneutral b
        cases hpc : s.pc b <;> simp [hpc] at hb ⊢
      · trivial
  | takeEach a c rest hpipe ha harm => exact h.update rfl rfl rfl trivial
  | exec a w c ha ho hw =>
    obtain ⟨l, asleep, hal, hl, -, hcounted, -⟩ := hphase.of_eachCmd ha
    have hweight := ioWeight_nonneg (io l)
    have hpaused := count_pausedWeight_nonneg (s := s)
    refine hphase.wakeful_of_counted (l := l) (by rw [hl]; rfl) (by simp [hl]) hw
      (by rw [hcounted]; omega) (a := a) (p := .eachResumeWait c true) rfl ?_ ?_
    all_goals
      simp only [passOn]
      split
    · cases w <;> rfl
    · rfl
    · cases w <;> rfl
    · rfl
  | stillPaused a p ha hc hn | notAllPaused a k p ha hc hn | notAllDone a p ha hc hn
  | eachWaits a c ha ho hn | eachStillPaused a c ha ho hn =>
    exact h.update rfl rfl rfl hn
  | spurious a pc ha => exact h.update rfl rfl rfl (maySleep_of_spurious ha)
  | top a ha =>
    simp only [topNext]
    split
    · exact h.update rfl rfl rfl trivial
    · split <;> exact h.update rfl rfl rfl trivial
  | lockAtRest a ha hc | runAtRest a f todo ha | endAtRest a ha | event a ha | finish a ha hio =>
    exact h.update rfl rfl rfl trivial

/-! ## Progress -/

/-- Not the start of a call, not an event, and not a wakeup without a notification. -/
def PauseAction.ordinary : PauseAction A → Bool
  | .begin_ _ _ | .beginEach _ | .event _ | .spurious _ => false
  | _ => true

/-- Some thread can go on by itself, in a way that `Serial` allows. -/
def Goes (io : A → Bool) (s : PauseState A) : Prop :=
  ∃ x : PauseAction A, x.ordinary = true ∧ s.enabled io x ∧ Serial s x

omit [DecidableEq A] in
/-- The holder of `pause_com_mutex_` can go on. -/
theorem Places.goes_of_com (hp : Places io s) (hc : s.com ≠ none) : Goes io s := by
  obtain ⟨h, hh⟩ := Option.ne_none_iff_exists'.mp hc
  have hplace := (hp.com h).mp hh
  cases hpc : s.pc h <;> simp [hpc, Pc.holdsCom] at hplace
  case writing k p n =>
    by_cases hn : n = 0
    · exact ⟨.test h, rfl, by simp [PauseState.enabled, hpc, hn], trivial⟩
    · exact ⟨.write h, rfl, by simp [PauseState.enabled, hpc, hn], trivial⟩
  case calling k p =>
    exact ⟨.call h false, rfl, by simp [PauseState.enabled, hpc], trivial⟩
  case atRest todo =>
    by_cases htodo : todo = []
    · exact ⟨.endAtRest h, rfl, by simp [PauseState.enabled, hpc, htodo], trivial⟩
    · exact ⟨.runAtRest h, rfl, by simp [PauseState.enabled, hpc, htodo], trivial⟩

omit [Fintype A] [DecidableEq A] in
/-- A thread that may be woken goes on when it can lock its mutex. -/
theorem goes_of_wake (h : s.wakeEnabled a) : Goes io s := ⟨.wake a, rfl, h, trivial⟩

omit [Fintype A] [DecidableEq A] in
/-- An io thread outside of calls and commands comes to the pipe. -/
theorem goes_of_neutral (hb : (s.pc b).neutral = true) (hio : io b = true) (hc : s.com = none)
    (hpipe : s.pipe ≠ []) (harm : s.armed = true) (hcom : (s.pc b).holdsCom = false) :
    Goes io s := by
  cases hpc : s.pc b <;> simp [hpc, Pc.holdsCom] at hb hcom
  case top => exact ⟨.top b, rfl, hpc, trivial⟩
  case atRestLock => exact ⟨.lockAtRest b, rfl, ⟨hpc, hc⟩, trivial⟩
  case user => exact ⟨.finish b, rfl, ⟨hpc, hio⟩, trivial⟩
  case epoll =>
    cases hcmd : s.pipe with
    | nil => exact absurd hcmd hpipe
    | cons d rest =>
      cases d with
      | pause p => exact ⟨.takePause b, rfl, by simp [PauseState.enabled, hcmd, hpc, harm], trivial⟩
      | onEach c => exact ⟨.takeEach b, rfl, by simp [PauseState.enabled, hcmd, hpc, harm], trivial⟩

omit [DecidableEq A] in
/-- A paused thread that has been resumed is awake. -/
theorem Wakeful.awake_of_paused (h : Wakeful io s) (hb : (s.pc b).paused = true)
    (hn : s.numPaused = 0) :
    (∃ p, s.pc b = .resumeWait p false) ∨ ∃ c, s.pc b = .eachResumeWait c false := by
  have hmay := h b
  cases hpc : s.pc b <;> simp [hpc] at hb
  case resumeWait p asleep =>
    rw [hpc] at hmay
    cases asleep with
    | false => exact .inl ⟨p, rfl⟩
    | true => exact absurd hn hmay
  case eachResumeWait c asleep =>
    rw [hpc] at hmay
    cases asleep with
    | false => exact .inr ⟨c, rfl⟩
    | true => exact absurd hn hmay

omit [DecidableEq A] in
/-- Only io threads are paused. -/
theorem Places.pausedWeight_le (hp : Places io s) (b : A) :
    (s.pc b).pausedWeight ≤ ioWeight (io b) := by
  unfold Pc.pausedWeight
  split
  · next hb =>
    rw [hp.ioOnly b (by cases hpc : s.pc b <;> simp [hpc] at hb <;> rfl)]
    exact le_rfl
  · exact ioWeight_nonneg _

omit [DecidableEq A] in
theorem pausedWeight_of_leads {pc : Pc} (h : pc.leads = true) : pc.pausedWeight = 0 := by
  cases pc <;> first | rfl | exact absurd h Bool.false_ne_true

omit [DecidableEq A] in
/-- A leader and the paused threads are not more than all io threads. -/
theorem Places.paused_le (hp : Places io s) (ha : (s.pc a).leads = true) :
    ioWeight (io a) + count Pc.pausedWeight s.pc ≤ numThreads io :=
  add_count_le hp.pausedWeight_le (pausedWeight_of_leads ha)

omit [DecidableEq A] in
/-- When they are all io threads, every other io thread is paused. -/
theorem Places.paused_of_eq (hp : Places io s) (ha : (s.pc a).leads = true)
    (h : ioWeight (io a) + count Pc.pausedWeight s.pc = numThreads io) (hab : b ≠ a)
    (hb : io b = true) : (s.pc b).paused = true := by
  have heq := eq_of_add_count_eq hp.pausedWeight_le (pausedWeight_of_leads ha) h hab
  rw [hb, Pc.pausedWeight, ioWeight, if_pos rfl] at heq
  by_contra hno
  rw [if_neg hno] at heq
  exact absurd heq (by decide)

omit [DecidableEq A] in
/-- If not all io threads are counted and no command is on its way, one of them is outside. -/
theorem exists_neutral {l : A} (hlt : ioWeight (io l) + count Pc.pausedWeight s.pc < numThreads io)
    (hothers : ∀ b, b ≠ l → (s.pc b).neutral = true ∨ (s.pc b).paused = true) :
    ∃ b, b ≠ l ∧ io b = true ∧ (s.pc b).neutral = true := by
  by_contra hno
  push Not at hno
  have hle : numThreads io ≤ ioWeight (io l) + count Pc.pausedWeight s.pc := by
    refine count_le_of_others Pc.pausedWeight_nonneg l fun b hb => ?_
    cases hio : io b with
    | false => exact Pc.pausedWeight_nonneg _
    | true =>
      have hpaused := (hothers b hb).resolve_left (hno b hb hio)
      rw [Pc.pausedWeight, if_pos hpaused]
      exact le_rfl
  omega

omit [Fintype A] [DecidableEq A] in
/-- A caller counts itself if it is an io thread. -/
theorem own_eq (k : PauseKind) (hk : k.fromIo = true → io a = true) :
    own io k a = ioWeight (io a) := by
  cases k with
  | whilePaused => rfl
  | whilePaused2 =>
    rw [hk rfl]
    rfl

omit [DecidableEq A] in
/-- While nobody has read a command, the control pipe is armed. -/
theorem Places.armed_of_count (hp : Places io s) (h : count Pc.readerWeight s.pc = 0) :
    s.armed = true := by
  have hreader := hp.reader
  rw [h] at hreader
  cases harm : s.armed with
  | true => rfl
  | false =>
    rw [harm, disarmed] at hreader
    omega

omit [DecidableEq A] in
/-- A thread that is woken from a pause that has ended goes on. -/
theorem Wakeful.goes_of_paused (h : Wakeful io s) (hc : s.com = none)
    (hb : (s.pc b).paused = true) (hn : s.numPaused = 0) (hno : (s.pc b).onEach = false) :
    Goes io s := by
  obtain ⟨p, hp⟩ | ⟨c, hc⟩ := h.awake_of_paused hb hn
  · exact goes_of_wake (a := b) (by rw [wakeEnabled, hp]; exact hc)
  · rw [hc] at hno
    exact absurd hno (by simp)

omit [DecidableEq A] in
/-- If not all io threads are counted, one of them is on its way. -/
theorem Places.goes_of_uncounted (hp : Places io s) {l : A} (hc : s.com = none)
    (hlt : ioWeight (io l) + count Pc.pausedWeight s.pc < numThreads io)
    (hfollows : ∀ b, b ≠ l → (s.pc l).follows (s.pc b))
    (hcommand : count Pc.readerWeight s.pc = 0 → s.pipe ≠ [])
    (hreader : ∀ b, (s.pc b).readerWeight ≠ 0 → Goes io s) : Goes io s := by
  by_cases hr : count Pc.readerWeight s.pc = 0
  · have hothers : ∀ b, b ≠ l → (s.pc b).neutral = true ∨ (s.pc b).paused = true := by
      intro b hb
      have hf := hfollows b hb
      have hrb := eq_zero_of_count_eq_zero Pc.readerWeight_nonneg hr b
      cases hpc : s.pc b <;> simp [hpc, Pc.readerWeight] at hf hrb ⊢
    obtain ⟨b, -, hio, hneutral⟩ := exists_neutral hlt hothers
    exact goes_of_neutral hneutral hio hc (hcommand hr) (hp.armed_of_count hr)
      ((hc ▸ hp.com).of_none b)
  · obtain ⟨b, hb⟩ := exists_of_count_ne_zero hr
    exact hreader b hb

theorem Pc.readerWeight_of_leads {pc : Pc} (h : pc.leads = true) : pc.readerWeight = 0 := by
  cases pc <;> first | rfl | exact absurd h Bool.false_ne_true

omit [Fintype A] [DecidableEq A] in
/-- A thread that has read a command of a sleeping leader can handle it. -/
theorem goes_of_reader {l : A} (hl : (s.pc l).sleepsOnPause = true)
    (hfollows : ∀ b, b ≠ l → (s.pc l).follows (s.pc b)) (hc : s.com = none)
    (ho : (s.pc l).onEach = true → s.outer = none) (hb : (s.pc b).readerWeight ≠ 0) :
    Goes io s := by
  have hbl : b ≠ l := by
    intro hbl
    rw [hbl, Pc.readerWeight_of_leads (Pc.leads_of_sleepsOnPause hl)] at hb
    exact hb rfl
  have hf := hfollows b hbl
  cases hpc : s.pc b <;> simp [hpc, Pc.readerWeight] at hb
  case pauseCmd p =>
    exact ⟨.count b (some l), rfl, by simp [PauseState.enabled, hpc, hc, canNotify, hl], trivial⟩
  case eachCmd c =>
    have heach : (s.pc l).onEach = true := by
      cases hleader : s.pc l <;> simp [hpc, hleader] at hf ⊢
    refine ⟨.exec b (some l), rfl, ?_, trivial⟩
    simp [PauseState.enabled, hpc, ho heach, canNotify, hl]

omit [DecidableEq A] in
/-- A pause that waits for its threads can go on. -/
theorem Places.goes_of_pauseWait (hp : Places io s) (hw : Wakeful io s) {l : A} {k : PauseKind}
    {p : ℕ} {asleep : Bool} (hc : s.com = none) (hl : s.pc l = .pauseWait k p asleep)
    (hfollows : ∀ b, b ≠ l → (s.pc l).follows (s.pc b)) (haccount : Pausing io s k l p 0) :
    Goes io s := by
  cases asleep with
  | false => exact goes_of_wake (a := l) (by rw [wakeEnabled, hl]; exact hc)
  | true =>
    have hne : s.numPaused ≠ numThreads io := by
      have hmay := hw l
      rwa [hl] at hmay
    have hown : own io k l = ioWeight (io l) := by
      refine own_eq k fun hk => hp.ioOnly l ?_
      rw [hl]
      exact hk
    have hreaders : 0 ≤ count Pc.readerWeight s.pc := count_nonneg Pc.readerWeight_nonneg
    obtain ⟨hcounted, m, hm, hsum⟩ := haccount
    push_cast at hsum
    refine hp.goes_of_uncounted hc (by omega) hfollows ?_ fun b => ?_
    · -- Then the commands are in the pipe.
      intro hr hpipe
      have hm0 : m = 0 := by
        rw [hpipe] at hm
        simpa using (congrArg List.length hm).symm
      rw [hr, hm0] at hsum
      push_cast at hsum
      omega
    · exact goes_of_reader (by rw [hl]; rfl) hfollows hc (by simp [hl])

/-- An `on_each` that waits for its threads can go on. -/
theorem Places.goes_of_eachWait (hp : Places io s) (hw : Wakeful io s) {l : A} {c : ℕ}
    {asleep : Bool} (hc : s.com = none) (hl : s.pc l = .eachWait c asleep)
    (hfollows : ∀ b, b ≠ l → (s.pc l).follows (s.pc b)) (haccount : Eaching io s l c) :
    Goes io s := by
  have ho : s.outer = none := by
    by_contra ho
    obtain ⟨o, ho⟩ := Option.ne_none_iff_exists'.mp ho
    have hplace := (hp.outer o).mp ho
    by_cases hol : o = l
    · rw [hol, hl] at hplace
      exact absurd hplace Bool.false_ne_true
    · have hf := hfollows o hol
      rw [hl] at hf
      cases hpc : s.pc o <;> simp [hpc, Pc.holdsOuter] at hplace hf
  cases asleep with
  | false => exact goes_of_wake (a := l) (by rw [wakeEnabled, hl]; exact ho)
  | true =>
    have hne : s.numPaused ≠ numThreads io := by
      have hmay := hw l
      rwa [hl] at hmay
    have hle := hp.paused_le (a := l) (by rw [hl]; rfl)
    obtain ⟨hcounted, m, hm, hsum⟩ := haccount
    rw [if_neg hne] at hsum
    refine hp.goes_of_uncounted hc (by omega) hfollows ?_ fun b => ?_
    · -- Then the command is in the pipe.
      intro hr hpipe
      have hm0 : m = 0 := by
        rw [hpipe] at hm
        simpa using (congrArg List.length hm).symm
      rw [hr, hm0] at hsum
      exact absurd hsum (by simp)
    · exact goes_of_reader (by rw [hl]; rfl) hfollows hc fun _ => ho

/-- While a thread is in a call or a command, some thread can go on. -/
theorem Phase.goes (h : Phase io s) (hp : Places io s) (hw : Wakeful io s)
    (ha : (s.pc a).neutral = false) : Goes io s := by
  by_cases hc : s.com = none
  · cases h with
    | quiet hquiet hpipe =>
      obtain ⟨hpaused, hn⟩ := (hquiet a).resolve_left (by rw [ha]; exact Bool.false_ne_true)
      obtain ⟨p, hb⟩ | ⟨c, hb⟩ := hw.awake_of_paused hpaused hn
      · exact goes_of_wake (a := a) (by rw [wakeEnabled, hb]; exact hc)
      · apply goes_of_wake (a := a)
        rw [wakeEnabled, hb]
        -- Nobody leads, so `pause_outer_mutex_` is free.
        by_contra ho
        obtain ⟨o, ho⟩ := Option.ne_none_iff_exists'.mp ho
        have hplace := (hp.outer o).mp ho
        have hq := hquiet o
        cases hpc : s.pc o <;> simp [hpc, Pc.holdsOuter] at hplace hq
    | led l hfollows haccount =>
      have hcom := (hc ▸ hp.com).of_none l
      have hone : ∀ b, (s.pc b).paused = true → (s.pc l).onEach = false →
          (s.pc b).onEach = false := by
        intro b hb hno
        have hf := hfollows b (ne_of_not_leads haccount (by
          cases hpc : s.pc b <;> simp [hpc] at hb ⊢))
        cases hpc : s.pc b <;> cases hl : s.pc l <;> simp [hpc, hl] at hb hno hf ⊢
      cases hl : s.pc l with
      | locked k p =>
        rw [hl] at haccount
        by_cases hno : ∀ b, (s.pc b).paused = false
        · exact ⟨.lockCom l, rfl, by simp [PauseState.enabled, hl, hc], hno⟩
        · simp only [not_forall, Bool.not_eq_false] at hno
          obtain ⟨b, hb⟩ := hno
          exact hw.goes_of_paused hc hb (haccount.2 b hb) (hone b hb (by rw [hl]; rfl))
      | doneWait p asleep =>
        rw [hl] at haccount
        cases asleep with
        | false => exact goes_of_wake (a := l) (by rw [wakeEnabled, hl]; exact hc)
        | true =>
          have hmay := hw l
          rw [hl] at hmay
          have hne : count Pc.pausedWeight s.pc ≠ 0 := by
            intro hzero
            have hdone := haccount.2.2
            rw [hzero, add_zero] at hdone
            exact hmay hdone
          obtain ⟨b, hb⟩ := exists_of_count_ne_zero hne
          have hb' : (s.pc b).paused = true := by
            by_contra hno
            rw [Pc.pausedWeight, if_neg hno] at hb
            exact hb rfl
          exact hw.goes_of_paused hc hb' haccount.2.1 (hone b hb' (by rw [hl]; rfl))
      | pauseWait k p asleep =>
        rw [hl] at haccount
        exact hp.goes_of_pauseWait hw hc hl hfollows haccount
      | eachWait c asleep =>
        rw [hl] at haccount
        exact hp.goes_of_eachWait hw hc hl hfollows haccount
      | writing k p n =>
        rw [hl] at hcom
        exact absurd hcom (by simp [Pc.holdsCom])
      | calling k p =>
        rw [hl] at hcom
        exact absurd hcom (by simp [Pc.holdsCom])
      | _ =>
        rw [hl] at haccount
        exact haccount.elim
  · exact hp.goes_of_com hc

/-! ## The calls -/

namespace Pc

/-- The pause of a thread that has not called its function yet. -/
def awaits : Pc → Option ℕ
  | locked _ p | writing _ p _ | pauseWait _ p _ | calling _ p => some p
  | _ => none

/-- The pause of a thread that has called its function but not returned. -/
def unreturned : Pc → Option ℕ
  | doneWait p _ => some p
  | _ => none

theorem awaits_awake (pc : Pc) : pc.awake.awaits = pc.awaits := by
  cases pc <;> rfl

theorem unreturned_awake (pc : Pc) : pc.awake.unreturned = pc.unreturned := by
  cases pc <;> rfl

/-- One for a thread that has read the command of the pause `p` and is not counted yet. -/
def pauseCmdWeight (p : ℕ) : Pc → ℤ
  | pauseCmd q => if q = p then 1 else 0
  | _ => 0

end Pc

/-- The functions that have been called, and the calls that still have to call theirs. -/
structure Calls (s : PauseState A) : Prop where
  nodup : s.called.Nodup
  lt : ∀ p ∈ s.called, p < s.calls
  awaits : ∀ a p, (s.pc a).awaits = some p → p < s.calls ∧ p ∉ s.called
  unreturned : ∀ a p, (s.pc a).unreturned = some p → p ∈ s.called
  returned : ∀ p ∈ s.returned, p ∈ s.called

/-- A step that calls no function and starts no pause. -/
theorem Calls.frame (h : Calls s) (hp : Places io s) (hm : Moves io s x s')
    (hcalls : s.calls ≤ s'.calls) (hcalled : s'.called = s.called)
    (hreturned : ∀ p ∈ s'.returned, p ∈ s.called)
    (hawaits : ∀ p, (s'.pc x.actor).awaits = some p → (s.pc x.actor).awaits = some p)
    (hunreturned : ∀ p, (s'.pc x.actor).unreturned = some p →
      (s.pc x.actor).unreturned = some p) : Calls s' := by
  constructor
  · exact hcalled ▸ h.nodup
  · intro p hmem
    exact (h.lt p (hcalled ▸ hmem)).trans_le hcalls
  · intro b p hb
    rw [hcalled]
    have hold : (s.pc b).awaits = some p := by
      by_cases hbx : b = x.actor
      · exact hbx ▸ hawaits p (hbx ▸ hb)
      · rw [← role_congr Pc.awaits_awake (hm.awake_of_ne hp hbx)]
        exact hb
    exact ⟨(h.awaits b p hold).1.trans_le hcalls, (h.awaits b p hold).2⟩
  · intro b p hb
    rw [hcalled]
    refine h.unreturned b p ?_
    by_cases hbx : b = x.actor
    · exact hbx ▸ hunreturned p (hbx ▸ hb)
    · rw [← role_congr Pc.unreturned_awake (hm.awake_of_ne hp hbx)]
      exact hb
  · rw [hcalled]
    exact hreturned

theorem Pc.leads_of_awaits {pc : Pc} {p : ℕ} (h : pc.awaits = some p) : pc.leads = true := by
  cases pc <;> first | rfl | simp [awaits] at h

theorem Pc.leads_of_unreturned {pc : Pc} {p : ℕ} (h : pc.unreturned = some p) :
    pc.leads = true := by
  cases pc <;> first | rfl | simp [unreturned] at h

/-- The leader calls the function of its pause. -/
theorem Calls.call (h : Calls s) (hphase : Phase io s) (hp : Places io s)
    (hm : Moves io s x s') {p : ℕ} (ha : (s.pc x.actor).awaits = some p)
    (hcalls : s'.calls = s.calls) (hcalled : s'.called = p :: s.called)
    (hawaits : (s'.pc x.actor).awaits = none)
    (hunreturned : ∀ q, (s'.pc x.actor).unreturned = some q → q = p)
    (hreturned : ∀ q ∈ s'.returned, q = p ∨ q ∈ s.returned) : Calls s' := by
  obtain ⟨hlt, hnot⟩ := h.awaits _ _ ha
  -- No other thread leads a call.
  have hothers : ∀ b, b ≠ x.actor → (s'.pc b).leads = false := by
    intro b hb
    rw [role_congr Pc.leads_awake (hm.awake_of_ne hp hb)]
    exact Pc.leads_of_follows ((hphase.of_leads (Pc.leads_of_awaits ha)).1 b hb)
  constructor
  · rw [hcalled, List.nodup_cons]
    exact ⟨hnot, h.nodup⟩
  · intro q hq
    rw [hcalls]
    rw [hcalled, List.mem_cons] at hq
    exact hq.elim (fun hqp => hqp ▸ hlt) (h.lt q)
  · intro b q hb
    by_cases hbx : b = x.actor
    · rw [hbx, hawaits] at hb
      exact absurd hb (by simp)
    · have hl := Pc.leads_of_awaits hb
      rw [hothers b hbx] at hl
      exact absurd hl (by simp)
  · intro b q hb
    by_cases hbx : b = x.actor
    · rw [hcalled, hunreturned q (hbx ▸ hb)]
      exact List.mem_cons_self
    · have hl := Pc.leads_of_unreturned hb
      rw [hothers b hbx] at hl
      exact absurd hl (by simp)
  · intro q hq
    rw [hcalled, List.mem_cons]
    exact (hreturned q hq).imp_right (h.returned q)

theorem Calls.step (h : Calls s) (hphase : Phase io s) (hp : Places io s)
    (hm : Moves io s x s') : Calls s' := by
  have hm' := hm
  cases hm with
  | begin_ k a ha ho hio =>
    refine ⟨h.nodup, fun p hmem => Nat.lt_succ_of_lt (h.lt p hmem), ?_, ?_, h.returned⟩
    · intro b
      refine forall_update (R := fun _ (pc : Pc) => ∀ p, pc.awaits = some p →
        p < s.calls + 1 ∧ p ∉ s.called) (fun b p hb => ?_) ?_ b
      · exact ⟨Nat.lt_succ_of_lt (h.awaits b p hb).1, (h.awaits b p hb).2⟩
      · intro p hb
        obtain rfl : s.calls = p := by simpa [Pc.awaits] using hb
        exact ⟨Nat.lt_succ_self _, fun hmem => absurd (h.lt _ hmem) (lt_irrefl _)⟩
    · intro b
      exact forall_update (R := fun _ (pc : Pc) => ∀ p, pc.unreturned = some p → p ∈ s.called)
        h.unreturned (by simp [Pc.unreturned]) b
  | callWhilePaused a p throws ha =>
    refine h.call hphase hp hm' (p := p) (by simp [ha, Pc.awaits]) ?_ ?_ ?_ ?_ ?_
    all_goals cases throws <;> simp [endWhilePaused, Pc.awaits, Pc.unreturned]
    all_goals exact fun q hq => .inr hq
  | callWhilePaused2 a p throws ha =>
    refine h.call hphase hp hm' (p := p) (by simp [ha, Pc.awaits]) ?_ ?_ ?_ ?_ ?_
    all_goals
      simp only [endWhilePaused2]
      split <;> simp [Pc.awaits, Pc.unreturned]
    all_goals exact fun q hq => .inr hq
  | allDone a p ha hc hn =>
    refine h.frame hp hm' le_rfl rfl ?_ (by simp [Pc.awaits]) (by simp [Pc.unreturned])
    intro q hq
    have hcalled := h.unreturned a p (by rw [ha]; rfl)
    exact (List.mem_cons.mp hq).elim (fun hqp => hqp ▸ hcalled) (h.returned q)
  | beginEach a ha ho =>
    refine h.frame hp hm' ?_ ?_ ?_ ?_ ?_
    all_goals
      simp only [beginEachNext]
      split <;> simp [endEach, Pc.awaits, Pc.unreturned]
    all_goals exact h.returned
  | resumed a p ha hc hn =>
    refine h.frame hp hm' ?_ ?_ ?_ ?_ ?_
    all_goals
      simp only [wakeNext, ha, if_pos hn]
      split <;> simp [Pc.awaits, Pc.unreturned, Pc.notifyResume2]
    all_goals exact h.returned
  | eachReturns a c ha ho hn =>
    exact h.frame hp hm' le_rfl rfl h.returned (by simp [endEach, Pc.awaits])
      (by simp [endEach, Pc.unreturned])
  | count a w p ha hc hw =>
    refine h.frame hp hm' ?_ ?_ ?_ ?_ ?_
    all_goals
      simp only [countPaused]
      split <;> cases w <;> simp [Pc.awaits, Pc.unreturned, notifyOne]
    all_goals exact h.returned
  | exec a w c ha ho hw =>
    refine h.frame hp hm' ?_ ?_ ?_ ?_ ?_
    all_goals
      simp only [passOn]
      split <;> cases w <;> simp [Pc.awaits, Pc.unreturned, notifyOne]
    all_goals exact h.returned
  | top a ha =>
    refine h.frame hp hm' ?_ ?_ ?_ ?_ ?_
    all_goals
      simp only [topNext]
      split
    all_goals (try split) <;> simp [Pc.awaits, Pc.unreturned]
    all_goals exact h.returned
  | spurious a pc ha =>
    have hawake := Pc.awake_of_spurious ha
    refine h.frame hp hm' le_rfl rfl h.returned ?_ ?_ <;>
      simp only [PauseAction.actor, setPc, Function.update_self]
    · rw [role_congr Pc.awaits_awake hawake]
      exact fun _ h => h
    · rw [role_congr Pc.unreturned_awake hawake]
      exact fun _ h => h
  | lockCom a k p ha hc | write a k p n ha hn | testCall a k p ha hn | testWait a k p ha hn
  | allPaused a k p ha hc hn | notAllPaused a k p ha hc hn | notAllDone a p ha hc hn =>
    exact h.frame hp hm' le_rfl rfl h.returned (by simp [ha, Pc.awaits])
      (by simp [ha, Pc.unreturned])
  | _ =>
    exact h.frame hp hm' le_rfl rfl h.returned (by simp [Pc.awaits]) (by simp [Pc.unreturned])

/-! ## The handshake -/

/-- What holds in every state of a run of calls that come one after the other. -/
structure Orderly (io : A → Bool) (s : PauseState A) : Prop where
  places : Places io s
  phase : Phase io s
  wakeful : Wakeful io s
  calls : Calls s

theorem orderly_init : Orderly io (pauseMachine io).init := by
  refine ⟨places_init, phase_init, fun b => ?_, ⟨List.nodup_nil, by simp [pauseMachine], ?_, ?_,
    by simp [pauseMachine]⟩⟩
  · simp only [pauseMachine]
    split <;> trivial
  · intro b
    simp only [pauseMachine]
    split <;> simp [Pc.awaits]
  · intro b
    simp only [pauseMachine]
    split <;> simp [Pc.unreturned]

theorem Orderly.step (h : Orderly io s) (hs : Serial s x) (he : s.enabled io x) :
    Orderly io (s.next io x) := by
  have hm := moves_of_enabled he
  constructor
  · exact h.places.step hm
  · exact h.phase.step h.places hm hs
  · exact h.wakeful.step h.phase h.places hm hs
  · exact h.calls.step h.phase h.places hm

theorem orderly_of_reachable (hs : (pauseMachine io).Reachable Serial s) : Orderly io s :=
  hs.invariant orderly_init fun _ _ h hserial he => h.step hserial he

/-- The handshake of a pause, in one state of a run. -/
structure HandshakeHolds (io : A → Bool) (s : PauseState A) : Prop where
  /-- A function is called only while every other io thread is blocked in its pause. -/
  exclusive : ∀ a k p, s.pc a = .calling k p →
    ∀ b, b ≠ a → io b = true → ∃ asleep, s.pc b = .resumeWait p asleep
  /-- No function is called twice. -/
  once : s.called.Nodup
  /-- A pause does not return true before its function has been called. -/
  returned : ∀ p ∈ s.returned, p ∈ s.called
  /-- The threads that are counted for a pause that waits and its commands that are not consumed,
  in the pipe or in the hands of a thread that has read them, are all io threads together. -/
  waiting : ∀ a k p asleep, s.pc a = .pauseWait k p asleep →
    s.numPaused + s.pipe.count (.pause p) + count (Pc.pauseCmdWeight p) s.pc = numThreads io
  /-- No thread is still blocked on behalf of an earlier pause. -/
  noEarlier : ∀ a k p asleep, s.pc a = .pauseWait k p asleep →
    ∀ b q asleep', s.pc b = .resumeWait q asleep' → q = p
  /-- While a thread is in a call or a command, some thread can go on. -/
  goesOn : ∀ a, (s.pc a).neutral = false →
    ∃ x : PauseAction A, x.ordinary = true ∧ s.enabled io x

/-- In a run of calls that come one after the other the handshake of the pauses holds. -/
theorem handshake_holds (hs : (pauseMachine io).Reachable Serial s) : HandshakeHolds io s := by
  obtain ⟨hplaces, hphase, hwakeful, hcalls⟩ := orderly_of_reachable hs
  have hown : ∀ a k, (s.pc a).ioOnly = k.fromIo → own io k a = ioWeight (io a) := by
    intro a k hk
    exact own_eq k fun hio => hplaces.ioOnly a (hk.trans hio)
  refine ⟨?_, hcalls.nodup, hcalls.returned, ?_, ?_, ?_⟩
  · intro a k p ha b hb hio
    obtain ⟨-, hcount, hothers⟩ := hphase.of_calling ha
    rw [hown a k (by rw [ha]; rfl)] at hcount
    have hpaused := hplaces.paused_of_eq (by rw [ha]; rfl) hcount hb hio
    refine (hothers b hb).resolve_left fun hneutral => ?_
    cases hpc : s.pc b <;> simp [hpc] at hpaused hneutral
  · intro a k p asleep ha
    obtain ⟨hfollows, haccount⟩ := hphase.of_leads (a := a) (by rw [ha]; rfl)
    rw [ha] at hfollows haccount
    obtain ⟨hcounted, m, hm, hsum⟩ := haccount
    have hreaders : count (Pc.pauseCmdWeight p) s.pc = count Pc.readerWeight s.pc := by
      refine Finset.sum_congr rfl fun b _ => ?_
      by_cases hb : b = a
      · rw [hb, ha]
        rfl
      · have hf := hfollows b hb
        cases hpc : s.pc b <;> simp [hpc, Pc.pauseCmdWeight, Pc.readerWeight] at hf ⊢
        exact hf.symm
    rw [hreaders, hm, List.count_replicate_self]
    push_cast at hsum
    omega
  · intro a k p asleep ha b q asleep' hb
    have hba : b ≠ a := by
      rintro rfl
      rw [ha] at hb
      exact absurd hb (by simp)
    have hf := (hphase.of_leads (a := a) (by rw [ha]; rfl)).1 b hba
    rw [ha, hb] at hf
    exact hf.symm
  · intro a ha
    obtain ⟨x, hx, he, -⟩ := hphase.goes hplaces hwakeful ha
    exact ⟨x, hx, he⟩

instance (s : PauseState A) (x : PauseAction A) : Decidable (Serial s x) :=
  match x with
  | .begin_ _ _ => inferInstanceAs (Decidable (∀ b, (s.pc b).onEach = false))
  | .lockCom _ => inferInstanceAs (Decidable (∀ b, (s.pc b).paused = false))
  | .beginEach _ =>
    inferInstanceAs (Decidable (∀ b, (s.pc b).onEach = false ∧ (s.pc b).paused = false))
  | .call a true =>
    show Decidable (match s.pc a with
      | .calling .whilePaused _ => ∀ b, (s.pc b).paused = false
      | _ => True) from
    match s.pc a with
    | .calling .whilePaused _ => inferInstanceAs (Decidable (∀ b, (s.pc b).paused = false))
    | .calling .whilePaused2 _ | .top | .atRestLock | .atRest _ | .epoll | .user | .pauseCmd _
    | .resumeWait _ _ | .eachCmd _ | .eachResumeWait _ _ | .locked _ _ | .writing _ _ _
    | .pauseWait _ _ _ | .doneWait _ _ | .eachWait _ _ => isTrue trivial
  | .call _ false | .write _ | .test _ | .wake _ | .spurious _ | .takePause _ | .count _ _
  | .top _ | .lockAtRest _ | .runAtRest _ | .endAtRest _ | .event _ | .finish _ | .takeEach _
  | .exec _ _ => isTrue trivial

/-- Two io threads; the second one is paused twice, by `while_paused` and by `while_paused2`. -/
theorem handshake_holds_twice : ∃ s : PauseState (Fin 2), HandshakeHolds (fun _ => true) s ∧
    s.returned = [0] ∧ s.pc 0 = .calling .whilePaused2 1 := by
  have h : ∃ s, (pauseMachine fun _ : Fin 2 => true).Reachable Serial s ∧
      decide (s.returned = [0] ∧ s.pc 0 = .calling .whilePaused2 1) = true := by
    apply Machine.reachable_of_replay (l := [.top 0, .event 0, .top 1,
      .begin_ .whilePaused 0, .lockCom 0, .write 0, .test 0, .takePause 1, .count 1 (some 0),
      .wake 0, .call 0 false, .wake 1, .top 1,
      .begin_ .whilePaused2 0, .lockCom 0, .write 0, .test 0, .takePause 1, .count 1 (some 0),
      .wake 0])
    decide +kernel
  obtain ⟨s, hs, hstate⟩ := h
  exact ⟨s, handshake_holds hs, of_decide_eq_true hstate⟩

/-- A second `while_paused` starts before the io thread of the first one has noticed that it was
resumed: the io thread goes on waiting, nobody reads the command of the second pause, and both
threads wait for each other. -/
theorem while_paused_deadlock : ∃ s : PauseState (Fin 2),
    (pauseMachine fun _ : Fin 2 => true).Reachable Machine.anyStep s ∧
      (∀ x : PauseAction (Fin 2), x.ordinary = true → ¬s.enabled (fun _ => true) x) ∧
      ¬HandshakeHolds (fun _ => true) s := by
  have h : ∃ s, (pauseMachine fun _ : Fin 2 => true).Reachable Machine.anyStep s ∧
      decide (s.pc 0 = .pauseWait .whilePaused 1 true ∧ s.pc 1 = .resumeWait 0 true) = true := by
    apply Machine.reachable_of_replay (l := [.top 0, .event 0, .top 1,
      .begin_ .whilePaused 0, .lockCom 0, .write 0, .test 0, .takePause 1, .count 1 (some 0),
      .wake 0, .call 0 false,
      .begin_ .whilePaused 0, .lockCom 0, .write 0, .test 0, .wake 1])
    decide +kernel
  obtain ⟨s, hs, hstate⟩ := h
  obtain ⟨h0, h1⟩ := of_decide_eq_true hstate
  have hpc : ∀ a, s.pc a = .pauseWait .whilePaused 1 true ∨ s.pc a = .resumeWait 0 true :=
    Fin.forall_fin_two.mpr ⟨.inl h0, .inr h1⟩
  refine ⟨s, hs, ?_, ?_⟩
  · intro x hx he
    obtain ⟨s', hm⟩ : ∃ s', Moves (fun _ => true) s x s' := ⟨_, moves_of_enabled he⟩
    -- No move but a wakeup without a notification starts where the two threads sleep.
    obtain hpc | hpc := hpc x.actor <;> cases hm <;>
      simp_all [PauseAction.ordinary]
  · intro hholds
    exact absurd (hholds.noEarlier 0 .whilePaused 1 true h0 1 0 true h1) (by decide)

end Anon.IoDispatch
