import Anon.IoDispatch.HandshakeTheorems

/-!
# `on_each` runs once on each io thread

In a run in which the calls come one after the other, an `on_each` that returns true has executed
its function once on every io thread, its function object is deleted once, after its last use, and
the threads that took part go on.

* `Eachs`: what has been executed and deleted, for the call in progress and for the ones that
  returned.
-/

namespace Anon.IoDispatch

open PauseState

variable {A : Type} [Fintype A] [DecidableEq A] {io : A → Bool} {s s' : PauseState A}
  {x : PauseAction A} {a b : A}

/-! ## The account of the executions -/

/-- The call of a thread that waits in `on_each`. -/
def Pc.eachOf : Pc → Option ℕ
  | eachWait c _ => some c
  | _ => none

theorem Pc.eachOf_awake (pc : Pc) : pc.awake.eachOf = pc.eachOf := by
  cases pc <;> rfl

theorem Pc.eachOf_eq {pc : Pc} {c : ℕ} (h : pc.eachOf = some c) :
    ∃ asleep, pc = .eachWait c asleep := by
  cases pc <;> simp [Pc.eachOf] at h ⊢
  exact h

theorem Pc.leads_of_eachOf {pc : Pc} {c : ℕ} (h : pc.eachOf = some c) : pc.leads = true := by
  obtain ⟨asleep, rfl⟩ := Pc.eachOf_eq h
  rfl

/-- How often the function of the call `c` was executed by the thread `b`. -/
def PauseState.executions (s : PauseState A) (c : ℕ) (b : A) : ℕ := s.executed.count (c, b)

/-- While the thread `l` waits in the call `c`, its function was executed by the threads that wait
to be resumed, and its function object is deleted once all are counted. -/
structure Open (io : A → Bool) (s : PauseState A) (c : ℕ) : Prop where
  lt : c < s.calls
  not_returned : c ∉ s.eachReturned
  executions : ∀ b, s.executions c b = if (s.pc b).paused then 1 else 0
  object : c ∈ s.objects
  freed : c ∈ s.freed ↔ s.numPaused = numThreads io

/-- What has been executed and deleted. -/
structure Eachs (io : A → Bool) (s : PauseState A) : Prop where
  fresh : ∀ c, s.calls ≤ c →
    (∀ b, s.executions c b = 0) ∧ c ∉ s.objects ∧ c ∉ s.freed ∧ c ∉ s.eachReturned
  waiting : ∀ l c, (s.pc l).eachOf = some c → Open io s c
  returned : ∀ c ∈ s.eachReturned,
    (∀ b, s.executions c b = if io b then 1 else 0) ∧ (c ∈ s.objects → c ∈ s.freed)
  freed_nodup : s.freed.Nodup

/-- A step that executes and deletes nothing and returns from no `on_each`. -/
structure EachKept (s s' : PauseState A) : Prop where
  calls : s.calls ≤ s'.calls
  executed : s'.executed = s.executed
  objects : s'.objects = s.objects
  freed : s'.freed = s.freed
  returned : s'.eachReturned = s.eachReturned

omit [DecidableEq A] in
/-- Nothing happens to the calls if the ones that wait see no thread come or go. -/
theorem Eachs.frame [DecidableEq A] (h : Eachs io s) (hkept : EachKept s s')
    (hwaiting : ∀ l c, (s'.pc l).eachOf = some c → (s.pc l).eachOf = some c ∧
      s'.numPaused = s.numPaused ∧ ∀ b, (s'.pc b).paused = (s.pc b).paused) : Eachs io s' := by
  obtain ⟨hcalls, hexecuted, hobjects, hfreed, hreturned⟩ := hkept
  have hexec : ∀ c b, s'.executions c b = s.executions c b := by
    intro c b
    rw [executions, hexecuted, executions]
  constructor
  · intro c hc
    rw [hobjects, hfreed, hreturned]
    obtain ⟨hzero, hrest⟩ := h.fresh c (hcalls.trans hc)
    exact ⟨fun b => (hexec c b).trans (hzero b), hrest⟩
  · intro l c hl
    obtain ⟨hl, hn, hpaused⟩ := hwaiting l c hl
    obtain ⟨hlt, hnot, hcount, hobject, hfree⟩ := h.waiting l c hl
    refine ⟨hlt.trans_le hcalls, hreturned ▸ hnot, fun b => ?_, hobjects ▸ hobject, ?_⟩
    · rw [hexec, hpaused]
      exact hcount b
    · rw [hfreed, hn]
      exact hfree
  · rw [hobjects, hfreed, hreturned]
    intro c hc
    obtain ⟨hcount, hfree⟩ := h.returned c hc
    exact ⟨fun b => (hexec c b).trans (hcount b), hfree⟩
  · rw [hfreed]
    exact h.freed_nodup

/-- A step while no other thread waits in an `on_each`. -/
theorem Eachs.frame_of_none (h : Eachs io s) (hp : Places io s) (hm : Moves io s x s')
    (hkept : EachKept s s') (hnone : ∀ l c, l ≠ x.actor → (s.pc l).eachOf ≠ some c)
    (hactor : (s'.pc x.actor).eachOf = none) : Eachs io s' := by
  refine h.frame hkept fun l c hl => ?_
  by_cases hlx : l = x.actor
  · rw [hlx, hactor] at hl
    exact absurd hl (by simp)
  · rw [role_congr Pc.eachOf_awake (hm.awake_of_ne hp hlx)] at hl
    exact absurd hl (hnone l c hlx)

omit [DecidableEq A] in
/-- Nobody waits in an `on_each` while another thread leads a call. -/
theorem Phase.eachOf_ne_of_leads (h : Phase io s) (ha : (s.pc a).leads = true) (l : A) (c : ℕ)
    (hla : l ≠ a) : (s.pc l).eachOf ≠ some c := by
  intro hl
  exact hla (h.leads_unique ha (Pc.leads_of_eachOf hl))

omit [DecidableEq A] in
/-- Nobody waits in an `on_each` that another thread does not follow. -/
theorem Phase.eachOf_ne_of_not_follows (h : Phase io s)
    (ha : ∀ c asleep, ¬(Pc.eachWait c asleep).follows (s.pc a)) (l : A) (c : ℕ) (hla : l ≠ a) :
    (s.pc l).eachOf ≠ some c := by
  intro hl
  obtain ⟨asleep, heq⟩ := Pc.eachOf_eq hl
  have hf := (h.of_leads (Pc.leads_of_eachOf hl)).1 a hla.symm
  rw [heq] at hf
  exact ha c asleep hf

/-- A step aside. -/
theorem Eachs.frame_of_aside (h : Eachs io s) (hkept : EachKept s s')
    (hpc : ∀ b, Aside (s.pc b) (s'.pc b)) (hn : s'.numPaused = s.numPaused) : Eachs io s' := by
  refine h.frame hkept fun l c hl => ⟨?_, hn, fun b => (hpc b).paused⟩
  obtain hawake | ⟨-, hneutral⟩ := hpc l
  · rw [← role_congr Pc.eachOf_awake hawake]
    exact hl
  · obtain ⟨asleep, hl⟩ := Pc.eachOf_eq hl
    rw [hl] at hneutral
    exact absurd hneutral (by simp)

/-! ## The steps of `on_each` -/

/-- An io thread alone has no other thread to wait for. -/
theorem io_of_numThreads_le (h : ¬ioWeight (io a) < numThreads io) (b : A) :
    io b = true ↔ b = a ∧ io a = true := by
  by_cases hba : b = a
  · simp [hba]
  · simp only [hba, false_and, iff_false]
    intro hio
    have hadd := add_le_count (f := io) ioWeight_nonneg hba
    rw [hio] at hadd
    have hone : ioWeight true = 1 := rfl
    rw [hone] at hadd
    exact h (by rw [numThreads]; omega)

omit [Fintype A] in
/-- What the caller executes when all other threads are counted. -/
theorem executions_endEach (c d : ℕ) (b : A) : (s.endEach io a c).executions d b =
    s.executions d b + if d = c ∧ b = a ∧ io a = true then 1 else 0 := by
  simp only [endEach, executions, setPc, mapPc]
  cases hio : io a with
  | false => simp
  | true =>
    rw [if_pos rfl, List.count_cons]
    by_cases hdb : d = c ∧ b = a
    · simp [hdb.1, hdb.2]
    · have hne : ((c, a) == (d, b)) = false := by
        rw [beq_eq_false_iff_ne]
        intro heq
        exact hdb ⟨(Prod.mk.inj heq).1.symm, (Prod.mk.inj heq).2.symm⟩
      rw [hne, if_neg Bool.false_ne_true, if_neg fun hall => hdb ⟨hall.1, hall.2.1⟩]

/-- The calls that have returned have a number. -/
theorem Eachs.returned_lt (h : Eachs io s) {c : ℕ} (hc : c ∈ s.eachReturned) : c < s.calls := by
  by_contra hle
  exact (h.fresh c (not_lt.mp hle)).2.2.2 hc

theorem Eachs.beginEach (h : Eachs io s) (hphase : Phase io s) (hp : Places io s)
    (hm : Moves io s (.beginEach a) (s.beginEachNext io a)) (ho : s.outer = none)
    (hno : ∀ b, (s.pc b).onEach = false ∧ (s.pc b).paused = false) :
    Eachs io (s.beginEachNext io a) := by
  obtain ⟨hneutral, -⟩ := hphase.neutral_of_free hp ho hno
  obtain ⟨hzero, hnotobject, hnotfreed, hnotreturned⟩ := h.fresh s.calls le_rfl
  -- Nobody else waits in an `on_each`.
  have hnone : ∀ l c, l ≠ a → ((s.beginEachNext io a).pc l).eachOf ≠ some c := by
    intro l c hl heach
    rw [role_congr Pc.eachOf_awake (hm.awake_of_ne hp hl)] at heach
    obtain ⟨asleep, heq⟩ := Pc.eachOf_eq heach
    have hn := hneutral l
    rw [heq] at hn
    exact absurd hn (by simp)
  by_cases hN : ioWeight (io a) < numThreads io
  · simp only [beginEachNext, if_pos hN] at hnone ⊢
    constructor
    · intro c hc
      have hc' : s.calls + 1 ≤ c := hc
      obtain ⟨hzero, hobject, hrest⟩ := h.fresh c (by omega)
      refine ⟨hzero, ?_, hrest⟩
      exact List.not_mem_cons_of_ne_of_not_mem (by omega) hobject
    · intro l c hl
      by_cases hla : l = a
      · obtain rfl : s.calls = c := by simpa [hla, Pc.eachOf] using hl
        refine ⟨Nat.lt_succ_self _, hnotreturned, fun b => ?_, List.mem_cons_self, ?_⟩
        · refine (hzero b).trans (if_neg ?_).symm
          revert b
          refine forall_update (R := fun _ (pc : Pc) => ¬pc.paused = true) (fun b => ?_) (by simp)
          rw [(hno b).2]
          exact Bool.false_ne_true
        · exact iff_of_false hnotfreed (ne_of_lt hN)
      · exact absurd hl (hnone l c hla)
    · intro c hc
      obtain ⟨hcount, hfree⟩ := h.returned c hc
      refine ⟨hcount, fun hobject => hfree ((List.mem_cons.mp hobject).resolve_left ?_)⟩
      exact ne_of_lt (h.returned_lt hc)
    · exact h.freed_nodup
  · simp only [beginEachNext, if_neg hN] at hnone ⊢
    constructor
    · intro c hc
      have hc' : s.calls + 1 ≤ c := hc
      obtain ⟨hzero, hobject, hfreed, hreturned⟩ := h.fresh c (by omega)
      refine ⟨fun b => ?_, hobject, hfreed, ?_⟩
      · rw [executions_endEach, if_neg fun hall => absurd hall.1 (by omega)]
        exact hzero b
      · exact List.not_mem_cons_of_ne_of_not_mem (by omega) hreturned
    · intro l c hl
      by_cases hla : l = a
      · rw [hla] at hl
        exact absurd hl (by simp [endEach, Pc.eachOf])
      · exact absurd hl (hnone l c hla)
    · intro c hc
      obtain rfl | hc := List.mem_cons.mp hc
      · refine ⟨fun b => ?_, fun hobject => absurd hobject hnotobject⟩
        rw [executions_endEach]
        simp only [true_and, io_of_numThreads_le hN b]
        exact Nat.add_eq_right.mpr (hzero b)
      · obtain ⟨hcount, hfree⟩ := h.returned c hc
        refine ⟨fun b => ?_, hfree⟩
        rw [executions_endEach, if_neg fun hall => absurd hall.1 (ne_of_lt (h.returned_lt hc))]
        exact hcount b
    · exact h.freed_nodup

/-- The caller returns when all io threads are counted. -/
theorem Eachs.eachReturns (h : Eachs io s) (hphase : Phase io s) (hp : Places io s)
    {c : ℕ} (ha : s.pc a = .eachWait c false) (hn : s.numPaused = numThreads io)
    (hm : Moves io s (.wake a) (s.endEach io a c)) : Eachs io (s.endEach io a c) := by
  have hlead : (s.pc a).leads = true := by rw [ha]; rfl
  obtain ⟨hlt, hnot, hcount, hobject, hfree⟩ := h.waiting a c (by rw [ha]; rfl)
  have hsum : ioWeight (io a) + count Pc.pausedWeight s.pc = numThreads io := by
    obtain ⟨-, haccount⟩ := hphase.of_leads hlead
    rw [ha] at haccount
    rw [← Eaching.counted haccount, hn]
  constructor
  · intro d hd
    obtain ⟨hzero, hobject, hfreed, hreturned⟩ := h.fresh d hd
    have hdc : d ≠ c := fun hdc => absurd (hdc ▸ hd) (not_le.mpr hlt)
    refine ⟨fun b => ?_, hobject, hfreed, List.not_mem_cons_of_ne_of_not_mem hdc hreturned⟩
    rw [executions_endEach, if_neg fun hall => hdc hall.1]
    exact hzero b
  · intro l d hl
    by_cases hla : l = a
    · rw [hla] at hl
      exact absurd hl (by simp [endEach, Pc.eachOf])
    · rw [role_congr Pc.eachOf_awake (hm.awake_of_ne hp hla)] at hl
      exact absurd hl (hphase.eachOf_ne_of_leads hlead l d hla)
  · intro d hd
    obtain rfl | hd := List.mem_cons.mp hd
    · refine ⟨fun b => ?_, fun _ => hfree.mpr hn⟩
      rw [executions_endEach, hcount b]
      by_cases hba : b = a
      · subst hba
        rw [ha]
        simp
      · -- Another thread has executed the function if and only if it is an io thread.
        have hiff : (s.pc b).paused = true ↔ io b = true := by
          constructor
          · intro hb
            exact hp.ioOnly b (by cases hpc : s.pc b <;> simp [hpc] at hb <;> rfl)
          · exact hp.paused_of_eq hlead hsum hba
        have hne : ¬(d = d ∧ b = a ∧ io a = true) := fun hall => hba hall.2.1
        rw [if_neg hne, add_zero]
        exact if_congr hiff rfl rfl
    · have hdc : d ≠ c := fun hdc => hnot (hdc ▸ hd)
      obtain ⟨hcount, hfree⟩ := h.returned d hd
      refine ⟨fun b => ?_, hfree⟩
      rw [executions_endEach, if_neg fun hall => hdc hall.1]
      exact hcount b
  · exact h.freed_nodup

/-- An io thread executes the function and is counted. -/
theorem Eachs.exec (h : Eachs io s) (hphase : Phase io s) (hp : Places io s) {w : Option A}
    {c : ℕ} (ha : s.pc a = .eachCmd c) (hm : Moves io s (.exec a w) s')
    (hpc : s'.pc a = .eachResumeWait c true) (hcalls : s'.calls = s.calls)
    (hexecuted : s'.executed = (c, a) :: s.executed) (hobjects : s'.objects = s.objects)
    (hreturned : s'.eachReturned = s.eachReturned)
    (hfreed : s'.freed = if s'.numPaused = numThreads io then c :: s.freed else s.freed) :
    Eachs io s' := by
  obtain ⟨l, asleep, hal, hl, hfollows, hcounted, -, -, hN⟩ := hphase.of_eachCmd ha
  obtain ⟨hlt, hnot, hcount, hobject, hfree⟩ := h.waiting l c (by rw [hl]; rfl)
  have hnotfreed : c ∉ s.freed := fun hmem => hN (hfree.mp hmem)
  have hexec : ∀ d b, s'.executions d b = s.executions d b + if d = c ∧ b = a then 1 else 0 := by
    intro d b
    rw [executions, hexecuted, List.count_cons, executions]
    refine congrArg _ (if_congr ?_ rfl rfl)
    rw [beq_iff_eq, Prod.mk.injEq]
    exact and_congr eq_comm eq_comm
  have hsub : ∀ d, d ≠ c → (d ∈ s'.freed ↔ d ∈ s.freed) := by
    intro d hdc
    rw [hfreed]
    split
    · rw [List.mem_cons, or_iff_right hdc]
    · rfl
  constructor
  · intro d hd
    rw [hcalls] at hd
    have hdc : d ≠ c := fun hdc => absurd (hdc ▸ hd) (not_le.mpr hlt)
    obtain ⟨hzero, hobject, hdfreed, hdreturned⟩ := h.fresh d hd
    refine ⟨fun b => ?_, hobjects ▸ hobject, fun hmem => hdfreed ((hsub d hdc).mp hmem),
      hreturned ▸ hdreturned⟩
    rw [hexec, if_neg fun hall => hdc hall.1]
    exact hzero b
  · intro l' d hl'
    have hla : l' ≠ a := by
      rintro rfl
      rw [hpc] at hl'
      exact absurd hl' (by simp [Pc.eachOf])
    rw [role_congr Pc.eachOf_awake (hm.awake_of_ne hp hla)] at hl'
    have hll : l' = l := hphase.leads_unique (by rw [hl]; rfl) (Pc.leads_of_eachOf hl')
    rw [hll, hl] at hl'
    obtain rfl : c = d := by simpa [Pc.eachOf] using hl'
    refine ⟨hcalls ▸ hlt, hreturned ▸ hnot, fun b => ?_, hobjects ▸ hobject, ?_⟩
    · rw [hexec, hcount b]
      by_cases hba : b = a
      · rw [hba, ha, hpc]
        simp
      · have hne : ¬(c = c ∧ b = a) := fun hall => hba hall.2
        rw [if_neg hne, add_zero, role_congr Pc.paused_awake (hm.awake_of_ne hp hba)]
    · rw [hfreed]
      split
      · next hlast => exact iff_of_true List.mem_cons_self hlast
      · next hmore => exact iff_of_false hnotfreed hmore
  · intro d hd
    rw [hreturned] at hd
    have hdc : d ≠ c := fun hdc => hnot (hdc ▸ hd)
    obtain ⟨hcount, hfree⟩ := h.returned d hd
    refine ⟨fun b => ?_, fun hobject => (hsub d hdc).mpr (hfree (hobjects ▸ hobject))⟩
    rw [hexec, if_neg fun hall => hdc hall.1]
    exact hcount b
  · rw [hfreed]
    split
    · exact List.nodup_cons.mpr ⟨hnotfreed, h.freed_nodup⟩
    · exact h.freed_nodup

/-- What a wakeup or a notification leaves alone. -/
theorem eachKept_resumed {p : ℕ} (ha : s.pc a = .resumeWait p false) (hn : s.numPaused = 0) :
    EachKept s (s.wakeNext io a) := by
  simp only [wakeNext, ha, if_pos hn]
  split <;> exact ⟨le_rfl, rfl, rfl, rfl, rfl⟩

theorem Eachs.step (h : Eachs io s) (hphase : Phase io s) (hp : Places io s)
    (hm : Moves io s x s') (hs : Serial s x) : Eachs io s' := by
  have hm' := hm
  cases hm with
  | begin_ k a ha ho hio =>
    refine h.frame_of_none hp hm' ⟨Nat.le_succ _, rfl, rfl, rfl, rfl⟩ ?_ (by simp [Pc.eachOf])
    intro l c hla hl
    obtain ⟨asleep, heq⟩ := Pc.eachOf_eq hl
    have hno := hs l
    rw [heq] at hno
    exact absurd hno (by simp)
  | beginEach a ha ho => exact h.beginEach hphase hp hm' ho hs
  | eachReturns a c ha ho hn => exact h.eachReturns hphase hp ha hn hm'
  | exec a w c ha ho hw =>
    refine h.exec hphase hp ha hm' (by simp) ?_ ?_ ?_ ?_ ?_
    all_goals
      simp only [passOn]
      split <;> cases w <;> simp [notifyOne, *]
  -- with another leader there is no call that waits
  | lockCom a k p ha hc | write a k p n ha hn | testCall a k p ha hn | testWait a k p ha hn
  | allPaused a k p ha hc hn | allDone a p ha hc hn =>
    have hlead : (s.pc a).leads = true := by rw [ha]; rfl
    exact h.frame_of_none hp hm' ⟨le_rfl, rfl, rfl, rfl, rfl⟩ (hphase.eachOf_ne_of_leads hlead)
      (by simp [Pc.eachOf])
  | callWhilePaused a p throws ha =>
    have hlead : (s.pc a).leads = true := by rw [ha]; rfl
    refine h.frame_of_none hp hm' ?_ (hphase.eachOf_ne_of_leads hlead) ?_
    · cases throws <;> exact ⟨le_rfl, rfl, rfl, rfl, rfl⟩
    · cases throws <;> simp [endWhilePaused, Pc.eachOf]
  | callWhilePaused2 a p throws ha =>
    have hlead : (s.pc a).leads = true := by rw [ha]; rfl
    refine h.frame_of_none hp hm' ?_ (hphase.eachOf_ne_of_leads hlead) ?_
    · simp only [endWhilePaused2]
      split <;> exact ⟨le_rfl, rfl, rfl, rfl, rfl⟩
    · simp only [endWhilePaused2]
      split <;> simp [Pc.eachOf]
  | resumed a p ha hc hn =>
    refine h.frame_of_none hp hm' (eachKept_resumed ha hn)
      (hphase.eachOf_ne_of_not_follows (by simp [ha])) ?_
    simp only [wakeNext, ha, if_pos hn]
    split <;> simp [Pc.eachOf, Pc.notifyResume2]
  -- the command is one of a caller that pauses, so no call waits
  | takePause a p rest hpipe ha harm =>
    refine h.frame_of_none hp hm' ⟨le_rfl, rfl, rfl, rfl, rfl⟩ (fun l c hla hl => ?_)
      (by simp [Pc.eachOf])
    obtain ⟨asleep, heq⟩ := Pc.eachOf_eq hl
    have haccount := (hphase.of_leads (Pc.leads_of_eachOf hl)).2
    obtain ⟨k, q, n, hpausing, -⟩ | ⟨d, asleep', -, hd⟩ :=
      haccount.command (d := .pause p) (by simp [hpipe])
    · rw [heq] at hpausing
      exact absurd hpausing (by simp [Pc.pausing])
    · exact absurd hd (by simp)
  | count a w p ha hc hw =>
    refine h.frame_of_none hp hm' ?_ (hphase.eachOf_ne_of_not_follows (by simp [ha])) ?_
    · simp only [countPaused]
      split <;> cases w <;> exact ⟨le_rfl, rfl, rfl, rfl, rfl⟩
    · simp [Pc.eachOf]
  | eachResumed a c ha ho hn =>
    refine h.frame_of_none hp hm' ⟨le_rfl, rfl, rfl, rfl, rfl⟩ (fun l d hla hl => ?_)
      (by simp [Pc.eachOf])
    -- A call that waits counts the paused thread.
    obtain ⟨asleep, heq⟩ := Pc.eachOf_eq hl
    have haccount := (hphase.of_leads (Pc.leads_of_eachOf hl)).2
    rw [heq] at haccount
    have hcounted := Eaching.counted haccount
    have hone := one_le_count_paused (s := s) (a := a) (by rw [ha]; rfl)
    have hweight := ioWeight_nonneg (io l)
    omega
  | takeEach a c rest hpipe ha harm =>
    refine h.frame ⟨le_rfl, rfl, rfl, rfl, rfl⟩ fun l d hl => ⟨?_, rfl, fun b => ?_⟩
    · by_cases hla : l = a
      · rw [hla] at hl
        exact absurd hl (by simp [Pc.eachOf])
      · rwa [role_congr Pc.eachOf_awake (hm'.awake_of_ne hp hla)] at hl
    · exact forall_update (R := fun b (pc : Pc) => pc.paused = (s.pc b).paused) (fun _ => rfl)
        (by rw [ha]; rfl) b
  -- A step aside.
  | spurious a pc ha =>
    exact h.frame_of_aside ⟨le_rfl, rfl, rfl, rfl, rfl⟩
      (aside_update (.inl (Pc.awake_of_spurious ha))) rfl
  | top a ha =>
    simp only [topNext]
    split
    · exact h.frame_of_aside ⟨le_rfl, rfl, rfl, rfl, rfl⟩ (aside_setPc ha (.inr ⟨rfl, rfl⟩)) rfl
    · split <;>
        exact h.frame_of_aside ⟨le_rfl, rfl, rfl, rfl, rfl⟩ (aside_setPc ha (.inr ⟨rfl, rfl⟩)) rfl
  | stillPaused a p ha hc hn | notAllPaused a k p ha hc hn | notAllDone a p ha hc hn
  | eachWaits a c ha ho hn | eachStillPaused a c ha ho hn =>
    exact h.frame_of_aside ⟨le_rfl, rfl, rfl, rfl, rfl⟩ (aside_setPc ha (.inl rfl)) rfl
  | lockAtRest a ha hc | runAtRest a f todo ha | endAtRest a ha | event a ha | finish a ha hio =>
    exact h.frame_of_aside ⟨le_rfl, rfl, rfl, rfl, rfl⟩ (aside_setPc ha (.inr ⟨rfl, rfl⟩)) rfl

/-! ## Once on each io thread -/

theorem eachs_init : Eachs io (pauseMachine io).init := by
  constructor
  · intro c _
    exact ⟨fun b => rfl, List.not_mem_nil, List.not_mem_nil, List.not_mem_nil⟩
  · intro l c hl
    simp only [pauseMachine] at hl
    split at hl <;> exact absurd hl (by simp [Pc.eachOf])
  · intro c hc
    exact absurd hc List.not_mem_nil
  · exact List.nodup_nil

/-- Both accounts hold in every state of a run of calls that come one after the other. -/
theorem eachs_of_reachable (hs : (pauseMachine io).Reachable Serial s) :
    Orderly io s ∧ Eachs io s := by
  refine hs.invariant (P := fun s => Orderly io s ∧ Eachs io s) ⟨orderly_init, eachs_init⟩ ?_
  intro s x h hserial he
  have hm := moves_of_enabled he
  exact ⟨h.1.step hserial he, h.2.step h.1.phase h.1.places hm hserial⟩

/-- What callers of `on_each` rely on, in one state of a run. -/
structure OnEachHolds (io : A → Bool) (s : PauseState A) : Prop where
  /-- The function of a call that returned true was executed once by every io thread. -/
  once : ∀ c ∈ s.eachReturned, ∀ b, s.executions c b = if io b then 1 else 0
  /-- No function object is deleted twice. -/
  freedOnce : s.freed.Nodup
  /-- A call that returned true leaves no function object behind. -/
  freed : ∀ c ∈ s.eachReturned, c ∈ s.objects → c ∈ s.freed
  /-- A deleted function object is in no command. -/
  unused : ∀ c ∈ s.freed, .onEach c ∉ s.pipe ∧ ∀ b, s.pc b ≠ .eachCmd c
  /-- A thread that took part in a call that returned true can go on. -/
  resumed : ∀ c ∈ s.eachReturned, ∀ b asleep, s.pc b = .eachResumeWait c asleep →
    s.numPaused = 0 ∧ s.wakeEnabled b

omit [DecidableEq A] in
/-- A command of an `on_each` belongs to a call that waits for more threads. -/
theorem Phase.of_eachCommand (h : Phase io s) {c : ℕ} (hc : .onEach c ∈ s.pipe) :
    ∃ l, (s.pc l).eachOf = some c ∧ s.numPaused ≠ numThreads io := by
  cases h with
  | quiet hquiet hpipe =>
    rw [hpipe] at hc
    exact absurd hc List.not_mem_nil
  | led l hfollows haccount =>
    obtain ⟨k, p, n, -, hp⟩ | ⟨d, asleep, hl, hd⟩ := haccount.command hc
    · exact absurd hp (by simp)
    · obtain rfl : c = d := by simpa using hd
      refine ⟨l, by rw [hl]; rfl, fun hN => ?_⟩
      rw [hl] at haccount
      obtain ⟨-, m, hm, hsum⟩ := haccount
      have hreaders : 0 ≤ count Pc.readerWeight s.pc := count_nonneg Pc.readerWeight_nonneg
      rw [if_pos hN] at hsum
      have hm0 : m = 0 := by omega
      rw [hm, hm0] at hc
      exact absurd hc List.not_mem_nil

/-- In a run of calls that come one after the other an `on_each` that returns true has executed
its function once on each io thread, has deleted its function object, and blocks no thread. -/
theorem on_each_holds (hs : (pauseMachine io).Reachable Serial s) : OnEachHolds io s := by
  obtain ⟨⟨hplaces, hphase, hwakeful, -⟩, heachs⟩ := eachs_of_reachable hs
  refine ⟨fun c hc => (heachs.returned c hc).1, heachs.freed_nodup,
    fun c hc => (heachs.returned c hc).2, ?_, ?_⟩
  · intro c hc
    have hwaits : ∀ l, (s.pc l).eachOf = some c → s.numPaused = numThreads io := by
      intro l hl
      exact (heachs.waiting l c hl).freed.mp hc
    constructor
    · intro hcommand
      obtain ⟨l, hl, hN⟩ := hphase.of_eachCommand hcommand
      exact hN (hwaits l hl)
    · intro b hb
      obtain ⟨l, asleep, -, hl, -, -, -, -, hN⟩ := hphase.of_eachCmd hb
      exact hN (hwaits l (by rw [hl]; rfl))
  · intro c hc b asleep hb
    cases hphase with
    | led l hfollows haccount =>
      -- The leader would be the caller, which has returned.
      have hbl := ne_of_not_leads (a := b) haccount (by rw [hb]; rfl)
      have hf := hfollows b hbl
      have heach : (s.pc l).eachOf = some c := by
        rw [hb] at hf
        cases hl : s.pc l <;> simp [hl, Pc.eachOf] at hf ⊢
        exact hf
      exact absurd hc (heachs.waiting l c heach).not_returned
    | quiet hquiet hpipe =>
      have hn : s.numPaused = 0 := by
        have hq := hquiet b
        rw [hb] at hq
        simpa using hq
      have hasleep : asleep = false := by
        have hmay := hwakeful b
        rw [hb] at hmay
        cases asleep with
        | false => rfl
        | true => exact absurd hn hmay
      refine ⟨hn, ?_⟩
      rw [wakeEnabled, hb, hasleep]
      by_contra ho
      obtain ⟨o, ho⟩ := Option.ne_none_iff_exists'.mp ho
      have hplace := (hplaces.outer o).mp ho
      have hq := hquiet o
      cases hpc : s.pc o <;> simp [hpc, Pc.holdsOuter] at hplace hq

/-- Two io threads, one of which calls `on_each`. -/
theorem on_each_holds_pair : ∃ s : PauseState (Fin 2), OnEachHolds (fun _ => true) s ∧
    s.eachReturned = [0] ∧ s.pc 1 = .eachResumeWait 0 false := by
  have h : ∃ s, (pauseMachine fun _ : Fin 2 => true).Reachable Serial s ∧
      decide (s.eachReturned = [0] ∧ s.pc 1 = .eachResumeWait 0 false) = true := by
    apply Machine.reachable_of_replay (l := [.top 0, .event 0, .top 1,
      .beginEach 0, .takeEach 1, .exec 1 (some 0), .wake 0])
    decide +kernel
  obtain ⟨s, hs, hstate⟩ := h
  exact ⟨s, on_each_holds hs, of_decide_eq_true hstate⟩

/-- One io thread and two other threads that call `on_each`. The wait of the first caller has
released `pause_outer_mutex_`, so the second one waits too; the io thread counts itself for the
first function, and `notify_one` wakes the second caller, whose function nobody has executed. -/
theorem on_each_returns_unexecuted : ∃ s : PauseState (Fin 3),
    (pauseMachine fun a : Fin 3 => a = 0).Reachable Machine.anyStep s ∧
      ¬OnEachHolds (fun a => a = 0) s := by
  have h : ∃ s, (pauseMachine fun a : Fin 3 => a = 0).Reachable Machine.anyStep s ∧
      decide (1 ∈ s.eachReturned ∧ s.executions 1 0 = 0) = true := by
    apply Machine.reachable_of_replay (l := [.top 0, .beginEach 1, .beginEach 2,
      .takeEach 0, .exec 0 (some 2), .wake 2])
    decide +kernel
  obtain ⟨s, hs, hstate⟩ := h
  obtain ⟨hreturned, hzero⟩ := of_decide_eq_true hstate
  refine ⟨s, hs, fun hholds => ?_⟩
  have hone := hholds.once 1 hreturned 0
  rw [hzero] at hone
  exact absurd hone (by decide)

end Anon.IoDispatch
