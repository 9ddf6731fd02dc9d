import Anon.IoDispatch.Pause
import Anon.Lib.Lock

/-!
# Steps and places of the io threads

* `Moves` says once what an action can do; every invariant is a case analysis over it.
* `Places`: which threads can be where, who holds the two mutexes, and when the control pipe is
  armed. It holds in every state of every run.
-/

namespace Anon.IoDispatch

open PauseState

variable {A : Type} [Fintype A] [DecidableEq A] {io : A → Bool} {s s' : PauseState A}
  {x : PauseAction A}

/-! ## What a step can do -/

/-- The thread that acts. -/
@[simp] def PauseAction.actor : PauseAction A → A
  | begin_ _ a | lockCom a | write a | test a | call a _ | wake a | spurious a | takePause a
  | count a _ | top a | lockAtRest a | runAtRest a | endAtRest a | event a | finish a
  | beginEach a | takeEach a | exec a _ => a

/-- One step of the machine, with what its guard gives and the state it leads to. -/
inductive Moves (io : A → Bool) (s : PauseState A) : PauseAction A → PauseState A → Prop
  | begin_ (k : PauseKind) (a : A) (ha : s.pc a = .user) (ho : s.outer = none)
      (hio : k.fromIo = true → io a = true) :
      Moves io s (.begin_ k a)
        ({ s with outer := some a, calls := s.calls + 1 }.setPc a (.locked k s.calls))
  | lockCom (a : A) (k : PauseKind) (p : ℕ) (ha : s.pc a = .locked k p) (hc : s.com = none) :
      Moves io s (.lockCom a) ({ s with com := some a, numPaused := own io k a }.setPc a
        (.writing k p (numThreads io - own io k a).toNat))
  | write (a : A) (k : PauseKind) (p n : ℕ) (ha : s.pc a = .writing k p n) (hn : n ≠ 0) :
      Moves io s (.write a)
        ({ s with pipe := s.pipe ++ [Command.pause p] }.setPc a (.writing k p (n - 1)))
  | testCall (a : A) (k : PauseKind) (p : ℕ) (ha : s.pc a = .writing k p 0)
      (hn : s.numPaused = numThreads io) : Moves io s (.test a) (s.setPc a (.calling k p))
  | testWait (a : A) (k : PauseKind) (p : ℕ) (ha : s.pc a = .writing k p 0)
      (hn : s.numPaused ≠ numThreads io) :
      Moves io s (.test a) ({ s with com := none }.setPc a (.pauseWait k p true))
  | callWhilePaused (a : A) (p : ℕ) (throws : Bool) (ha : s.pc a = .calling .whilePaused p) :
      Moves io s (.call a throws) (s.endWhilePaused a p throws)
  | callWhilePaused2 (a : A) (p : ℕ) (throws : Bool) (ha : s.pc a = .calling .whilePaused2 p) :
      Moves io s (.call a throws) (s.endWhilePaused2 io a p throws)
  | resumed (a : A) (p : ℕ) (ha : s.pc a = .resumeWait p false) (hc : s.com = none)
      (hn : s.numPaused = 0) : Moves io s (.wake a) (s.wakeNext io a)
  | stillPaused (a : A) (p : ℕ) (ha : s.pc a = .resumeWait p false) (hc : s.com = none)
      (hn : s.numPaused ≠ 0) : Moves io s (.wake a) (s.setPc a (.resumeWait p true))
  | allPaused (a : A) (k : PauseKind) (p : ℕ) (ha : s.pc a = .pauseWait k p false)
      (hc : s.com = none) (hn : s.numPaused = numThreads io) :
      Moves io s (.wake a) ({ s with com := some a }.setPc a (.calling k p))
  | notAllPaused (a : A) (k : PauseKind) (p : ℕ) (ha : s.pc a = .pauseWait k p false)
      (hc : s.com = none) (hn : s.numPaused ≠ numThreads io) :
      Moves io s (.wake a) (s.setPc a (.pauseWait k p true))
  | allDone (a : A) (p : ℕ) (ha : s.pc a = .doneWait p false) (hc : s.com = none)
      (hn : s.numPauseDone = numThreads io) :
      Moves io s (.wake a) ({ s with outer := none }.return_ a p)
  | notAllDone (a : A) (p : ℕ) (ha : s.pc a = .doneWait p false) (hc : s.com = none)
      (hn : s.numPauseDone ≠ numThreads io) :
      Moves io s (.wake a) (s.setPc a (.doneWait p true))
  | eachReturns (a : A) (c : ℕ) (ha : s.pc a = .eachWait c false) (ho : s.outer = none)
      (hn : s.numPaused = numThreads io) : Moves io s (.wake a) (s.endEach io a c)
  | eachWaits (a : A) (c : ℕ) (ha : s.pc a = .eachWait c false) (ho : s.outer = none)
      (hn : s.numPaused ≠ numThreads io) : Moves io s (.wake a) (s.setPc a (.eachWait c true))
  | eachResumed (a : A) (c : ℕ) (ha : s.pc a = .eachResumeWait c false) (ho : s.outer = none)
      (hn : s.numPaused = 0) : Moves io s (.wake a) (s.setPc a .top)
  | eachStillPaused (a : A) (c : ℕ) (ha : s.pc a = .eachResumeWait c false) (ho : s.outer = none)
      (hn : s.numPaused ≠ 0) : Moves io s (.wake a) (s.setPc a (.eachResumeWait c true))
  | spurious (a : A) (pc : Pc) (ha : (s.pc a).spurious = some pc) :
      Moves io s (.spurious a) (s.setPc a pc)
  | takePause (a : A) (p : ℕ) (rest : List Command) (hp : s.pipe = .pause p :: rest)
      (ha : s.pc a = .epoll) (harm : s.armed = true) :
      Moves io s (.takePause a)
        ({ s with pipe := rest, armed := false }.setPc a (.pauseCmd p))
  | count (a : A) (w : Option A) (p : ℕ) (ha : s.pc a = .pauseCmd p) (hc : s.com = none)
      (hw : s.canNotify w) :
      Moves io s (.count a w)
        (({ s with armed := true }.countPaused io w).setPc a (.resumeWait p true))
  | top (a : A) (ha : s.pc a = .top) : Moves io s (.top a) (s.topNext a)
  | lockAtRest (a : A) (ha : s.pc a = .atRestLock) (hc : s.com = none) :
      Moves io s (.lockAtRest a) ({ s with com := some a }.setPc a (.atRest s.atRestFunctions))
  | runAtRest (a : A) (f : ℕ) (todo : List ℕ) (ha : s.pc a = .atRest (f :: todo)) :
      Moves io s (.runAtRest a) ({ s with ran := f :: s.ran }.setPc a (.atRest todo))
  | endAtRest (a : A) (ha : s.pc a = .atRest []) :
      Moves io s (.endAtRest a) ({ s with atRestFunctions := [], com := none }.setPc a .epoll)
  | event (a : A) (ha : s.pc a = .epoll) : Moves io s (.event a) (s.setPc a .user)
  | finish (a : A) (ha : s.pc a = .user) (hio : io a = true) :
      Moves io s (.finish a) (s.setPc a .top)
  | beginEach (a : A) (ha : s.pc a = .user) (ho : s.outer = none) :
      Moves io s (.beginEach a) (s.beginEachNext io a)
  | takeEach (a : A) (c : ℕ) (rest : List Command) (hp : s.pipe = .onEach c :: rest)
      (ha : s.pc a = .epoll) (harm : s.armed = true) :
      Moves io s (.takeEach a) ({ s with pipe := rest, armed := false }.setPc a (.eachCmd c))
  | exec (a : A) (w : Option A) (c : ℕ) (ha : s.pc a = .eachCmd c) (ho : s.outer = none)
      (hw : s.canNotify w) :
      Moves io s (.exec a w)
        (({ s with armed := true, executed := (c, a) :: s.executed }.passOn io c w).setPc a
          (.eachResumeWait c true))

theorem moves_wake {a : A} (h : s.wakeEnabled a) : Moves io s (.wake a) (s.wakeNext io a) := by
  unfold wakeEnabled at h
  split at h
  · next p ha =>
    by_cases hn : s.numPaused = 0
    · exact .resumed a p ha h hn
    · simp only [wakeNext, ha, if_neg hn]
      exact .stillPaused a p ha h hn
  · next k p ha =>
    by_cases hn : s.numPaused = numThreads io
    · simp only [wakeNext, ha, if_pos hn]
      exact .allPaused a k p ha h hn
    · simp only [wakeNext, ha, if_neg hn]
      exact .notAllPaused a k p ha h hn
  · next p ha =>
    by_cases hn : s.numPauseDone = numThreads io
    · simp only [wakeNext, ha, if_pos hn]
      exact .allDone a p ha h hn
    · simp only [wakeNext, ha, if_neg hn]
      exact .notAllDone a p ha h hn
  · next c ha =>
    by_cases hn : s.numPaused = numThreads io
    · simp only [wakeNext, ha, if_pos hn]
      exact .eachReturns a c ha h hn
    · simp only [wakeNext, ha, if_neg hn]
      exact .eachWaits a c ha h hn
  · next c ha =>
    by_cases hn : s.numPaused = 0
    · simp only [wakeNext, ha, if_pos hn]
      exact .eachResumed a c ha h hn
    · simp only [wakeNext, ha, if_neg hn]
      exact .eachStillPaused a c ha h hn
  · exact h.elim

/-- Every enabled action is one of the moves. -/
theorem moves_of_enabled (h : s.enabled io x) : Moves io s x (s.next io x) := by
  cases x with
  | begin_ k a => exact .begin_ k a h.1 h.2.1 h.2.2
  | wake a => exact moves_wake h
  | top a => exact .top a h
  | lockAtRest a => exact .lockAtRest a h.1 h.2
  | endAtRest a => exact .endAtRest a h
  | event a => exact .event a h
  | finish a => exact .finish a h.1 h.2
  | beginEach a => exact .beginEach a h.1 h.2
  | lockCom a =>
    simp only [PauseState.enabled] at h
    split at h
    · next k p ha =>
      simp only [PauseState.next, ha]
      exact .lockCom a k p ha h
    · exact h.elim
  | write a =>
    simp only [PauseState.enabled] at h
    split at h
    · next k p n ha =>
      simp only [PauseState.next, ha]
      exact .write a k p n ha h
    · exact h.elim
  | test a =>
    simp only [PauseState.enabled] at h
    split at h
    · next k p n ha =>
      rw [h] at ha
      simp only [PauseState.next, ha]
      split
      · exact .testCall a k p ha ‹_›
      · exact .testWait a k p ha ‹_›
    · exact h.elim
  | call a throws =>
    simp only [PauseState.enabled] at h
    split at h
    · next k p ha =>
      simp only [PauseState.next, ha]
      cases k with
      | whilePaused => exact .callWhilePaused a p throws ha
      | whilePaused2 => exact .callWhilePaused2 a p throws ha
    · exact h.elim
  | spurious a =>
    obtain ⟨pc, hpc⟩ := Option.isSome_iff_exists.mp h
    simp only [PauseState.next, hpc]
    exact .spurious a pc hpc
  | takePause a =>
    simp only [PauseState.enabled] at h
    split at h
    · next p rest hp =>
      simp only [PauseState.next, hp]
      exact .takePause a p rest hp h.1 h.2
    · exact h.elim
  | count a w =>
    simp only [PauseState.enabled] at h
    split at h
    · next p ha =>
      simp only [PauseState.next, ha]
      exact .count a w p ha h.1 h.2
    · exact h.elim
  | runAtRest a =>
    simp only [PauseState.enabled] at h
    split at h
    · next todo ha =>
      cases todo with
      | nil => exact absurd rfl h
      | cons f todo =>
        simp only [PauseState.next, ha]
        exact .runAtRest a f todo ha
    · exact h.elim
  | takeEach a =>
    simp only [PauseState.enabled] at h
    split at h
    · next c rest hp =>
      simp only [PauseState.next, hp]
      exact .takeEach a c rest hp h.1 h.2
    · exact h.elim
  | exec a w =>
    simp only [PauseState.enabled] at h
    split at h
    · next c ha =>
      simp only [PauseState.next, ha]
      exact .exec a w c ha h.1 h.2
    · exact h.elim

/-! ## Who can be where -/

namespace Pc

/-- The thread has locked `pause_com_mutex_`. -/
def holdsCom : Pc → Bool
  | writing _ _ _ | calling _ _ | atRest _ => true
  | _ => false

/-- The thread has locked `pause_outer_mutex_`. -/
def holdsOuter : Pc → Bool
  | locked _ _ | writing _ _ _ | pauseWait _ _ _ | calling _ _ | doneWait _ _ => true
  | _ => false

/-- Only an io thread can be here. -/
def ioOnly : Pc → Bool
  | top | atRestLock | atRest _ | epoll | pauseCmd _ | resumeWait _ _ | eachCmd _
  | eachResumeWait _ _ => true
  | locked k _ | writing k _ _ | pauseWait k _ _ | calling k _ => k.fromIo
  | doneWait _ _ => true
  | _ => false

/-- One for a thread that has read a command and not yet armed the control pipe again. -/
def readerWeight : Pc → ℤ
  | pauseCmd _ | eachCmd _ => 1
  | _ => 0

/-- Where a thread is, whether or not it sleeps there. -/
def awake : Pc → Pc
  | resumeWait p _ => resumeWait p false
  | eachResumeWait c _ => eachResumeWait c false
  | pauseWait k p _ => pauseWait k p false
  | doneWait p _ => doneWait p false
  | eachWait c _ => eachWait c false
  | pc => pc

@[simp] theorem awake_notifyResume (pc : Pc) : pc.notifyResume.awake = pc.awake := by
  cases pc <;> rfl

@[simp] theorem awake_notifyResume2 (pc : Pc) : pc.notifyResume2.awake = pc.awake := by
  cases pc <;> rfl

@[simp] theorem awake_notifyPause (pc : Pc) : pc.notifyPause.awake = pc.awake := by
  cases pc <;> rfl

theorem awake_of_spurious {pc pc' : Pc} (h : pc.spurious = some pc') : pc'.awake = pc.awake := by
  unfold spurious at h
  split at h <;> simp only [Option.some.injEq, reduceCtorEq] at h
  all_goals
    rw [← h]
    rfl

theorem holdsCom_awake (pc : Pc) : pc.awake.holdsCom = pc.holdsCom := by
  cases pc <;> rfl

theorem holdsOuter_awake (pc : Pc) : pc.awake.holdsOuter = pc.holdsOuter := by
  cases pc <;> rfl

theorem ioOnly_awake (pc : Pc) : pc.awake.ioOnly = pc.ioOnly := by
  cases pc <;> rfl

theorem readerWeight_nonneg (pc : Pc) : 0 ≤ pc.readerWeight := by
  unfold readerWeight
  split <;> omega

theorem readerWeight_awake (pc : Pc) : pc.awake.readerWeight = pc.readerWeight := by
  cases pc <;> rfl

end Pc

/-- What does not depend on sleep is the same at two places that differ in nothing else. -/
theorem role_congr {β : Type} {q : Pc → β} (hq : ∀ pc : Pc, q pc.awake = q pc) {pc pc' : Pc}
    (h : pc'.awake = pc.awake) : q pc' = q pc := by
  rw [← hq pc', h, hq pc]

/-- One while the control pipe is not armed. -/
def disarmed : Bool → ℤ
  | true => 0
  | false => 1

/-- Who can be where, and who holds the two mutexes. -/
structure Places (io : A → Bool) (s : PauseState A) : Prop where
  com : Holds s.com Pc.holdsCom s.pc
  outer : Holds s.outer Pc.holdsOuter s.pc
  ioOnly : ∀ a, (s.pc a).ioOnly = true → io a = true
  reader : disarmed s.armed = count Pc.readerWeight s.pc

omit [DecidableEq A] in
/-- While a thread has read a command, the control pipe is not armed. -/
theorem Places.armed_eq_false (hp : Places io s) {a : A} (ha : (s.pc a).readerWeight = 1) :
    s.armed = false := by
  have hle := le_count (f := s.pc) Pc.readerWeight_nonneg a
  have hreader := hp.reader
  cases harm : s.armed with
  | false => rfl
  | true =>
    rw [harm, disarmed] at hreader
    omega

/-- The thread `a` has gone to `pc`, and apart from that threads have only been woken; the
mutexes and the arming of the control pipe have changed as the places say. -/
structure Went (io : A → Bool) (s s' : PauseState A) (a : A) (pc : Pc) : Prop where
  place : ∀ b, (s'.pc b).awake = (Function.update s.pc a pc b).awake
  com : LockStep s.com s'.com a (s.pc a).holdsCom pc.holdsCom
  outer : LockStep s.outer s'.outer a (s.pc a).holdsOuter pc.holdsOuter
  ioOnly : pc.ioOnly = true → (s.pc a).ioOnly = true ∨ io a = true
  armed : disarmed s'.armed = disarmed s.armed + (pc.readerWeight - (s.pc a).readerWeight)

omit [Fintype A] in
theorem awake_notifyOne (w : Option A) (b : A) :
    ((s.notifyOne w).pc b).awake = (s.pc b).awake := by
  cases w with
  | none => rfl
  | some c =>
    exact forall_update (R := fun b (pc : Pc) => pc.awake = (s.pc b).awake) (fun _ => rfl)
      (Pc.awake_notifyPause _) b

omit [Fintype A] in
@[simp] theorem notifyOne_com (w : Option A) : (s.notifyOne w).com = s.com := by
  cases w <;> rfl

omit [Fintype A] in
@[simp] theorem notifyOne_outer (w : Option A) : (s.notifyOne w).outer = s.outer := by
  cases w <;> rfl

omit [Fintype A] in
@[simp] theorem notifyOne_armed (w : Option A) : (s.notifyOne w).armed = s.armed := by
  cases w <;> rfl

omit [Fintype A] in
/-- Waking threads changes where they are up to sleep only. -/
theorem awake_update_congr {g : A → Pc} (hg : ∀ b, (g b).awake = (s.pc b).awake) (a : A)
    (pc : Pc) (b : A) :
    (Function.update g a pc b).awake = (Function.update s.pc a pc b).awake := by
  by_cases hb : b = a
  · rw [hb, Function.update_self, Function.update_self]
  · rw [Function.update_of_ne hb, Function.update_of_ne hb]
    exact hg b

section Went

attribute [local simp] LockStep Pc.holdsCom Pc.holdsOuter Pc.ioOnly Pc.readerWeight disarmed

omit [Fintype A] in
/-- A move that no mutex and no command is part of. -/
theorem went_setPc {a : A} {pc : Pc} (hcom : pc.holdsCom = (s.pc a).holdsCom)
    (houter : pc.holdsOuter = (s.pc a).holdsOuter)
    (hio : pc.ioOnly = true → (s.pc a).ioOnly = true ∨ io a = true)
    (hreader : pc.readerWeight = (s.pc a).readerWeight) : Went io s (s.setPc a pc) a pc := by
  refine ⟨fun b => rfl, ?_, ?_, hio, ?_⟩
  · rw [hcom]
    cases (s.pc a).holdsCom <;> rfl
  · rw [houter]
    cases (s.pc a).holdsOuter <;> rfl
  · rw [hreader]
    simp

/-- Every step moves one thread. -/
theorem went_of_moves (hp : Places io s) (hm : Moves io s x s') :
    ∃ pc, Went io s s' x.actor pc := by
  cases hm with
  | begin_ k a ha ho hio =>
    exact ⟨.locked k s.calls, fun b => rfl, by simp [ha], by simp [ha, ho],
      fun hk => .inr (hio hk), by simp [ha]⟩
  | lockCom a k p ha hc =>
    exact ⟨.writing k p _, fun b => rfl, by simp [ha, hc], by simp [ha],
      fun hk => .inl (by rwa [PauseAction.actor, ha]), by simp [ha]⟩
  | write a k p n ha hn =>
    exact ⟨.writing k p (n - 1), fun b => rfl, by simp [ha], by simp [ha],
      fun hk => .inl (by rwa [PauseAction.actor, ha]), by simp [ha]⟩
  | testCall a k p ha hn =>
    exact ⟨.calling k p, fun b => rfl, by simp [ha], by simp [ha],
      fun hk => .inl (by rwa [PauseAction.actor, ha]), by simp [ha]⟩
  | testWait a k p ha hn =>
    exact ⟨.pauseWait k p true, fun b => rfl, by simp [ha], by simp [ha],
      fun hk => .inl (by rwa [PauseAction.actor, ha]), by simp [ha]⟩
  | callWhilePaused a p throws ha =>
    refine ⟨.user, ?_, ?_, ?_, by simp, ?_⟩
    · intro b
      cases throws with
      | true => rfl
      | false => exact awake_update_congr (fun b => Pc.awake_notifyResume _) a _ b
    all_goals cases throws <;> simp [endWhilePaused, ha]
  -- a thread that is alone has nobody to wait for
  | callWhilePaused2 a p throws ha =>
    by_cases hN : numThreads io = 1
    · refine ⟨.user, ?_, ?_, ?_, by simp, ?_⟩
      · intro b
        simp only [endWhilePaused2, if_pos hN]
        exact awake_update_congr (fun b => Pc.awake_notifyResume _) a _ b
      all_goals simp [endWhilePaused2, hN, ha]
    · refine ⟨.doneWait p true, ?_, ?_, ?_, ?_, ?_⟩
      · intro b
        simp only [endWhilePaused2, if_neg hN]
        exact awake_update_congr (fun b => Pc.awake_notifyResume _) a _ b
      all_goals simp [endWhilePaused2, hN, ha, PauseKind.fromIo]
  | resumed a p ha hc hn =>
    refine ⟨.top, ?_, ?_, ?_, by simp [ha], ?_⟩
    · intro b
      simp only [wakeNext, ha, if_pos hn]
      split
      · exact Pc.awake_notifyResume2 _
      · rfl
    all_goals
      simp only [wakeNext, ha, if_pos hn]
      split <;> simp [ha]
  | stillPaused a p ha hc hn =>
    exact ⟨_, went_setPc (by simp [ha]) (by simp [ha]) (by simp [ha]) (by simp [ha])⟩
  | allPaused a k p ha hc hn =>
    exact ⟨.calling k p, fun b => rfl, by simp [ha, hc], by simp [ha],
      fun hk => .inl (by rwa [PauseAction.actor, ha]), by simp [ha]⟩
  | notAllPaused a k p ha hc hn =>
    exact ⟨_, went_setPc (by simp [ha]) (by simp [ha]) (fun hk => .inl (by rwa [ha]))
      (by simp [ha])⟩
  | allDone a p ha hc hn =>
    exact ⟨.user, fun b => rfl, by simp [ha], by simp [ha], by simp, by simp [ha]⟩
  | notAllDone a p ha hc hn =>
    exact ⟨_, went_setPc (by simp [ha]) (by simp [ha]) (by simp [ha]) (by simp [ha])⟩
  | eachReturns a c ha ho hn =>
    exact ⟨.user, awake_update_congr (fun b => Pc.awake_notifyResume _) a _,
      by simp [ha, endEach], by simp [ha, endEach], by simp, by simp [ha, endEach]⟩
  | eachWaits a c ha ho hn =>
    exact ⟨_, went_setPc (by simp [ha]) (by simp [ha]) (by simp [ha]) (by simp [ha])⟩
  | eachResumed a c ha ho hn =>
    exact ⟨_, went_setPc (by simp [ha]) (by simp [ha]) (by simp [ha]) (by simp [ha])⟩
  | eachStillPaused a c ha ho hn =>
    exact ⟨_, went_setPc (by simp [ha]) (by simp [ha]) (by simp [ha]) (by simp [ha])⟩
  -- a waiter that wakes up spuriously has the role that it had
  | spurious a pc ha =>
    have hawake := Pc.awake_of_spurious ha
    refine ⟨_, went_setPc ?_ ?_ ?_ ?_⟩
    · exact role_congr Pc.holdsCom_awake hawake
    · exact role_congr Pc.holdsOuter_awake hawake
    · rw [role_congr Pc.ioOnly_awake hawake]
      exact Or.inl
    · exact role_congr Pc.readerWeight_awake hawake
  | takePause a p rest hp ha harm =>
    exact ⟨.pauseCmd p, fun b => rfl, by simp [ha], by simp [ha], by simp [ha],
      by simp [ha, harm]⟩
  | count a w p ha hc hw =>
    have harm := hp.armed_eq_false (a := a) (by rw [ha]; rfl)
    refine ⟨.resumeWait p true, ?_, ?_, ?_, by simp [ha], ?_⟩
    · refine awake_update_congr (fun b => ?_) a _
      unfold countPaused
      simp only
      split
      · exact awake_notifyOne _ _
      · rfl
    all_goals
      unfold countPaused
      simp only
      split <;> simp [ha, harm]
  | top a ha =>
    -- Either way out of the top of the loop is free of mutexes.
    by_cases hcd : s.countdown a = 0
    · refine ⟨.epoll, ?_, ?_, ?_, by simp [ha], ?_⟩
      · intro b
        simp only [topNext, if_pos hcd]
        rfl
      all_goals simp [topNext, hcd, ha]
    · by_cases hncd : s.threadCountdown - s.countdown a = 0
      · refine ⟨.atRestLock, ?_, ?_, ?_, by simp [ha], ?_⟩
        · intro b
          simp only [topNext, if_neg hcd, if_pos hncd]
          rfl
        all_goals simp [topNext, hcd, hncd, ha]
      · refine ⟨.epoll, ?_, ?_, ?_, by simp [ha], ?_⟩
        · intro b
          simp only [topNext, if_neg hcd, if_neg hncd]
          rfl
        all_goals simp [topNext, hcd, hncd, ha]
  | lockAtRest a ha hc =>
    exact ⟨.atRest _, fun b => rfl, by simp [ha, hc], by simp [ha], by simp [ha],
      by simp [ha]⟩
  | runAtRest a f todo ha =>
    exact ⟨.atRest todo, fun b => rfl, by simp [ha], by simp [ha], by simp [ha],
      by simp [ha]⟩
  | endAtRest a ha =>
    exact ⟨.epoll, fun b => rfl, by simp [ha], by simp [ha], by simp [ha], by simp [ha]⟩
  | event a ha =>
    exact ⟨_, went_setPc (by simp [ha]) (by simp [ha]) (by simp) (by simp [ha])⟩
  | finish a ha hio =>
    exact ⟨_, went_setPc (by simp [ha]) (by simp [ha]) (fun _ => .inr hio) (by simp [ha])⟩
  -- the caller waits if there is another io thread to execute the call
  | beginEach a ha ho =>
    by_cases hN : ioWeight (io a) < numThreads io
    · refine ⟨.eachWait s.calls true, ?_, ?_, ?_, by simp, ?_⟩
      · intro b
        simp only [beginEachNext, if_pos hN]
        rfl
      all_goals simp [beginEachNext, hN, ha]
    · refine ⟨.user, ?_, ?_, ?_, by simp, ?_⟩
      · simp only [beginEachNext, if_neg hN, endEach]
        exact awake_update_congr (fun b => Pc.awake_notifyResume _) a _
      all_goals simp [beginEachNext, hN, endEach, ha]
  | takeEach a c rest hp ha harm =>
    exact ⟨.eachCmd c, fun b => rfl, by simp [ha], by simp [ha], by simp [ha],
      by simp [ha, harm]⟩
  | exec a w c ha ho hw =>
    have harm := hp.armed_eq_false (a := a) (by rw [ha]; rfl)
    refine ⟨.eachResumeWait c true, ?_, ?_, ?_, by simp [ha], ?_⟩
    · refine awake_update_congr (fun b => ?_) a _
      unfold passOn
      simp only
      split
      · exact awake_notifyOne _ _
      · rfl
    all_goals
      unfold passOn
      simp only
      split <;> simp [ha, harm]

end Went

/-- The other threads stay where they are, though some may be woken. -/
theorem Moves.awake_of_ne (hp : Places io s) (hm : Moves io s x s') {b : A} (hb : b ≠ x.actor) :
    (s'.pc b).awake = (s.pc b).awake := by
  obtain ⟨pc, hw⟩ := went_of_moves hp hm
  rw [hw.place b, Function.update_of_ne hb]

/-- Every step keeps the places. -/
theorem Places.step (hp : Places io s) (hm : Moves io s x s') : Places io s' := by
  obtain ⟨pc, hw⟩ := went_of_moves hp hm
  have hrole {β : Type} {q : Pc → β} (hq : ∀ pc : Pc, q pc.awake = q pc) (b : A) :
      q (s'.pc b) = q (Function.update s.pc x.actor pc b) := role_congr hq (hw.place b)
  constructor
  · exact (hp.com.step hw.com).congr (hrole Pc.holdsCom_awake)
  · exact (hp.outer.step hw.outer).congr (hrole Pc.holdsOuter_awake)
  · intro b
    rw [hrole Pc.ioOnly_awake b]
    revert b
    refine forall_update (R := fun b (pc : Pc) => pc.ioOnly = true → io b = true) hp.ioOnly ?_
    intro hpc
    exact (hw.ioOnly hpc).elim (hp.ioOnly _) id
  · rw [count_congr (hrole Pc.readerWeight_awake), count_update, hw.armed, hp.reader]

theorem places_init : Places io (pauseMachine io).init := by
  have hpc : ∀ a, (pauseMachine io).init.pc a = .top ∨ (pauseMachine io).init.pc a = .user := by
    intro a
    simp only [pauseMachine]
    split <;> simp
  constructor
  · intro a
    obtain h | h := hpc a <;> rw [h] <;> simp [pauseMachine, Pc.holdsCom]
  · intro a
    obtain h | h := hpc a <;> rw [h] <;> simp [pauseMachine, Pc.holdsOuter]
  · intro a
    simp only [pauseMachine]
    split
    · intro _
      assumption
    · simp [Pc.ioOnly]
  · rw [count_eq_zero]
    · rfl
    · intro a
      obtain h | h := hpc a <;> rw [h] <;> rfl

end Anon.IoDispatch
