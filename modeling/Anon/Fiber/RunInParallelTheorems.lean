import Anon.Fiber.MutexUse
import Anon.Fiber.RunInParallel

/-!
# The end of `run_in_parallel`

* `Parallel.phase`: what a fiber of the call is doing about the mutex, so that the rules of
  `PhaseInv` hold.
* `RoleInv`, `CountInv`, `RecordInv`: which fibers belong to the call, what `num_completed` counts,
  and what the catch blocks have recorded.
* `PastInv`: once the caller is past the loop that waits, all workers are done.
* `parallelHolds`: what holds when the call has ended, in every run.
-/

namespace Anon.Fiber.Wake

variable {F T M C : Type} {n : ℕ}

/-- The caller has seen that all functions have completed. -/
def CallerPc.past : CallerPc → Bool
  | .leaving _ | .ended _ => true
  | _ => false

def CallerPc.phase : CallerPc → Phase
  | .before | .starting | .ended _ => .free
  | .locking => .locking
  | .leaving _ => .unlocking

def WorkerPc.phase (past : Bool) : WorkerPc → Phase
  | .running => .free
  | .catching _ | .locking => .locking
  | .caught => .unlocking
  | .notifying | .notified => .holding
  | .completed => if past then .free else .done

/-- The worker is in the count of `num_completed`. -/
def WorkerPc.counted : WorkerPc → ℤ
  | .notifying | .notified | .completed => 1
  | _ => 0

namespace Parallel

/-- What a fiber is doing about the mutex of the call. -/
def phase (s : Parallel F T M C n) (f : F) : Phase :=
  match s.role f with
  | .other => .free
  | .caller => s.callerPc.phase
  | .worker i => (s.workerPc i).phase s.callerPc.past

/-- The exception for what the first catch block has recorded. -/
def firstError (s : Parallel F T M C n) : Option String :=
  s.catches.head?.map fun c => errorText c.2

end Parallel

/-- What holds when the call has ended: every function has ended; there is an exception if and
only if a function has thrown, and it carries what was recorded first; all that was thrown was
recorded; and nobody is about to touch a local of the call. -/
structure ParallelHolds (mtx : M) (s : Parallel F T M C n) (error : Option String) : Prop where
  allEnded : ∀ i, s.outcome i ≠ none
  throws : error ≠ none ↔ ∃ i e, s.outcome i = some (.threw e)
  message : error = s.firstError
  recorded : ∀ i message, (i, message) ∈ s.catches ↔
    ∃ e : Thrown, s.outcome i = some (.threw e) ∧ message = e.message
  untouched : ∀ t, ¬s.touches mtx t

/-! ## The fibers of the call -/

structure RoleInv (s : Parallel F T M C n) : Prop where
  caller : ∀ f g, s.role f = .caller → s.role g = .caller → f = g
  worker : ∀ i f g, s.role f = .worker i → s.role g = .worker i → f = g
  started : ∀ f i, s.role f = .worker i → i.val < s.started
  before : s.callerPc = .before → ∀ f, s.role f = .other
  exists_ : ∀ i, s.workerPc i ≠ .running → ∃ f, s.role f = .worker i

/-- What `num_completed` counts. -/
def CountInv (s : Parallel F T M C n) : Prop :=
  (s.numCompleted : ℤ) = count WorkerPc.counted s.workerPc

structure RecordInv (s : Parallel F T M C n) : Prop where
  ended : ∀ i, s.outcome i = none ↔ s.workerPc i = .running
  catching : ∀ i message, s.workerPc i = .catching message →
    ∃ e : Thrown, s.outcome i = some (.threw e) ∧ message = e.message
  recorded : ∀ i message, (i, message) ∈ s.catches ↔
    (∃ e : Thrown, s.outcome i = some (.threw e) ∧ message = e.message) ∧
      ∀ message', s.workerPc i ≠ .catching message'
  first : (if s.hitError then some s.errorStr else none) = s.catches.head?.map Prod.snd

structure PastInv (s : Parallel F T M C n) : Prop where
  completed : s.callerPc.past = true → ∀ i, s.workerPc i = .completed
  error : ∀ error, s.callerPc = .leaving error ∨ s.callerPc = .ended error →
    error = s.firstError

variable {mtx : M} {cond : C} {s : Parallel F T M C n} {t : T} {f : F} {i : Fin n}
variable {pc : WorkerPc} {w : WakeState F T M C} {at_ : FiberStep F M C}

theorem Parallel.phase_of_caller (h : s.role f = .caller) : s.phase f = s.callerPc.phase := by
  rw [Parallel.phase, h]

theorem Parallel.phase_of_worker (h : s.role f = .worker i) :
    s.phase f = (s.workerPc i).phase s.callerPc.past := by
  rw [Parallel.phase, h]

/-- A fiber that runs code of its own does not use the mutex. -/
theorem Parallel.roams_of_free (h : s.free f) : (s.phase f).roams := by
  unfold Parallel.free at h
  split at h
  · next hrole =>
    rw [Parallel.phase, hrole]
    trivial
  · next hrole =>
    rw [s.phase_of_caller hrole]
    obtain h | h := h
    · rw [h]
      trivial
    · cases hpc : s.callerPc with
      | ended error => trivial
      | _ =>
        rw [hpc] at h
        exact absurd h (by simp [CallerPc.hasEnded])
  · next i hrole =>
    rw [s.phase_of_worker hrole]
    obtain h | h := h
    · rw [h]
      trivial
    · rw [h, WorkerPc.phase]
      split
      · trivial
      · trivial

theorem Parallel.free_of_mayExit (h : s.mayExit f) : s.free f := by
  unfold Parallel.mayExit at h
  unfold Parallel.free
  split at h
  · trivial
  · exact .inr h
  · exact .inr h

section Steps

variable [DecidableEq F] [DecidableEq T] [DecidableEq M] [DecidableEq C] [Fintype T]

/-! ## Steps of other code -/

omit [DecidableEq F] [DecidableEq T] [DecidableEq M] [DecidableEq C] [Fintype T] in
theorem runsUser_of_running {s : WakeState F T M C} (h : s.doing t = .running f .user) :
    s.runsUser t = some f := by
  rw [WakeState.runsUser, h]

omit [DecidableEq F] [DecidableEq M] [DecidableEq C] [Fintype T] in
theorem doing_enter {s : WakeState F T M C} (h : s.runsUser t = some f) :
    (s.enter t at_).doing t = .running f at_ := by
  rw [WakeState.enter, h]
  exact Function.update_self ..

omit [Fintype T] in
/-- A fiber that takes a step in code of its own may do so, and does not come near the mutex. -/
theorem free_of_allowed {a : WakeAction F T M C} (he : s.wake.enabled a)
    (ha : s.wakeAllowed mtx a) (hf : s.wake.doing a.thread = .running f .user) :
    s.free f ∧ ∀ at_, (s.wake.next a).doing a.thread = .running f at_ → ¬at_.uses mtx := by
  have huser := runsUser_of_running hf
  -- the fiber has entered a function
  have henters {t : T} {at_' : FiberStep F M C} (huser : s.wake.runsUser t = some f)
      (hat : ¬at_'.uses mtx) (at_ : FiberStep F M C)
      (ht : (s.wake.enter t at_').doing t = .running f at_) : ¬at_.uses mtx := by
    rw [doing_enter huser] at ht
    rw [← (Doing.running.inj ht).2]
    exact hat
  -- the thread still runs the fiber where it was
  have hstays {t : T} {w : WakeState F T M C} (hf : s.wake.doing t = .running f .user)
      (hw : w.doing = s.wake.doing) (at_ : FiberStep F M C) (ht : w.doing t = .running f at_) :
      ¬at_.uses mtx := by
    rw [hw, hf] at ht
    rw [← (Doing.running.inj ht).2]
    exact fun hno => hno
  match a with
  | .fire t g => exact absurd (he.1.symm.trans hf) (by simp)
  | .resume t => exact absurd (he.1.symm.trans hf) (by simp)
  | .return_ t => exact absurd (he.1.symm.trans hf) (by simp)
  -- inside a function a thread is not in code of a fiber
  | .step t k =>
    have he : s.wake.stepEnabled t k := he
    rw [WakeState.stepEnabled, show s.wake.doing t = _ from hf] at he
    exact he.elim
  -- the thread acts as the parent of the new fiber
  | .start t g =>
    refine ⟨ha f huser, fun at_ ht => ?_⟩
    have hd : (s.wake.next (.start t g)).doing t = .wakeAll := Function.update_self ..
    exact absurd (hd.symm.trans ht) (by simp)
  | .lock t m =>
    refine ⟨ha.2 f huser, henters huser fun huses => ha.1 ?_⟩
    simpa [FiberStep.uses] using huses
  | .unlock t m =>
    refine ⟨ha.2 f huser, henters huser fun huses => ha.1 ?_⟩
    simpa [FiberStep.uses] using huses
  | .wait t m c =>
    refine ⟨ha.2 f huser, henters huser fun huses => ha.1 ?_⟩
    simpa [FiberStep.uses, CondId.mutex] using huses
  | .notifyOne t m c =>
    exact ⟨ha.2 f huser, hstays hf (listWork_notifyOne s.wake t (.user m c)).doing⟩
  | .notifyAll t m c k =>
    exact ⟨ha.2 f huser, hstays hf (listWork_notifyAll s.wake t (.user m c) k).doing⟩
  | .join t g => exact ⟨ha f huser, henters huser (by simp [FiberStep.uses])⟩
  | .suspend t => exact ⟨ha f huser, henters huser (by simp [FiberStep.uses])⟩
  | .exit t =>
    exact ⟨s.free_of_mayExit (ha f huser), henters huser (by simp [FiberStep.uses])⟩

/-- Other code keeps the rules. -/
theorem phaseInv_wake {a : WakeAction F T M C} (h : PhaseInv mtx s.wake s.phase)
    (hinv : WakeInv s.wake) (he : s.wake.enabled a) (ha : s.wakeAllowed mtx a) :
    PhaseInv mtx (s.wake.next a) s.phase := by
  apply h.step hinv (moves_of_enabled he)
  intro f hf
  obtain ⟨hfree, hnext⟩ := free_of_allowed he ha hf
  exact ⟨s.roams_of_free hfree, hnext⟩

/-! ## Steps of the call -/

/-- What a step of a fiber in code of its own makes of the fibers and the threads: the fiber is
now at `at_`. -/
structure Goes (s w : WakeState F T M C) (t : T) (f : F) (at_ : FiberStep F M C) : Prop where
  wake : WakeInv w
  keeps : Keeps s t w
  doing : w.doing t = .running f at_

theorem Goes.refl {s : WakeState F T M C} (hinv : WakeInv s)
    (ht : s.doing t = .running f .user) : Goes s s t f .user :=
  ⟨hinv, .refl s t, ht⟩

theorem goes_enter {s : WakeState F T M C} (hinv : WakeInv s)
    (ht : s.doing t = .running f .user) (hat : Enters s f .user at_) :
    Goes s (s.enter t at_) t f at_ := by
  have hm := moves_enter (runsUser_of_running ht) hat
  exact ⟨hinv.step hm, keeps_of_moves hinv hm, doing_enter (runsUser_of_running ht)⟩

theorem goes_lock {s : WakeState F T M C} (hinv : WakeInv s)
    (ht : s.doing t = .running f .user) (mtx : M) :
    Goes s (s.next (.lock t mtx)) t f (.lock (.user mtx)) :=
  goes_enter hinv ht (.lock mtx)

theorem goes_unlock {s : WakeState F T M C} (hinv : WakeInv s)
    (ht : s.doing t = .running f .user) (ho : s.owner (.user mtx) = some (.fiber f)) :
    Goes s (s.next (.unlock t mtx)) t f (.unlock (.user mtx) .grab) :=
  goes_enter hinv ht (.unlock mtx ho)

theorem goes_wait {s : WakeState F T M C} (hinv : WakeInv s)
    (ht : s.doing t = .running f .user) (ho : s.owner (.user mtx) = some (.fiber f)) (cond : C) :
    Goes s (s.next (.wait t mtx cond)) t f (.condPush (.user mtx cond)) :=
  goes_enter hinv ht (.wait mtx cond ho)

theorem goes_notifyAll {s : WakeState F T M C} (hinv : WakeInv s)
    (ht : s.doing t = .running f .user) (ho : s.owner (.user mtx) = some (.fiber f)) {k : ℕ}
    (hw : s.walks (.cond (.user mtx cond)) k) :
    Goes s (s.next (.notifyAll t mtx cond k)) t f .user := by
  have hm : Moves s t (s.next (.notifyAll t mtx cond k)) :=
    .notifyAll t f mtx cond k ht ho hw
  refine ⟨hinv.step hm, keeps_of_moves hinv hm, ?_⟩
  exact (congrFun (listWork_notifyAll s t (.user mtx cond) k).doing t).trans ht

/-- A fiber of the call goes on to its next phase. -/
theorem Goes.phases {s' : Parallel F T M C n} {p : Phase} (hg : Goes s.wake s'.wake t f at_)
    (h : PhaseInv mtx s.wake s.phase) (hinv : WakeInv s.wake)
    (ht : s.wake.doing t = .running f .user) (hphase : s'.phase = Function.update s.phase f p)
    (hfits : p.fits mtx at_)
    (howner : at_ = .user → p.holds → s'.wake.owner (.user mtx) = some (.fiber f)) :
    PhaseInv mtx s'.wake s'.phase := by
  rw [hphase]
  exact h.change hinv ht hg.keeps hg.doing hfits howner

omit [DecidableEq T] [DecidableEq M] [DecidableEq C] [Fintype T] in
/-- A worker goes on. -/
theorem phase_of_worker {s' : Parallel F T M C n} (hroles : RoleInv s)
    (hf : s.role f = .worker i) (hrole : s'.role = s.role) (hcaller : s'.callerPc = s.callerPc)
    (hworker : s'.workerPc = Function.update s.workerPc i pc) :
    s'.phase = Function.update s.phase f (pc.phase s.callerPc.past) := by
  funext g
  by_cases heq : g = f
  · rw [heq, Function.update_self, Parallel.phase, hrole, hf, hcaller, hworker]
    show (Function.update s.workerPc i pc i).phase _ = _
    rw [Function.update_self]
  · rw [Function.update_of_ne heq, Parallel.phase, Parallel.phase, hrole, hcaller, hworker]
    match hg : s.role g with
    | .other => rfl
    | .caller => rfl
    | .worker j =>
      have hne : j ≠ i := fun hji => heq (hroles.worker i g f (hji ▸ hg) hf)
      show (Function.update s.workerPc i pc j).phase _ = _
      rw [Function.update_of_ne hne]

omit [DecidableEq T] [DecidableEq M] [DecidableEq C] [Fintype T] in
/-- The caller goes on. -/
theorem phase_of_caller {s' : Parallel F T M C n} (hroles : RoleInv s) (hf : s.role f = .caller)
    (hrole : s'.role = s.role) (hpast : s'.callerPc.past = s.callerPc.past)
    (hworker : s'.workerPc = s.workerPc) :
    s'.phase = Function.update s.phase f s'.callerPc.phase := by
  funext g
  by_cases heq : g = f
  · rw [heq, Function.update_self, Parallel.phase, hrole, hf]
  · rw [Function.update_of_ne heq, Parallel.phase, Parallel.phase, hrole, hpast, hworker]
    match hg : s.role g with
    | .other => rfl
    | .caller => exact absurd (hroles.caller g f hg hf) heq
    | .worker j => rfl

/-! ## Steps of the workers -/

structure ParallelInv (mtx : M) (s : Parallel F T M C n) : Prop where
  wake : WakeInv s.wake
  phases : PhaseInv mtx s.wake s.phase
  roles : RoleInv s
  counts : CountInv s
  records : RecordInv s
  past : PastInv s

omit [DecidableEq F] [DecidableEq T] [DecidableEq M] [DecidableEq C] [Fintype T] in
theorem of_roleOn {r : Role n} (h : s.roleOn t = some r) :
    ∃ f, s.wake.doing t = .running f .user ∧ s.wake.runsUser t = some f ∧ s.role f = r := by
  obtain ⟨f, hf, hr⟩ := Option.map_eq_some_iff.mp h
  exact ⟨f, runsUser_eq hf, hf, hr⟩

omit [DecidableEq F] [DecidableEq T] [DecidableEq M] [DecidableEq C] [Fintype T] in
theorem of_workerOn (h : (s.workerOn t).map s.workerPc = some pc) :
    ∃ f i, s.wake.doing t = .running f .user ∧ s.role f = .worker i ∧ s.workerOn t = some i ∧
      s.workerPc i = pc := by
  obtain ⟨i, hi, hpc⟩ := Option.map_eq_some_iff.mp h
  have hon := hi
  unfold Parallel.workerOn at hon
  split at hon
  · next j hj =>
    obtain ⟨f, hf, -, hrole⟩ := of_roleOn hj
    rw [Option.some.inj hon] at hrole
    exact ⟨f, i, hf, hrole, hi, hpc⟩
  · exact absurd hon (by simp)

omit [DecidableEq F] [DecidableEq T] [DecidableEq M] [DecidableEq C] [Fintype T] in
theorem RoleInv.frame (h : RoleInv s) {s' : Parallel F T M C n} (hrole : s'.role = s.role)
    (hstarted : s'.started = s.started) (hbefore : s'.callerPc = .before → s.callerPc = .before)
    (hexists : ∀ j, s'.workerPc j ≠ .running →
      s.workerPc j ≠ .running ∨ ∃ f, s.role f = .worker j) : RoleInv s' where
  caller := by
    rw [hrole]
    exact h.caller
  worker := by
    rw [hrole]
    exact h.worker
  started := by
    rw [hrole, hstarted]
    exact h.started
  before := by
    rw [hrole]
    exact fun hpc => h.before (hbefore hpc)
  exists_ := by
    rw [hrole]
    intro j hj
    obtain hj | hj := hexists j hj
    · exact h.exists_ j hj
    · exact hj

omit [DecidableEq F] [DecidableEq T] [DecidableEq M] [DecidableEq C] [Fintype T] in
theorem RoleInv.setWorker (h : RoleInv s) (hf : s.role f = .worker i) {s' : Parallel F T M C n}
    (hrole : s'.role = s.role) (hstarted : s'.started = s.started)
    (hcaller : s'.callerPc = s.callerPc)
    (hworker : s'.workerPc = Function.update s.workerPc i pc) : RoleInv s' := by
  refine h.frame hrole hstarted (fun hpc => hcaller ▸ hpc) (fun j hj => ?_)
  by_cases heq : j = i
  · right
    rw [heq]
    exact ⟨f, hf⟩
  · left
    rw [hworker, Function.update_of_ne heq] at hj
    exact hj

omit [DecidableEq F] [DecidableEq T] [DecidableEq M] [DecidableEq C] [Fintype T] in
theorem CountInv.setWorker (h : CountInv s) {s' : Parallel F T M C n}
    (hworker : s'.workerPc = Function.update s.workerPc i pc)
    (hnum : (s'.numCompleted : ℤ) = s.numCompleted + (pc.counted - (s.workerPc i).counted)) :
    CountInv s' := by
  have hcount : (s.numCompleted : ℤ) = count WorkerPc.counted s.workerPc := h
  show (s'.numCompleted : ℤ) = count WorkerPc.counted s'.workerPc
  rw [hworker, count_update, hnum, hcount]

omit [DecidableEq F] [DecidableEq T] [DecidableEq M] [DecidableEq C] [Fintype T] in
/-- A worker goes on that does not come from `fn()` or from the test of a catch block, nor get
there. -/
theorem RecordInv.setWorker (h : RecordInv s) {s' : Parallel F T M C n}
    (hworker : s'.workerPc = Function.update s.workerPc i pc)
    (hpc : pc ≠ .running ∧ ∀ message, pc ≠ .catching message)
    (hold : s.workerPc i ≠ .running ∧ ∀ message, s.workerPc i ≠ .catching message)
    (houtcome : s'.outcome = s.outcome) (hcatches : s'.catches = s.catches)
    (hhit : s'.hitError = s.hitError) (herror : s'.errorStr = s.errorStr) : RecordInv s' := by
  have hrunning (j : Fin n) : s'.workerPc j = .running ↔ s.workerPc j = .running := by
    rw [hworker]
    by_cases heq : j = i
    · rw [heq, Function.update_self]
      exact iff_of_false hpc.1 hold.1
    · rw [Function.update_of_ne heq]
  have hcatching (j : Fin n) (message : String) :
      s'.workerPc j = .catching message ↔ s.workerPc j = .catching message := by
    rw [hworker]
    by_cases heq : j = i
    · rw [heq, Function.update_self]
      exact iff_of_false (hpc.2 message) (hold.2 message)
    · rw [Function.update_of_ne heq]
  constructor
  · intro j
    rw [houtcome, hrunning]
    exact h.ended j
  · intro j message hj
    rw [houtcome]
    exact h.catching j message ((hcatching j message).mp hj)
  · intro j message
    rw [houtcome, hcatches, h.recorded]
    simp only [ne_eq, hcatching]
  · rw [hhit, herror, hcatches]
    exact h.first

omit [DecidableEq F] [DecidableEq T] [DecidableEq M] [DecidableEq C] [Fintype T] in
theorem pastInv_of_not_past (h : s.callerPc.past = false) : PastInv s where
  completed := by
    intro hpast
    rw [h] at hpast
    exact absurd hpast (by simp)
  error := by
    intro error herror
    obtain herror | herror := herror
    · rw [herror] at h
      exact absurd h (by simp [CallerPc.past])
    · rw [herror] at h
      exact absurd h (by simp [CallerPc.past])

omit [DecidableEq F] [DecidableEq T] [DecidableEq M] [DecidableEq C] [Fintype T] in
/-- While a worker is not done, the caller waits for it. -/
theorem PastInv.not_past (h : PastInv s) (hi : s.workerPc i ≠ .completed) :
    s.callerPc.past = false := by
  by_contra hpast
  exact hi (h.completed (Bool.eq_true_of_not_eq_false hpast) i)

omit [DecidableEq F] [DecidableEq T] [DecidableEq M] [DecidableEq C] [Fintype T] in
theorem onWorker_eq (h : s.workerOn t = some i) (step : Fin n → Parallel F T M C n) :
    s.onWorker t step = step i := by
  rw [Parallel.onWorker, h]

/-- A worker goes on. -/
theorem ParallelInv.worker (h : ParallelInv mtx s) (ht : s.wake.doing t = .running f .user)
    (hf : s.role f = .worker i) (hold : s.workerPc i ≠ .completed) {s' : Parallel F T M C n}
    (hg : Goes s.wake s'.wake t f at_) (hrole : s'.role = s.role)
    (hstarted : s'.started = s.started) (hcaller : s'.callerPc = s.callerPc)
    (hworker : s'.workerPc = Function.update s.workerPc i pc)
    (hfits : (pc.phase false).fits mtx at_)
    (howner : at_ = .user → (pc.phase false).holds →
      s'.wake.owner (.user mtx) = some (.fiber f))
    (hcounts : CountInv s') (hrecords : RecordInv s') : ParallelInv mtx s' := by
  have hpast := h.past.not_past hold
  have hphase := phase_of_worker h.roles hf hrole hcaller hworker
  rw [hpast] at hphase
  exact
    { wake := hg.wake
      phases := hg.phases h.phases h.wake ht hphase hfits howner
      roles := h.roles.setWorker hf hrole hstarted hcaller hworker
      counts := hcounts
      records := hrecords
      past := pastInv_of_not_past (by rw [hcaller, hpast]) }

/-- A worker that is back from `lock`, or that has not given the mutex back, holds it. -/
theorem ParallelInv.owner (h : ParallelInv mtx s) (ht : s.wake.doing t = .running f .user)
    (hf : s.role f = .worker i) (hpc : ((s.workerPc i).phase s.callerPc.past).holds) :
    s.wake.owner (.user mtx) = some (.fiber f) := by
  apply h.phases.owner t f ht
  rw [s.phase_of_worker hf]
  exact hpc

/-- `fn()` ends. -/
theorem ParallelInv.fnEnds (h : ParallelInv mtx s) (ht : s.wake.doing t = .running f .user)
    (hf : s.role f = .worker i) (hpc : s.workerPc i = .running) (o : Outcome) :
    ParallelInv mtx (s.fnEnds mtx t i o) := by
  have hout : s.outcome i = none := (h.records.ended i).mpr hpc
  refine h.worker ht hf (by rw [hpc]; simp) (goes_lock h.wake ht mtx) rfl rfl rfl rfl ?_ ?_ ?_ ?_
  · match o with
    | .returned => exact .inr rfl
    | .threw e => exact .inr rfl
  · exact fun hno => absurd hno (by simp)
  · apply h.counts.setWorker rfl
    rw [hpc]
    match o with
    | .returned => rfl
    | .threw e => rfl
  · constructor
    · intro j
      show Function.update s.outcome i (some o) j = none ↔ Function.update s.workerPc i _ j = _
      by_cases heq : j = i
      · rw [heq, Function.update_self, Function.update_self]
        match o with
        | .returned => simp
        | .threw e => simp
      · rw [Function.update_of_ne heq, Function.update_of_ne heq]
        exact h.records.ended j
    · intro j message hj
      show ∃ e : Thrown, Function.update s.outcome i (some o) j = some (.threw e) ∧ _
      have hj : Function.update s.workerPc i _ j = .catching message := hj
      by_cases heq : j = i
      · rw [heq, Function.update_self] at hj
        rw [heq, Function.update_self]
        match o with
        | .returned => exact absurd hj (by simp)
        | .threw e => exact ⟨e, rfl, (WorkerPc.catching.inj hj).symm⟩
      · rw [Function.update_of_ne heq] at hj
        rw [Function.update_of_ne heq]
        exact h.records.catching j message hj
    · intro j message
      show (j, message) ∈ s.catches ↔
        (∃ e : Thrown, Function.update s.outcome i (some o) j = some (.threw e) ∧ _) ∧
          ∀ message', Function.update s.workerPc i _ j ≠ .catching message'
      rw [h.records.recorded]
      by_cases heq : j = i
      -- the function had not ended, and what it throws is still to be recorded
      · rw [heq, Function.update_self, Function.update_self, hout]
        match o with
        | .returned => simp
        | .threw e => simp
      · rw [Function.update_of_ne heq, Function.update_of_ne heq]
    · exact h.records.first

/-- The body of a catch block. -/
theorem ParallelInv.record (h : ParallelInv mtx s) (ht : s.wake.doing t = .running f .user)
    (hf : s.role f = .worker i) {message : String} (hpc : s.workerPc i = .catching message) :
    ParallelInv mtx (s.record mtx t i message) := by
  have howner := h.owner ht hf (by rw [hpc]; trivial)
  refine h.worker ht hf (by rw [hpc]; simp) (goes_unlock h.wake ht howner) rfl rfl rfl rfl ?_ ?_
    ?_ ?_
  · exact .inr rfl
  · exact fun hno => absurd hno (by simp)
  · apply h.counts.setWorker rfl
    rw [hpc]
    rfl
  · constructor
    · intro j
      show s.outcome j = none ↔ Function.update s.workerPc i .caught j = .running
      rw [h.records.ended]
      by_cases heq : j = i
      · rw [heq, hpc, Function.update_self]
        simp
      · rw [Function.update_of_ne heq]
    · intro j message' hj
      have hj : Function.update s.workerPc i .caught j = .catching message' := hj
      by_cases heq : j = i
      · rw [heq, Function.update_self] at hj
        exact absurd hj (by simp)
      · rw [Function.update_of_ne heq] at hj
        exact h.records.catching j message' hj
    · intro j message'
      show (j, message') ∈ s.catches ++ [(i, message)] ↔
        (∃ e : Thrown, s.outcome j = some (.threw e) ∧ message' = e.message) ∧
          ∀ m, Function.update s.workerPc i .caught j ≠ .catching m
      rw [List.mem_append, List.mem_singleton, h.records.recorded]
      by_cases heq : j = i
      · obtain ⟨e, hout, he⟩ := h.records.catching i message hpc
        rw [heq, Function.update_self, hpc, hout, he]
        simp
      · rw [Function.update_of_ne heq]
        simp [heq]
    -- a message is only kept where there is none, so it is the first one recorded
    · show some (if s.hitError then s.errorStr else message) =
        (s.catches ++ [(i, message)]).head?.map Prod.snd
      have hfirst := h.records.first
      by_cases hhit : s.hitError = true
      · rw [if_pos hhit] at hfirst ⊢
        rw [List.head?_append, Option.map_or, ← hfirst]
        rfl
      · rw [if_neg hhit] at hfirst ⊢
        have hnone : s.catches.head? = none := Option.map_eq_none_iff.mp hfirst.symm
        rw [List.head?_append, hnone]
        rfl

/-- The worker is out of the catch block. -/
theorem ParallelInv.endCatch (h : ParallelInv mtx s) (ht : s.wake.doing t = .running f .user)
    (hf : s.role f = .worker i) (hpc : s.workerPc i = .caught) :
    ParallelInv mtx ((s.setWorker i .locking).act (.lock t mtx)) := by
  refine h.worker ht hf (by rw [hpc]; simp) (goes_lock h.wake ht mtx) rfl rfl rfl rfl ?_ ?_ ?_ ?_
  · exact .inr rfl
  · exact fun hno => absurd hno (by simp)
  · apply h.counts.setWorker rfl
    rw [hpc]
    rfl
  · refine h.records.setWorker rfl (by simp) ?_ rfl rfl rfl rfl
    rw [hpc]
    simp

/-- `if (++num_completed == num_fns)` -/
theorem ParallelInv.complete (h : ParallelInv mtx s) (ht : s.wake.doing t = .running f .user)
    (hf : s.role f = .worker i) (hpc : s.workerPc i = .locking) :
    ParallelInv mtx (s.complete mtx t i) := by
  have howner := h.owner ht hf (by rw [hpc]; trivial)
  have hold : s.workerPc i ≠ .completed := by
    rw [hpc]
    simp
  have hfrom : s.workerPc i ≠ .running ∧ ∀ message, s.workerPc i ≠ .catching message := by
    rw [hpc]
    simp
  unfold Parallel.complete
  simp only
  -- the last worker notifies the caller before it gives the mutex back
  split
  · refine h.worker ht hf hold (.refl h.wake ht) rfl rfl rfl rfl ?_ ?_ ?_ ?_
    · rfl
    · exact fun _ _ => howner
    · apply h.counts.setWorker rfl
      rw [hpc]
      rfl
    · exact h.records.setWorker rfl (by simp) hfrom rfl rfl rfl rfl
  · refine h.worker ht hf hold (goes_unlock h.wake ht howner) rfl rfl rfl rfl ?_ ?_ ?_ ?_
    · exact .inl rfl
    · exact fun hno => absurd hno (by simp)
    · apply h.counts.setWorker rfl
      rw [hpc]
      rfl
    · exact h.records.setWorker rfl (by simp) hfrom rfl rfl rfl rfl

/-- `notify_all`. -/
theorem ParallelInv.notify (h : ParallelInv mtx s) (ht : s.wake.doing t = .running f .user)
    (hf : s.role f = .worker i) (hpc : s.workerPc i = .notifying) {k : ℕ}
    (hw : s.wake.walks (.cond (.user mtx cond)) k) :
    ParallelInv mtx ((s.setWorker i .notified).act (.notifyAll t mtx cond k)) := by
  have howner := h.owner ht hf (by rw [hpc]; trivial)
  refine h.worker ht hf (by rw [hpc]; simp) (goes_notifyAll h.wake ht howner hw) rfl rfl rfl rfl
    ?_ ?_ ?_ ?_
  · rfl
  · intro _ _
    exact (congrFun (listWork_notifyAll s.wake t (.user mtx cond) k).owner _).trans howner
  · apply h.counts.setWorker rfl
    rw [hpc]
    show (s.numCompleted : ℤ) = s.numCompleted + (1 - 1)
    omega
  · refine h.records.setWorker rfl (by simp) ?_ rfl rfl rfl rfl
    rw [hpc]
    simp

/-- The end of the lambda. -/
theorem ParallelInv.endLambda (h : ParallelInv mtx s) (ht : s.wake.doing t = .running f .user)
    (hf : s.role f = .worker i) (hpc : s.workerPc i = .notified) :
    ParallelInv mtx ((s.setWorker i .completed).act (.unlock t mtx)) := by
  have howner := h.owner ht hf (by rw [hpc]; trivial)
  refine h.worker ht hf (by rw [hpc]; simp) (goes_unlock h.wake ht howner) rfl rfl rfl rfl ?_ ?_
    ?_ ?_
  · exact .inl rfl
  · exact fun hno => absurd hno (by simp)
  · apply h.counts.setWorker rfl
    rw [hpc]
    show (s.numCompleted : ℤ) = s.numCompleted + (1 - 1)
    omega
  · refine h.records.setWorker rfl (by simp) ?_ rfl rfl rfl rfl
    rw [hpc]
    simp

/-! ## Steps of the caller -/

/-- `run_in_parallel` is called. -/
theorem ParallelInv.call (h : ParallelInv mtx s) (hpc : s.callerPc = .before) :
    ParallelInv mtx ((s.setRole f .caller).setCaller .starting) := by
  have hother := h.roles.before hpc
  have hnotPast : CallerPc.past .starting = false := rfl
  have hrole (g : F) : ((s.setRole f .caller).setCaller .starting).role g =
      if g = f then .caller else .other := by
    show Function.update s.role f .caller g = _
    rw [Function.update_apply, hother g]
  -- the fiber that calls is as far from the mutex as any other
  have hphase : ((s.setRole f .caller).setCaller .starting).phase = s.phase := by
    funext g
    have hbefore : s.phase g = .free := by
      rw [Parallel.phase, hother g]
    rw [hbefore, Parallel.phase, hrole]
    by_cases heq : g = f
    · rw [if_pos heq]
      rfl
    · rw [if_neg heq]
  have hworker (g : F) (i : Fin n) :
      ((s.setRole f .caller).setCaller .starting).role g ≠ .worker i := by
    rw [hrole]
    split
    · simp
    · simp
  exact
    { wake := h.wake
      phases := by
        rw [hphase]
        exact h.phases
      roles :=
        { caller := fun g g' hg hg' => by
            rw [hrole] at hg hg'
            split at hg
            · next heq =>
              split at hg'
              · next heq' => rw [heq, heq']
              · exact absurd hg' (by simp)
            · exact absurd hg (by simp)
          worker := fun i g _ hg => absurd hg (hworker g i)
          started := fun g i hg => absurd hg (hworker g i)
          before := fun hno => absurd hno (by simp [Parallel.setCaller])
          exists_ := fun i hi => by
            obtain ⟨g, hg⟩ := h.roles.exists_ i hi
            rw [hother g] at hg
            exact absurd hg (by simp) }
      counts := h.counts
      records := ⟨h.records.ended, h.records.catching, h.records.recorded, h.records.first⟩
      past := pastInv_of_not_past hnotPast }

/-- `run_in_fiber` of the next function. -/
theorem ParallelInv.runInFiber (h : ParallelInv mtx s) (hpc : s.callerPc = .starting)
    (hlt : s.started < n) (hf : s.role f = .other) : ParallelInv mtx (s.runInFiber f) := by
  have hnotPast : s.callerPc.past = false := by
    rw [hpc]
    rfl
  -- nobody has been the worker of this function
  have hnew (g : F) : s.role g ≠ .worker ⟨s.started, hlt⟩ :=
    fun hg => absurd (h.roles.started g _ hg) (lt_irrefl _)
  have hrunning : s.workerPc ⟨s.started, hlt⟩ = .running := by
    by_contra hno
    obtain ⟨g, hg⟩ := h.roles.exists_ _ hno
    exact hnew g hg
  rw [Parallel.runInFiber, dif_pos hlt]
  have hrole (g : F) : ({ s with started := s.started + 1 }.setRole f
      (.worker ⟨s.started, hlt⟩)).role g =
        if g = f then .worker ⟨s.started, hlt⟩ else s.role g := Function.update_apply ..
  -- a worker that has not locked yet is as far from the mutex as other fibers
  have hphase : ({ s with started := s.started + 1 }.setRole f
      (.worker ⟨s.started, hlt⟩)).phase = s.phase := by
    funext g
    by_cases heq : g = f
    · rw [heq, Parallel.phase, hrole, if_pos rfl, Parallel.phase, hf]
      show (s.workerPc ⟨s.started, hlt⟩).phase s.callerPc.past = .free
      rw [hrunning]
      rfl
    · rw [Parallel.phase, hrole, if_neg heq]
      rfl
  exact
    { wake := h.wake
      phases := by
        rw [hphase]
        exact h.phases
      roles :=
        { caller := fun g g' hg hg' => by
            rw [hrole] at hg hg'
            split at hg
            · exact absurd hg (by simp)
            · split at hg'
              · exact absurd hg' (by simp)
              · exact h.roles.caller g g' hg hg'
          worker := fun i g g' hg hg' => by
            rw [hrole] at hg hg'
            split at hg
            · next heq =>
              split at hg'
              · next heq' => rw [heq, heq']
              · rw [← Role.worker.inj hg] at hg'
                exact absurd hg' (hnew g')
            · split at hg'
              · rw [← Role.worker.inj hg'] at hg
                exact absurd hg (hnew g)
              · exact h.roles.worker i g g' hg hg'
          started := fun g i hg => by
            rw [hrole] at hg
            show i.val < s.started + 1
            split at hg
            · rw [← Role.worker.inj hg]
              exact Nat.lt_succ_self _
            · exact (h.roles.started g i hg).trans (Nat.lt_succ_self _)
          before := fun hno => by
            have hno : s.callerPc = .before := hno
            rw [hpc] at hno
            exact absurd hno (by simp)
          exists_ := fun i hi => by
            obtain ⟨g, hg⟩ := h.roles.exists_ i hi
            refine ⟨g, ?_⟩
            rw [hrole, if_neg]
            · exact hg
            · intro heq
              rw [heq, hf] at hg
              exact absurd hg (by simp) }
      counts := h.counts
      records := ⟨h.records.ended, h.records.catching, h.records.recorded, h.records.first⟩
      past := pastInv_of_not_past hnotPast }

/-- The caller goes on, and not past the loop that waits. -/
theorem ParallelInv.callerWaits (h : ParallelInv mtx s)
    (ht : s.wake.doing t = .running f .user) (hf : s.role f = .caller)
    (hpast : s.callerPc.past = false) {s' : Parallel F T M C n}
    (hg : Goes s.wake s'.wake t f at_) (hrole : s'.role = s.role)
    (hstarted : s'.started = s.started) (hcaller : s'.callerPc = .locking)
    (hworker : s'.workerPc = s.workerPc) (hfits : at_.waits mtx) (hcounts : CountInv s')
    (hrecords : RecordInv s') : ParallelInv mtx s' := by
  have hpast' : s'.callerPc.past = false := by
    rw [hcaller]
    rfl
  have hphase := phase_of_caller h.roles hf hrole (hpast'.trans hpast.symm) hworker
  rw [hcaller] at hphase
  refine
    { wake := hg.wake
      phases := hg.phases h.phases h.wake ht hphase (.inr hfits) ?_
      roles := ?_
      counts := hcounts
      records := hrecords
      past := pastInv_of_not_past hpast' }
  · intro huser
    rw [huser] at hfits
    exact absurd hfits (fun hno => hno)
  · apply h.roles.frame hrole hstarted
    · intro hno
      rw [hcaller] at hno
      exact absurd hno (by simp)
    · intro j hj
      left
      rwa [← hworker]

omit [DecidableEq F] [DecidableEq T] [DecidableEq M] [DecidableEq C] [Fintype T] in
/-- When `num_completed` is the number of functions, every worker is in the count. -/
theorem CountInv.counted_eq_one (h : CountInv s) (hn : n ≤ s.numCompleted) (i : Fin n) :
    (s.workerPc i).counted = 1 := by
  have hcount : (s.numCompleted : ℤ) = count WorkerPc.counted s.workerPc := h
  have hle (p : WorkerPc) : 0 ≤ 1 - p.counted := by
    cases p <;> simp [WorkerPc.counted]
  -- each worker counts at most 1, and together they count as many as they are
  have hsum : count (fun p : WorkerPc => 1 - p.counted) s.workerPc =
      n - count WorkerPc.counted s.workerPc := by
    rw [count, count, Finset.sum_sub_distrib, Finset.sum_const, Finset.card_univ,
      Fintype.card_fin, nsmul_eq_mul, mul_one]
  have hzero : count (fun p : WorkerPc => 1 - p.counted) s.workerPc = 0 := by
    have hnonneg : 0 ≤ count (fun p : WorkerPc => 1 - p.counted) s.workerPc :=
      count_nonneg hle
    omega
  have hi := eq_zero_of_count_eq_zero hle hzero i
  have hi : 1 - (s.workerPc i).counted = 0 := hi
  omega

/-- The caller holds the mutex, so the workers in the count have given it back. -/
theorem ParallelInv.completed (h : ParallelInv mtx s) (hf : s.role f = .caller)
    (howner : s.wake.owner (.user mtx) = some (.fiber f)) (hn : n ≤ s.numCompleted) (i : Fin n) :
    s.workerPc i = .completed := by
  have hcounted := h.counts.counted_eq_one hn i
  have hfree (hrun : s.workerPc i ≠ .running)
      (hholding : ∀ past, (s.workerPc i).phase past = .holding) : False := by
    obtain ⟨g, hg⟩ := h.roles.exists_ i hrun
    have hholds := h.phases.owner_of_holding ((s.phase_of_worker hg).trans (hholding _))
    rw [howner] at hholds
    have heq : f = g := by simpa using hholds
    rw [heq, hg] at hf
    exact absurd hf (by simp)
  -- a worker that has counted itself and is not done would hold the mutex
  match hpc : s.workerPc i with
  | .completed => rfl
  | .notifying => exact (hfree (by rw [hpc]; simp) (fun _ => by rw [hpc]; rfl)).elim
  | .notified => exact (hfree (by rw [hpc]; simp) (fun _ => by rw [hpc]; rfl)).elim
  | .running | .catching _ | .caught | .locking =>
    rw [hpc] at hcounted
    exact absurd hcounted (by simp [WorkerPc.counted])

/-- The test of the loop that waits. -/
theorem ParallelInv.check (h : ParallelInv mtx s) (ht : s.wake.doing t = .running f .user)
    (hf : s.role f = .caller) (hpc : s.callerPc = .locking) (cond : C) :
    ParallelInv mtx (s.check mtx cond t) := by
  have hphasef : s.phase f = .locking := by
    rw [s.phase_of_caller hf, hpc]
    rfl
  have hholds : (s.phase f).holds := by
    rw [hphasef]
    trivial
  have howner := h.phases.owner t f ht hholds
  have hpast : s.callerPc.past = false := by
    rw [hpc]
    rfl
  unfold Parallel.check
  -- `cond.wait(l)`, or past the loop
  split
  · exact h.callerWaits ht hf hpast (goes_wait h.wake ht howner cond) rfl rfl hpc rfl rfl h.counts
      ⟨h.records.ended, h.records.catching, h.records.recorded, h.records.first⟩
  · next hlt =>
    have hcompleted := h.completed hf howner (not_lt.mp hlt)
    have hothers (g : F) (hne : g ≠ f) : (s.phase g).roams := by
      rw [Parallel.phase]
      split
      · trivial
      · next hg => exact absurd (h.roles.caller g f hg hf) hne
      · next i hg =>
        rw [hcompleted i, hpast]
        trivial
    let error : Option String := if s.hitError then some (errorText s.errorStr) else none
    let s' : Parallel F T M C n := (s.setCaller (.leaving error)).act (.unlock t mtx)
    show ParallelInv mtx s'
    have hg : Goes s.wake s'.wake t f (.unlock (.user mtx) .grab) :=
      goes_unlock h.wake ht howner
    -- first the workers turn from `done` to `free`, and then the caller goes on
    have hrenamed : PhaseInv mtx s.wake (Function.update s'.phase f (s.phase f)) := by
      apply h.phases.rename
      · intro g
        by_cases heq : g = f
        · left
          rw [heq, Function.update_self]
        · rw [Function.update_of_ne heq]
          cases hrole : s.role g with
          | other =>
            left
            have hrole' : s'.role g = .other := hrole
            rw [Parallel.phase, Parallel.phase, hrole, hrole']
          | caller => exact absurd (h.roles.caller g f hrole hf) heq
          | worker i =>
            right
            refine ⟨hothers g heq, ?_⟩
            have hrole' : s'.role g = .worker i := hrole
            rw [s'.phase_of_worker hrole']
            show (s.workerPc i).phase true = .free
            rw [hcompleted i]
            rfl
      · intro t' g a hg hchanged
        have hne : g ≠ f := by
          intro heq
          rw [heq, Function.update_self] at hchanged
          exact hchanged rfl
        exact h.phases.alone h.wake ht hholds hothers hg hne
    have hphasef' : s'.phase f = .unlocking := s'.phase_of_caller hf
    have hchange := hrenamed.change h.wake ht hg.keeps hg.doing
      (p := .unlocking) (.inr rfl) (fun hno => absurd hno (by simp))
    rw [Function.update_idem, ← hphasef', Function.update_eq_self] at hchange
    exact
      { wake := hg.wake
        phases := hchange
        roles := by
          refine h.roles.frame rfl rfl (fun hno => absurd hno ?_) (fun j hj => .inl hj)
          simp [s', Parallel.act, Parallel.setCaller]
        counts := h.counts
        records := ⟨h.records.ended, h.records.catching, h.records.recorded, h.records.first⟩
        past := by
          -- what is thrown is the message that was recorded first
          refine ⟨fun _ => hcompleted, fun error' herror => ?_⟩
          have hfirst := congrArg (Option.map errorText) h.records.first
          rw [Option.map_map] at hfirst
          obtain herror | herror := herror
          · rw [← CallerPc.leaving.inj herror]
            show error = _
            rw [show s'.firstError = _ from hfirst.symm]
            show (if s.hitError then some (errorText s.errorStr) else none) = _
            split
            · rfl
            · rfl
          · exact absurd herror (by simp [s', Parallel.act, Parallel.setCaller]) }

/-- The caller is out of the destructor of `l`. -/
theorem ParallelInv.leave (h : ParallelInv mtx s) (ht : s.wake.doing t = .running f .user)
    (hf : s.role f = .caller) {error : Option String} (hpc : s.callerPc = .leaving error) :
    ParallelInv mtx (s.setCaller (.ended error)) := by
  have hpast : s.callerPc.past = true := by
    rw [hpc]
    rfl
  have hg : Goes s.wake s.wake t f .user := .refl h.wake ht
  have hphase : (s.setCaller (.ended error)).phase = Function.update s.phase f .free :=
    phase_of_caller h.roles hf rfl hpast.symm rfl
  have hphases : PhaseInv mtx (s.setCaller (.ended error)).wake
      (s.setCaller (.ended error)).phase := by
    rw [hphase]
    exact h.phases.change h.wake ht hg.keeps hg.doing (fun hno => hno)
      (fun _ hno => absurd hno (fun hno => hno))
  exact
    { wake := h.wake
      phases := hphases
      roles := by
        refine h.roles.frame rfl rfl (fun hno => absurd hno ?_) (fun j hj => .inl hj)
        simp [Parallel.setCaller]
      counts := h.counts
      records := ⟨h.records.ended, h.records.catching, h.records.recorded, h.records.first⟩
      past := by
        refine ⟨fun _ => h.past.completed hpast, fun error' herror => ?_⟩
        obtain herror | herror := herror
        · exact absurd herror (by simp [Parallel.setCaller])
        · rw [← CallerPc.ended.inj herror]
          exact h.past.error error (.inl hpc) }

/-! ## Every run -/

theorem ParallelInv.init :
    ParallelInv mtx (parallelMachine F T M C n mtx cond).init where
  wake := wakeInv_init
  phases :=
    { running := fun _ _ _ ht => absurd ht (by simp [parallelMachine, wakeMachine])
      nested := fun _ _ hf => absurd hf List.not_mem_nil
      suspended := fun _ hf => absurd hf.1 (by simp [parallelMachine, wakeMachine])
      idle := fun _ _ => trivial
      owner := fun _ _ ht => absurd ht (by simp [parallelMachine, wakeMachine])
      handled := fun _ _ ht => absurd ht (by simp [parallelMachine, wakeMachine])
      waited := fun _ _ _ ht => absurd ht (by simp [parallelMachine, wakeMachine]) }
  roles :=
    { caller := fun _ _ hf => absurd hf (by simp [parallelMachine])
      worker := fun _ _ _ hf => absurd hf (by simp [parallelMachine])
      started := fun _ _ hf => absurd hf (by simp [parallelMachine])
      before := fun _ _ => rfl
      exists_ := fun _ hi => absurd rfl hi }
  counts := (count_eq_zero fun _ => rfl).symm
  records :=
    { ended := fun _ => iff_of_true rfl rfl
      catching := fun _ _ hi => absurd hi (by simp [parallelMachine])
      recorded := fun _ _ => by simp [parallelMachine]
      first := rfl }
  past := pastInv_of_not_past rfl

theorem ParallelInv.step (h : ParallelInv mtx s) {a : ParallelAction F T M C}
    (he : s.enabled mtx cond a) : ParallelInv mtx (s.next mtx cond a) := by
  match a with
  -- other code, and what goes on inside of the functions of the fibers
  | .wake a =>
    exact
      { wake := h.wake.step (moves_of_enabled he.1)
        phases := phaseInv_wake h.phases h.wake he.1 he.2
        roles := ⟨h.roles.caller, h.roles.worker, h.roles.started, h.roles.before,
          h.roles.exists_⟩
        counts := h.counts
        records := ⟨h.records.ended, h.records.catching, h.records.recorded, h.records.first⟩
        past := ⟨h.past.completed, h.past.error⟩ }
  | .call t =>
    obtain ⟨hrole, hpc⟩ := he
    obtain ⟨f, -, huser, -⟩ := of_roleOn hrole
    rw [Parallel.next, huser]
    exact h.call hpc
  | .runInFiber t f =>
    obtain ⟨-, hpc, hlt, hf, -⟩ := he
    exact h.runInFiber hpc hlt hf
  | .allStarted t =>
    obtain ⟨hrole, hpc, -⟩ := he
    obtain ⟨f, ht, -, hf⟩ := of_roleOn hrole
    have hpast : s.callerPc.past = false := by
      rw [hpc]
      rfl
    exact h.callerWaits ht hf hpast (goes_lock h.wake ht mtx) rfl rfl rfl rfl rfl h.counts
      ⟨h.records.ended, h.records.catching, h.records.recorded, h.records.first⟩
  | .check t =>
    obtain ⟨hrole, hpc⟩ := he
    obtain ⟨f, ht, -, hf⟩ := of_roleOn hrole
    exact h.check ht hf hpc cond
  | .leave t error =>
    obtain ⟨hrole, hpc⟩ := he
    obtain ⟨f, ht, -, hf⟩ := of_roleOn hrole
    exact h.leave ht hf hpc
  | .fnEnds t o =>
    obtain ⟨f, i, ht, hf, hon, hpc⟩ := of_workerOn he
    rw [Parallel.next, onWorker_eq hon]
    exact h.fnEnds ht hf hpc o
  | .record t message =>
    obtain ⟨f, i, ht, hf, hon, hpc⟩ := of_workerOn he
    rw [Parallel.next, onWorker_eq hon]
    exact h.record ht hf hpc
  | .endCatch t =>
    obtain ⟨f, i, ht, hf, hon, hpc⟩ := of_workerOn he
    rw [Parallel.next, onWorker_eq hon]
    exact h.endCatch ht hf hpc
  | .complete t =>
    obtain ⟨f, i, ht, hf, hon, hpc⟩ := of_workerOn he
    rw [Parallel.next, onWorker_eq hon]
    exact h.complete ht hf hpc
  | .notify t k =>
    obtain ⟨f, i, ht, hf, hon, hpc⟩ := of_workerOn he.1
    rw [Parallel.next, onWorker_eq hon]
    exact h.notify ht hf hpc he.2
  | .endLambda t =>
    obtain ⟨f, i, ht, hf, hon, hpc⟩ := of_workerOn he
    rw [Parallel.next, onWorker_eq hon]
    exact h.endLambda ht hf hpc

/-- Once the call has ended, all its fibers are in code of their own. -/
theorem ParallelInv.allFree (h : ParallelInv mtx s) {error : Option String}
    (hended : s.callerPc = .ended error) (f : F) : s.free f ∧ s.phase f = .free := by
  have hpast : s.callerPc.past = true := by
    rw [hended]
    rfl
  match hf : s.role f with
  | .other =>
    refine ⟨?_, by rw [Parallel.phase, hf]⟩
    rw [Parallel.free, hf]
    trivial
  | .caller =>
    rw [s.phase_of_caller hf, Parallel.free, hf, hended]
    exact ⟨.inr rfl, rfl⟩
  | .worker i =>
    have hcompleted := h.past.completed hpast i
    rw [s.phase_of_worker hf, Parallel.free, hf, hcompleted, hpast]
    exact ⟨.inr hcompleted, rfl⟩

theorem ParallelInv.holds (h : ParallelInv mtx s) {error : Option String}
    (hended : s.callerPc = .ended error) : ParallelHolds mtx s error := by
  have hpast : s.callerPc.past = true := by
    rw [hended]
    rfl
  have herror := h.past.error error (.inr hended)
  have hrecorded (i : Fin n) (message : String) : (i, message) ∈ s.catches ↔
      ∃ e : Thrown, s.outcome i = some (.threw e) ∧ message = e.message := by
    rw [h.records.recorded, and_iff_left]
    rw [h.past.completed hpast i]
    simp
  refine ⟨fun i hi => ?_, ?_, herror, hrecorded, fun t => ?_⟩
  · rw [h.records.ended, h.past.completed hpast i] at hi
    exact absurd hi (by simp)
  · rw [herror, Parallel.firstError, ne_eq, Option.map_eq_none_iff, List.head?_eq_none_iff]
    constructor
    -- an error is recorded for a function that has thrown, and for each of them
    · intro hne
      obtain ⟨⟨i, message⟩, hmem⟩ := List.exists_mem_of_ne_nil s.catches hne
      obtain ⟨e, hout, -⟩ := (hrecorded i message).mp hmem
      exact ⟨i, e, hout⟩
    · intro ⟨i, e, hout⟩ hnil
      have hmem := (hrecorded i e.message).mpr ⟨e, hout, rfl⟩
      rw [hnil] at hmem
      exact absurd hmem List.not_mem_nil
  · obtain ⟨hruns, hhandles⟩ :=
      h.phases.untouched (fun f => (h.allFree hended f).2) t
    unfold Parallel.touches
    split
    · next f _ => exact not_not.mpr (h.allFree hended f).1
    · next f at_ _ ht => exact hruns f at_ ht
    · next f op ht => exact hhandles f op ht
    · exact fun hno => hno

/-- `run_in_parallel` of any number of functions, whatever they do and in whichever order the
fibers go on: when the call has returned or thrown, all functions have ended, it has thrown if
and only if one of them has, with what was recorded first, and nobody touches its locals any
more. -/
theorem parallelHolds {error : Option String}
    (hs : (parallelMachine F T M C n mtx cond).Reachable Machine.anyStep s)
    (hended : s.callerPc = .ended error) : ParallelHolds mtx s error := by
  have hinv : ParallelInv mtx s := by
    apply hs.invariant ParallelInv.init
    intro s a h _ he
    exact h.step he
  exact hinv.holds hended

/-- The steps of the thread, one after the other. -/
def stepsOf (t : Bool) (k : ℕ) : List (ParallelAction (Fin 3) Bool Unit Unit) :=
  List.replicate k (.wake (.step t 0))

/-- Two functions: the first one throws, and the caller, which waits on the condition, is notified
when the second one has returned. -/
def throwingRun : List (ParallelAction (Fin 3) Bool Unit Unit) :=
  List.flatten
    [[.wake (.start false 0), .wake (.resume false), .call false, .runInFiber false 1,
        .runInFiber false 2, .allStarted false],
      stepsOf false 1, [.check false], stepsOf false 5,
      [.wake (.return_ false), .wake (.start true 1), .wake (.resume true),
        .fnEnds true (.threw (.std "no"))],
      stepsOf true 1, [.record true "no"], stepsOf true 3, [.endCatch true], stepsOf true 1,
      [.complete true], stepsOf true 3, [.wake (.exit true)], stepsOf true 7,
      [.wake (.return_ true), .wake (.start true 2), .wake (.resume true),
        .fnEnds true .returned],
      stepsOf true 1, [.complete true, .notify true 0, .endLambda true], stepsOf true 3,
      [.wake (.exit true)], stepsOf true 7, [.wake (.resume true)], stepsOf true 1,
      [.check true], stepsOf true 3, [.leave true (some (errorText "no"))]]

theorem parallelHolds_thrown : ∃ s : Parallel (Fin 3) Bool Unit Unit 2,
    ParallelHolds () s (some (errorText "no")) ∧ s.catches = [(0, "no")] := by
  have hrun : ((parallelMachine (Fin 3) Bool Unit Unit 2 () ()).replay Machine.anyStep throwingRun
      (parallelMachine (Fin 3) Bool Unit Unit 2 () ()).init).any (fun s =>
        decide (s.callerPc = .ended (some (errorText "no")) ∧ s.catches = [(0, "no")])) = true := by
    decide +kernel
  obtain ⟨s, hs, hp⟩ := Machine.reachable_of_replay hrun
  obtain ⟨hended, hcatches⟩ := of_decide_eq_true hp
  exact ⟨s, parallelHolds hs hended, hcatches⟩

end Steps

end Anon.Fiber.Wake
