import Anon.Fiber.Mutex
import Anon.Lib.Counting
import Anon.Lib.Segment

/-!
# `fiber_mutex` is a lock

`state_` is the number of holders (at most one) plus one for every party in transit: a fiber
that is about to take back its `fetch_add`, a fiber that puts itself to sleep until its
parent has taken the increment back, and an `unlock` past its first compare-exchange. The wake
list belongs to the at most one party of the last two kinds (`Thread.access`).

* `Moves` says once what a step can do; every invariant is a case analysis over it.
* `Counters`: the account of `state_`.
* `Stacks`: a fiber runs on one thread only.
* `Lists`: the shape of the wake list at every half-finished step.
-/

namespace Anon.Fiber

open MutexState

variable {F T : Type}

/-! ## Shares of `state_` -/

/-- The two contexts that execute `unlock`: a running fiber, and a parent on behalf of a fiber
that waits on a condition. -/
inductive Unlocker : (UnlockStep → Thread F) → Prop
  | fiber (f : F) (nest : List F) : Unlocker fun u => .running f nest (.unlock u)
  | parent (nest : List F) : Unlocker fun u => .condWait nest u

/-- The share of `state_` that a step of `unlock` holds besides the mutex itself. -/
def UnlockStep.transit : UnlockStep → ℤ
  | .grab => 0
  | _ => 1

/-- The share of `state_` that a thread in transit holds. -/
def Thread.transit : Thread F → ℤ
  | .running _ _ .user | .running _ _ .fetchAdd => 0
  | .running _ _ (.unlock u) => u.transit
  | .running _ _ _ => 1
  | .mutexSuspend _ _ => 1
  | .condWait _ u => u.transit
  | _ => 0

@[simp] theorem UnlockStep.transit_grab : UnlockStep.grab.transit = 0 := rfl

@[simp] theorem UnlockStep.transit_of_ne {u : UnlockStep} (hu : u ≠ .grab) : u.transit = 1 := by
  cases u <;> first | exact absurd rfl hu | rfl

/-- One for the thread that the wake list belongs to. -/
def Thread.access : Thread F → ℤ
  | .running _ _ .backOff => 0
  | th => th.transit

/-- One for a parent that unlocks on behalf of a fiber. -/
def Thread.parentHold : Thread F → ℤ
  | .condWait _ _ => 1
  | _ => 0

/-- One for a fiber that holds the mutex. -/
def holdWeight : Bool → ℤ
  | true => 1
  | false => 0

theorem UnlockStep.transit_nonneg (u : UnlockStep) : 0 ≤ u.transit := by
  cases u <;> decide

theorem Thread.transit_nonneg (th : Thread F) : 0 ≤ th.transit := by
  unfold Thread.transit
  split <;> first | exact UnlockStep.transit_nonneg _ | decide

theorem Thread.access_nonneg (th : Thread F) : 0 ≤ th.access := by
  unfold Thread.access
  split
  · exact le_rfl
  · exact th.transit_nonneg

theorem Thread.access_le_transit (th : Thread F) : th.access ≤ th.transit := by
  unfold Thread.access
  split
  · exact zero_le_one
  · exact le_rfl

theorem Thread.parentHold_nonneg (th : Thread F) : 0 ≤ th.parentHold := by
  unfold Thread.parentHold
  split <;> decide

theorem holdWeight_nonneg (b : Bool) : 0 ≤ holdWeight b := by
  cases b <;> decide

section Unlocker

variable {k : UnlockStep → Thread F} (hk : Unlocker k) (u : UnlockStep)
include hk

theorem Unlocker.transit_eq : (k u).transit = u.transit := by
  cases hk <;> rfl

theorem Unlocker.access_eq : (k u).access = u.transit := by
  cases hk <;> rfl

theorem Unlocker.parentHold_eq (u' : UnlockStep) : (k u).parentHold = (k u').parentHold := by
  cases hk <;> rfl

end Unlocker

variable [DecidableEq F] [DecidableEq T]

/-! ## What a step can do -/

theorem spliceTail_thread (s : MutexState F T) (t : T) (th : Thread F) :
    ((s.unlockEffect t .spliceTail).setThread t th).thread = Function.update s.thread t th := by
  simp only [unlockEffect]
  split <;> rfl

/-- One step of the machine, with what its guard gives and the state it leads to. -/
inductive Moves (s : MutexState F T) : MutexState F T → Prop
  | wake (t : T) (f : F) (ht : s.thread t = .idle) (hf : s.place f = .parked) :
      Moves s ((s.pushWakeHead t f).setThread t (.wakeAll []))
  | start (t : T) (f g : F) (nest : List F) (ht : s.thread t = .running g nest .user)
      (hf : s.place f = .parked) :
      Moves s ((s.pushWakeHead t f).setThread t (.wakeAll (g :: nest)))
  | resume (t : T) (f : F) (nest : List F) (at_ : FiberStep) (ht : s.thread t = .wakeAll nest)
      (hw : s.wakeHead t = some f) (hat : at_ = .user ∨ at_ = .fetchAdd) :
      Moves s (({ s with wakeHead := Function.update s.wakeHead t (s.nextWake f) }.setPlace f
        (.running t)).setThread t (.running f nest at_))
  | returnIdle (t : T) (ht : s.thread t = .wakeAll []) : Moves s (s.setThread t .idle)
  | returnTo (t : T) (g : F) (nest : List F) (ht : s.thread t = .wakeAll (g :: nest)) :
      Moves s (s.setThread t (.running g nest .user))
  | suspend (t : T) (f : F) (nest : List F) (ht : s.thread t = .running f nest .user) :
      Moves s ((s.setPlace f .parked).setThread t (.wakeAll nest))
  | lock (t : T) (f : F) (nest : List F) (ht : s.thread t = .running f nest .user) :
      Moves s (s.setThread t (.running f nest .fetchAdd))
  | unlock (t : T) (f : F) (nest : List F) (ht : s.thread t = .running f nest .user)
      (hf : s.holds f = true) : Moves s (s.setThread t (.running f nest (.unlock .grab)))
  | condWait (t : T) (f : F) (nest : List F) (ht : s.thread t = .running f nest .user)
      (hf : s.holds f = true) :
      Moves s (((s.setHolds f false).setPlace f .parked).setThread t (.condWait nest .grab))
  | acquire (t : T) (f : F) (nest : List F) (ht : s.thread t = .running f nest .fetchAdd)
      (hs : s.state = 0) :
      Moves s (({ s with state := s.state + 1 }.setHolds f true).setThread t
        (.running f nest .user))
  | beginSleep (t : T) (f : F) (nest : List F) (ht : s.thread t = .running f nest .fetchAdd)
      (hs : s.state = 1) :
      Moves s ({ s with state := s.state + 1 }.setThread t (.running f nest .pushTail))
  | contend (t : T) (f : F) (nest : List F) (ht : s.thread t = .running f nest .fetchAdd)
      (h0 : s.state ≠ 0) (h1 : s.state ≠ 1) :
      Moves s ({ s with state := s.state + 1 }.setThread t (.running f nest .backOff))
  | backOff (t : T) (f : F) (nest : List F) (ht : s.thread t = .running f nest .backOff) :
      Moves s ({ s with state := s.state - 1 }.setThread t (.running f nest .fetchAdd))
  | pushTail (t : T) (f : F) (nest : List F) (ht : s.thread t = .running f nest .pushTail) :
      Moves s ({ s with fiberWakeTail := s.fiberWakeTail.or (some f) }.setThread t
        (.running f nest .pushNext))
  | pushNext (t : T) (f : F) (nest : List F) (ht : s.thread t = .running f nest .pushNext) :
      Moves s ({ s with nextWake := Function.update s.nextWake f s.fiberWakeHead }.setThread t
        (.running f nest .pushHead))
  | pushHead (t : T) (f : F) (nest : List F) (ht : s.thread t = .running f nest .pushHead) :
      Moves s (({ s with fiberWakeHead := some f }.setPlace f .asleep).setThread t
        (.running f nest .switching))
  | switch (t : T) (f : F) (nest : List F) (ht : s.thread t = .running f nest .switching) :
      Moves s (s.setThread t (.mutexSuspend f nest))
  | decrement (t : T) (f : F) (nest : List F) (ht : s.thread t = .mutexSuspend f nest) :
      Moves s ({ s with state := s.state - 1 }.setThread t (.wakeAll nest))
  | grab (t : T) (k : UnlockStep → Thread F) (hk : Unlocker k) (ht : s.thread t = k .grab)
      (hs : s.state = 1) : Moves s ({ s with state := 2 }.setThread t (k .test))
  | test (t : T) (k : UnlockStep → Thread F) (hk : Unlocker k) (ht : s.thread t = k .test) :
      Moves s (s.setThread t
        (k (if s.fiberWakeHead = none then .release else .spliceTail)))
  | spliceTail (t : T) (k : UnlockStep → Thread F) (hk : Unlocker k)
      (ht : s.thread t = k .spliceTail) :
      Moves s ((s.unlockEffect t .spliceTail).setThread t (k .spliceHead))
  | spliceHead (t : T) (k : UnlockStep → Thread F) (hk : Unlocker k)
      (ht : s.thread t = k .spliceHead) :
      Moves s ((s.unlockEffect t .spliceHead).setThread t (k .clearHead))
  | clearHead (t : T) (k : UnlockStep → Thread F) (hk : Unlocker k)
      (ht : s.thread t = k .clearHead) :
      Moves s ({ s with fiberWakeHead := none }.setThread t (k .clearTail))
  | clearTail (t : T) (k : UnlockStep → Thread F) (hk : Unlocker k)
      (ht : s.thread t = k .clearTail) :
      Moves s ({ s with fiberWakeTail := none }.setThread t (k .release))
  | release (t : T) (f : F) (nest : List F)
      (ht : s.thread t = .running f nest (.unlock .release)) (hs : s.state = 2) :
      Moves s (({ s with state := 0 }.setHolds f false).setThread t (.running f nest .user))
  | releaseParent (t : T) (nest : List F) (ht : s.thread t = .condWait nest .release)
      (hs : s.state = 2) : Moves s ({ s with state := 0 }.setThread t (.wakeAll nest))

/-- The steps of `unlock` short of the last one are moves. -/
theorem moves_unlock {s : MutexState F T} {t : T} {k : UnlockStep → Thread F}
    (hk : Unlocker k) {u u' : UnlockStep} (ht : s.thread t = k u) (hu : s.unlockEnabled u)
    (hthen : s.unlockThen u = some u') : Moves s ((s.unlockEffect t u).setThread t (k u')) := by
  cases u <;> simp only [unlockThen, Option.some.injEq, reduceCtorEq] at hthen <;> subst hthen
  · exact .grab t k hk ht hu
  · exact .test t k hk ht
  · exact .spliceTail t k hk ht
  · exact .spliceHead t k hk ht
  · exact .clearHead t k hk ht
  · exact .clearTail t k hk ht

theorem moves_step {s : MutexState F T} {t : T} (h : s.stepEnabled t) :
    Moves s (s.stepNext t) := by
  unfold stepEnabled at h
  unfold stepNext
  split at h
  · exact h.elim
  · next f nest u ht =>
    simp only [ht]
    cases hu : s.unlockThen u with
    | some u' => exact moves_unlock (.fiber f nest) ht h hu
    | none =>
      cases u <;> simp only [unlockThen, reduceCtorEq] at hu
      exact .release t f nest ht h
  · next f nest at_ hne hnu ht =>
    simp only [ht]
    cases at_ with
    | user => exact (hne rfl).elim
    | fetchAdd =>
      simp only [lockFetchAdd]
      split
      · exact .acquire t f nest ht ‹_›
      · split
        · exact .beginSleep t f nest ht ‹_›
        · exact .contend t f nest ht ‹_› ‹_›
    | backOff => exact .backOff t f nest ht
    | pushTail => exact .pushTail t f nest ht
    | pushNext => exact .pushNext t f nest ht
    | pushHead => exact .pushHead t f nest ht
    | switching => exact .switch t f nest ht
    | unlock u => exact (hnu u rfl).elim
  · next f nest ht =>
    simp only [ht]
    exact .decrement t f nest ht
  · next nest u ht =>
    simp only [ht]
    cases hu : s.unlockThen u with
    | some u' => exact moves_unlock (.parent nest) ht h hu
    | none =>
      cases u <;> simp only [unlockThen, reduceCtorEq] at hu
      exact .releaseParent t nest ht h
  · exact h.elim

/-- Every enabled action is one of the moves. -/
theorem moves_of_enabled {s : MutexState F T} {a : MutexAction F T} (h : s.enabled a) :
    Moves s (s.next a) := by
  cases a with
  | wake t f => exact .wake t f h.1 h.2
  | start t f =>
    simp only [MutexState.enabled] at h
    split at h
    · next g nest ht =>
      simp only [MutexState.next, ht]
      exact .start t f g nest ht h
    · exact h.elim
  | resume t =>
    simp only [MutexState.enabled] at h
    split at h
    · next nest ht =>
      obtain ⟨f, hf⟩ := Option.isSome_iff_exists.mp h
      simp only [MutexState.next, ht, hf]
      refine .resume t f nest _ ht hf ?_
      split
      · exact .inr rfl
      · exact .inl rfl
    · exact h.elim
  | return_ t =>
    simp only [MutexState.enabled] at h
    split at h
    · next nest ht =>
      cases nest with
      | nil =>
        simp only [MutexState.next, ht]
        exact .returnIdle t ht
      | cons g nest =>
        simp only [MutexState.next, ht]
        exact .returnTo t g nest ht
    · exact h.elim
  | suspend t =>
    simp only [MutexState.enabled] at h
    split at h
    · next f nest ht =>
      simp only [MutexState.next, ht]
      exact .suspend t f nest ht
    · exact h.elim
  | lock t =>
    simp only [MutexState.enabled] at h
    split at h
    · next f nest ht =>
      simp only [MutexState.next, ht]
      exact .lock t f nest ht
    · exact h.elim
  | unlock t =>
    simp only [MutexState.enabled] at h
    split at h
    · next f nest ht =>
      simp only [MutexState.next, ht]
      exact .unlock t f nest ht h
    · exact h.elim
  | condWait t =>
    simp only [MutexState.enabled] at h
    split at h
    · next f nest ht =>
      simp only [MutexState.next, ht]
      exact .condWait t f nest ht h
    · exact h.elim
  | step t => exact moves_step h

/-! ## The account of `state_` -/

variable [Fintype F] [Fintype T]

/-- The number of parties that hold the mutex. -/
def MutexState.holders (s : MutexState F T) : ℤ :=
  count holdWeight s.holds + count Thread.parentHold s.thread

/-- The account of `state_`: one for the holder and one for each party in transit. -/
structure Account (s : MutexState F T) : Prop where
  state_eq : s.state = s.holders + count Thread.transit s.thread
  holders_le : s.holders ≤ 1
  access_le : count Thread.access s.thread ≤ 1
  free : s.holders = 0 → s.state = 0

/-- A fiber in `unlock` holds the mutex. -/
def UnlockHolds (s : MutexState F T) : Prop :=
  ∀ t f nest u, s.thread t = .running f nest (.unlock u) → s.holds f = true

variable {s s' : MutexState F T}

omit [DecidableEq F] [DecidableEq T] in
theorem holders_nonneg : 0 ≤ s.holders :=
  add_nonneg (count_nonneg holdWeight_nonneg) (count_nonneg Thread.parentHold_nonneg)

omit [DecidableEq F] [DecidableEq T] [Fintype F] in
theorem access_le_transit : count Thread.access s.thread ≤ count Thread.transit s.thread :=
  Finset.sum_le_sum fun t _ => (s.thread t).access_le_transit

omit [DecidableEq F] [DecidableEq T] in
/-- When nobody holds the mutex, no fiber does. -/
theorem not_holds (h : s.holders = 0) (f : F) : s.holds f = false := by
  have h1 := count_nonneg (f := s.thread) Thread.parentHold_nonneg
  have h2 := le_count (f := s.holds) holdWeight_nonneg f
  rw [MutexState.holders] at h
  cases hf : s.holds f with
  | false => rfl
  | true =>
    simp only [hf, holdWeight] at h2
    omega

theorem Account.step (h : Account s) (hun : UnlockHolds s) (hm : Moves s s') : Account s' := by
  obtain ⟨hst, hle, hac, hfree⟩ := h
  have hnn := holders_nonneg (s := s)
  have hat := access_le_transit (s := s)
  have hacc : 0 ≤ count Thread.access s.thread := count_nonneg Thread.access_nonneg
  have hnot := fun f h => not_holds (s := s) h f
  simp only [MutexState.holders] at *
  cases hm
  case acquire t f nest ht hs =>
    have hf := hnot f (by omega)
    constructor <;> simp [MutexState.holders, ht, hf, Thread.transit, Thread.access,
      Thread.parentHold, holdWeight] <;> omega
  case release t f nest ht hs =>
    have hf := hun t f nest _ ht
    constructor <;> simp [MutexState.holders, ht, hf, Thread.transit, Thread.access,
      Thread.parentHold, holdWeight] <;> omega
  case condWait t f nest ht hf =>
    constructor <;> simp [MutexState.holders, ht, hf, Thread.transit, Thread.access,
      Thread.parentHold, holdWeight] <;> omega
  case test t k hk ht =>
    have hu : (if s.fiberWakeHead = none then UnlockStep.release else .spliceTail) ≠ .grab := by
      split <;> simp
    constructor <;> simp [MutexState.holders, ht, hk.transit_eq, hk.access_eq,
      hk.parentHold_eq _ .grab, hu] <;> omega
  case spliceTail t k hk ht =>
    cases htail : s.fiberWakeTail <;>
    constructor <;> simp [MutexState.holders, ht, hk.transit_eq, hk.access_eq,
      hk.parentHold_eq _ .grab, unlockEffect, htail] <;> omega
  case grab t k hk ht hs | spliceHead t k hk ht | clearHead t k hk ht | clearTail t k hk ht =>
    constructor <;> simp [MutexState.holders, ht, hk.transit_eq, hk.access_eq,
      hk.parentHold_eq _ .grab, unlockEffect] <;> omega
  case resume t f nest at_ ht hw hat =>
    rcases hat with rfl | rfl
    all_goals
      constructor <;> simp [MutexState.holders, ht, Thread.transit, Thread.access,
        Thread.parentHold] <;> omega
  -- a party in transit is itself part of the count, so somebody holds the mutex
  case backOff t f nest ht | decrement t f nest ht =>
    have htr := le_count (f := s.thread) Thread.transit_nonneg t
    simp only [ht, Thread.transit] at htr
    constructor <;> simp [MutexState.holders, ht, Thread.transit, Thread.access,
      Thread.parentHold] <;> omega
  all_goals
    constructor <;> simp [MutexState.holders, *, Thread.transit, Thread.access,
      Thread.parentHold] <;> omega

/-! ## A fiber runs on one thread -/

/-- The fibers on the stack of a thread, innermost first. -/
def Thread.stack : Thread F → List F
  | .idle => []
  | .wakeAll nest => nest
  | .running f nest _ => f :: nest
  | .mutexSuspend _ nest => nest
  | .condWait nest _ => nest

omit [DecidableEq F] [Fintype F] in
theorem Unlocker.stack_eq {k : UnlockStep → Thread F} (hk : Unlocker k) (u u' : UnlockStep) :
    (k u).stack = (k u').stack := by
  cases hk <;> rfl

/-- Every fiber on the stack of a thread is marked as running there, except that a fiber about
to switch away is already on the wake list. -/
structure Stacks (s : MutexState F T) : Prop where
  nodup : ∀ t, (s.thread t).stack.Nodup
  place : ∀ t, ∀ f ∈ (s.thread t).stack, s.place f = .running t ∨
    s.place f = .asleep ∧ ∃ nest, s.thread t = .running f nest .switching

section Stacks

omit [DecidableEq F] [DecidableEq T] [Fintype F] [Fintype T] in
theorem Stacks.place_eq (h : Stacks s) {t : T} {f : F} (hf : f ∈ (s.thread t).stack)
    (hns : ∀ nest, s.thread t ≠ .running f nest .switching) : s.place f = .running t :=
  (h.place t f hf).resolve_right fun ⟨_, nest, hn⟩ => hns nest hn

omit [DecidableEq F] [DecidableEq T] [Fintype F] [Fintype T] in
/-- The fiber that a thread runs is marked as running there. -/
theorem Stacks.current (h : Stacks s) {t : T} {f : F} {nest : List F} {at_ : FiberStep}
    (ht : s.thread t = .running f nest at_) (hat : at_ ≠ .switching) :
    s.place f = .running t := by
  refine h.place_eq (by simp [ht, Thread.stack]) fun nest' hn => ?_
  rw [ht] at hn
  injection hn with _ _ h3
  exact hat h3

omit [DecidableEq F] [DecidableEq T] [Fintype F] [Fintype T] in
/-- A fiber runs on one thread. -/
theorem Stacks.thread_eq (h : Stacks s) {t t' : T} {f : F} (ht : s.place f = .running t)
    (hf : f ∈ (s.thread t').stack) : t' = t := by
  rcases h.place t' f hf with hp | ⟨hp, -⟩ <;> rw [ht] at hp
  · exact (Place.running.inj hp).symm
  · cases hp

omit [DecidableEq F] [Fintype F] [Fintype T] in
/-- One thread moves; the fibers on the other stacks keep their places. -/
theorem Stacks.move (h : Stacks s) {t : T} {th : Thread F}
    (hthread : s'.thread = Function.update s.thread t th) (hnd : th.stack.Nodup)
    (hplace : ∀ f ∈ th.stack, s'.place f = .running t ∨
      s'.place f = .asleep ∧ ∃ nest, th = .running f nest .switching)
    (hother : ∀ t' ≠ t, ∀ f ∈ (s.thread t').stack, s'.place f = s.place f) : Stacks s' := by
  constructor
  · intro t'
    rw [hthread]
    by_cases htt : t' = t
    · rw [htt, Function.update_self]
      exact hnd
    · rw [Function.update_of_ne htt]
      exact h.nodup t'
  · intro t' f hf
    rw [hthread] at hf ⊢
    by_cases htt : t' = t
    · rw [htt, Function.update_self] at hf ⊢
      exact hplace f hf
    · rw [Function.update_of_ne htt] at hf ⊢
      rw [hother t' htt f hf]
      exact h.place t' f hf

omit [DecidableEq F] [Fintype F] [Fintype T] in
/-- A thread moves without entering or leaving a fiber. -/
theorem Stacks.move_same (h : Stacks s) {t : T} {th : Thread F}
    (hthread : s'.thread = Function.update s.thread t th) (hplace : s'.place = s.place)
    (hstack : th.stack = (s.thread t).stack)
    (hns : ∀ f nest, s.thread t ≠ .running f nest .switching) : Stacks s' := by
  refine h.move hthread (hstack ▸ h.nodup t) ?_ fun _ _ _ _ => by rw [hplace]
  intro f hf
  rw [hplace]
  exact .inl (h.place_eq (hstack ▸ hf) (hns f))

omit [DecidableEq F] [DecidableEq T] [Fintype F] [Fintype T] in
/-- A fiber that is neither running nor asleep is on no stack. -/
theorem Stacks.ne_of_place (h : Stacks s) {f : F} {p : Place T} (hf : s.place f = p)
    (hrun : ∀ t, p ≠ .running t) (hasl : p ≠ .asleep) :
    ∀ t, ∀ g ∈ (s.thread t).stack, g ≠ f := by
  rintro t g hg rfl
  rcases h.place t g hg with hp | ⟨hp, -⟩ <;> rw [hf] at hp
  · exact hrun t hp
  · exact hasl hp

omit [DecidableEq F] [Fintype F] [Fintype T] in
/-- The innermost fiber leaves its thread. -/
theorem Stacks.leave (h : Stacks s) {t : T} {th : Thread F} {f : F}
    (hthread : s'.thread = Function.update s.thread t th)
    (hstack : (s.thread t).stack = f :: th.stack) (hf : s.place f = .running t)
    (hns : ∀ g nest, s.thread t ≠ .running g nest .switching)
    (hplace : ∀ g ≠ f, s'.place g = s.place g) : Stacks s' := by
  have hnd := h.nodup t
  rw [hstack, List.nodup_cons] at hnd
  refine h.move hthread hnd.2 (fun g hg => .inl ?_) fun t' htt g hg => hplace g ?_
  · rw [hplace g fun hgf => hnd.1 (hgf ▸ hg)]
    exact h.place_eq (by rw [hstack]; exact List.mem_cons_of_mem _ hg) (hns g)
  · rintro rfl
    exact htt (h.thread_eq hf hg)

omit [DecidableEq F] [DecidableEq T] [Fintype F] in
/-- A party that the wake list belongs to is alone. -/
theorem Account.access_eq_zero (h : count Thread.access s.thread ≤ 1) {t t' : T}
    (ht : (s.thread t).access = 1) (htt : t' ≠ t) : (s.thread t').access = 0 := by
  have h1 := add_le_count (f := s.thread) Thread.access_nonneg htt
  have h2 := (s.thread t').access_nonneg
  omega

omit [Fintype F] in
theorem Stacks.step (h : Stacks s) (hac : count Thread.access s.thread ≤ 1)
    (hr : ∀ t f, s.wakeHead t = some f → ∃ b, s.place f = .toBeResumed t b)
    (hm : Moves s s') : Stacks s' := by
  cases hm
  case wake t f ht hf =>
    have hne := h.ne_of_place hf (by simp) (by simp)
    refine h.move rfl (by simp [Thread.stack]) (by simp [Thread.stack]) fun t' _ g hg => ?_
    simp [hne t' g hg]
  case start t f g nest ht hf =>
    have hne := h.ne_of_place hf (by simp) (by simp)
    refine h.move rfl (by simpa [ht, Thread.stack] using h.nodup t) ?_ fun t' _ g' hg => by
      simp [hne t' g' hg]
    intro g' hg
    have hg' : g' ∈ (s.thread t).stack := by rw [ht]; exact hg
    left
    simp only [setThread, pushWakeHead, Function.update_of_ne (hne t g' hg')]
    exact h.place_eq hg' (by simp [ht])
  case resume t f nest at_ ht hw hat =>
    obtain ⟨b, hb⟩ := hr t f hw
    have hne := h.ne_of_place hb (by simp) (by simp)
    refine h.move rfl ?_ ?_ fun t' _ g hg => by simp [hne t' g hg]
    · refine List.nodup_cons.mpr ⟨fun hf => hne t f (by rw [ht]; exact hf) rfl, ?_⟩
      simpa [ht, Thread.stack] using h.nodup t
    · intro g hg
      left
      rcases List.mem_cons.mp hg with rfl | hg
      · simp
      · have hg' : g ∈ (s.thread t).stack := by rw [ht]; exact hg
        simp only [setThread, setPlace, Function.update_of_ne (hne t g hg')]
        exact h.place_eq hg' (by simp [ht])
  case suspend t f nest ht | condWait t f nest ht hf =>
    exact h.leave rfl (by simp [ht, Thread.stack]) (h.current ht (by simp)) (by simp [ht])
      fun g hg => by simp [hg]
  case pushHead t f nest ht =>
    have hf := h.current ht (by simp)
    have hnd := h.nodup t
    rw [ht, Thread.stack, List.nodup_cons] at hnd
    refine h.move rfl (by simpa [ht, Thread.stack] using h.nodup t) ?_ fun t' htt g hg => ?_
    · intro g hg
      rcases List.mem_cons.mp hg with rfl | hg
      · simp
      · have hgf : g ≠ f := fun hgf => hnd.1 (hgf ▸ hg)
        simp only [setThread, setPlace, Function.update_of_ne hgf]
        exact .inl (h.place_eq (by simp [ht, Thread.stack, hg]) (by simp [ht]))
    · have hgf : g ≠ f := fun hgf => htt (h.thread_eq hf (hgf ▸ hg))
      simp [hgf]
  case switch t f nest ht =>
    have hnd := h.nodup t
    rw [ht, Thread.stack, List.nodup_cons] at hnd
    refine h.move rfl hnd.2 (fun g hg => .inl ?_) fun _ _ _ _ => rfl
    refine h.place_eq (by simp only [ht, Thread.stack, List.mem_cons]; exact .inr hg)
      fun nest' hn => ?_
    rw [ht] at hn
    injection hn with hfg
    exact hnd.1 (hfg ▸ hg)
  case spliceHead t k hk ht =>
    have h1 : (s.thread t).access = 1 := by rw [ht, hk.access_eq]; rfl
    -- no other thread is about to switch a fiber away, so none of these fibers is asleep
    have hpl : ∀ t', ∀ f ∈ (s.thread t').stack, s.place f = .running t' := by
      intro t' f hf
      refine h.place_eq hf fun nest hn => ?_
      by_cases htt : t' = t
      · rw [htt, ht] at hn
        cases hk <;> simp at hn
      · have := Account.access_eq_zero hac h1 htt
        rw [hn] at this
        cases this
    refine h.move rfl ?_ ?_ fun t' _ f hf => ?_
    · simpa only [ht, hk.stack_eq _ .spliceHead] using h.nodup t
    · intro f hf
      rw [hk.stack_eq _ .spliceHead, ← ht] at hf
      simp [unlockEffect, hpl t f hf]
    · simp [unlockEffect, hpl t' f hf]
  case spliceTail t k hk ht =>
    refine h.move_same (spliceTail_thread s t _) ?_ (by rw [ht, hk.stack_eq]) ?_
    · simp only [unlockEffect]
      split <;> rfl
    · intro f nest
      rw [ht]
      cases hk <;> simp
  case grab t k hk ht hs | test t k hk ht | clearHead t k hk ht | clearTail t k hk ht =>
    refine h.move_same rfl rfl (by rw [ht]; exact hk.stack_eq _ _) fun f nest => ?_
    rw [ht]
    cases hk <;> simp
  all_goals
    exact h.move_same rfl rfl (by simp [*, Thread.stack]) (by simp [*])

end Stacks

/-! ## The wake lists -/

/-- The wake list at rest: its fibers are `L` and the tail pointer is right. -/
def AtRest (s : MutexState F T) (L : List F) : Prop :=
  Seg s.nextWake s.fiberWakeHead L none ∧ s.fiberWakeTail = L.getLast?

/-- The wake list while `unlock` runs on thread `t`. -/
def UnlockShape (s : MutexState F T) (L : List F) (t : T) : UnlockStep → Prop
  | .grab => True
  | .test => AtRest s L
  | .spliceTail => AtRest s L ∧ L ≠ []
  | .spliceHead =>
    L ≠ [] ∧ Seg s.nextWake s.fiberWakeHead L (s.wakeHead t) ∧ s.fiberWakeTail = L.getLast?
  | .clearHead => L = []
  | .clearTail => L = [] ∧ s.fiberWakeHead = none
  | .release => L = [] ∧ s.fiberWakeHead = none ∧ s.fiberWakeTail = none

/-- The wake list as the party on thread `t` that it belongs to has left it. -/
def Shape (s : MutexState F T) (L : List F) (t : T) : Thread F → Prop
  | .running _ _ .pushTail | .running _ _ .switching | .mutexSuspend _ _ => AtRest s L
  | .running f _ .pushNext =>
    Seg s.nextWake s.fiberWakeHead L none ∧ s.fiberWakeTail = L.getLast?.or (some f)
  | .running f _ .pushHead =>
    Seg s.nextWake s.fiberWakeHead L none ∧ s.fiberWakeTail = L.getLast?.or (some f) ∧
      s.nextWake f = s.fiberWakeHead
  | .running _ _ (.unlock u) | .condWait _ u => UnlockShape s L t u
  | _ => True

/-- `L` are the fibers asleep on the mutex, `R t` those on the `wake_head_` list of `t`. -/
structure Lists (s : MutexState F T) (L : List F) (R : T → List F) : Prop where
  nodup : L.Nodup
  mem : ∀ f, f ∈ L ↔ s.place f = .asleep
  rnodup : ∀ t, (R t).Nodup
  rmem : ∀ t f, f ∈ R t ↔ ∃ b, s.place f = .toBeResumed t b
  rseg : ∀ t, Seg s.nextWake (s.wakeHead t) (R t) none
  shape : ∀ t, Shape s L t (s.thread t)
  rest : (∀ t, (s.thread t).access = 0) → AtRest s L
  free : s.holders = 0 → L = []

variable {L : List F} {R : T → List F}

omit [DecidableEq F] [DecidableEq T] [Fintype F] [Fintype T] in
theorem Unlocker.shape_eq {k : UnlockStep → Thread F} (hk : Unlocker k) (t : T)
    (u : UnlockStep) : Shape s L t (k u) = UnlockShape s L t u := by
  cases hk <;> rfl

omit [DecidableEq F] [DecidableEq T] [Fintype F] [Fintype T] in
/-- A thread that the wake list does not belong to says nothing about it. -/
theorem shape_of_access_eq_zero {t : T} {th : Thread F} (h : th.access = 0) :
    Shape s L t th := by
  cases th with
  | idle => exact trivial
  | wakeAll nest => exact trivial
  | mutexSuspend f nest => cases h
  | condWait nest u => cases u <;> first | exact trivial | cases h
  | running f nest at_ =>
    cases at_ with
    | unlock u => cases u <;> first | exact trivial | cases h
    | _ => first | exact trivial | cases h

omit [DecidableEq F] [DecidableEq T] [Fintype T] [Fintype F] in
/-- The shape of the list only depends on its links and pointers. -/
theorem Shape.congr {t : T} {th : Thread F} (h : Shape s L t th)
    (hseg : ∀ p q, Seg s.nextWake p L q → Seg s'.nextWake p L q)
    (hhead : s'.fiberWakeHead = s.fiberWakeHead) (htail : s'.fiberWakeTail = s.fiberWakeTail)
    (hwake : s'.wakeHead t = s.wakeHead t)
    (hnext : ∀ f nest, th = .running f nest .pushHead → s'.nextWake f = s.nextWake f) :
    Shape s' L t th := by
  have hrest : AtRest s L → AtRest s' L := fun hr => by
    refine ⟨?_, by rw [htail]; exact hr.2⟩
    rw [hhead]
    exact hseg _ _ hr.1
  have hunlock : ∀ u, UnlockShape s L t u → UnlockShape s' L t u := by
    intro u hu
    cases u with
    | grab => exact trivial
    | test => exact hrest hu
    | spliceTail => exact ⟨hrest hu.1, hu.2⟩
    | spliceHead =>
      refine ⟨hu.1, ?_, by rw [htail]; exact hu.2.2⟩
      rw [hhead, hwake]
      exact hseg _ _ hu.2.1
    | clearHead => exact hu
    | clearTail => exact ⟨hu.1, by rw [hhead]; exact hu.2⟩
    | release => exact ⟨hu.1, by rw [hhead]; exact hu.2.1, by rw [htail]; exact hu.2.2⟩
  cases th with
  | idle => exact trivial
  | wakeAll nest => exact trivial
  | mutexSuspend f nest => exact hrest h
  | condWait nest u => exact hunlock u h
  | running f nest at_ =>
    cases at_ with
    | user => exact trivial
    | fetchAdd => exact trivial
    | backOff => exact trivial
    | pushTail => exact hrest h
    | switching => exact hrest h
    | unlock u => exact hunlock u h
    | pushNext =>
      refine ⟨?_, by rw [htail]; exact h.2⟩
      rw [hhead]
      exact hseg _ _ h.1
    | pushHead =>
      refine ⟨?_, by rw [htail]; exact h.2.1, ?_⟩
      · rw [hhead]
        exact hseg _ _ h.1
      · rw [hnext f nest rfl, hhead]
        exact h.2.2

omit [DecidableEq F] in
/-- A thread moves and the lists stay as they are. -/
theorem Lists.move (h : Lists s L R) {t : T} {th : Thread F}
    (hthread : s'.thread = Function.update s.thread t th)
    (hasleep : ∀ f, s'.place f = .asleep ↔ s.place f = .asleep)
    (hready : ∀ f t' b, s'.place f = .toBeResumed t' b ↔ s.place f = .toBeResumed t' b)
    (hnext : s'.nextWake = s.nextWake) (hhead : s'.fiberWakeHead = s.fiberWakeHead)
    (htail : s'.fiberWakeTail = s.fiberWakeTail) (hwake : s'.wakeHead = s.wakeHead)
    (hshape : Shape s L t th)
    (hrest : (s.thread t).access = 0 ∨ th.access ≠ 0 ∨ AtRest s L)
    (hfree : s'.holders = 0 → L = []) : Lists s' L R where
  nodup := h.nodup
  mem f := (h.mem f).trans (hasleep f).symm
  rnodup := h.rnodup
  rmem t' f := (h.rmem t' f).trans (exists_congr fun b => (hready f t' b).symm)
  rseg t' := by rw [hnext, hwake]; exact h.rseg t'
  shape t' := by
    have hcongr : ∀ th', Shape s L t' th' → Shape s' L t' th' := fun th' hs =>
      hs.congr (fun _ _ hseg => by rw [hnext]; exact hseg) hhead htail (by rw [hwake])
        fun _ _ _ => by rw [hnext]
    rw [hthread]
    by_cases htt : t' = t
    · subst htt
      rw [Function.update_self]
      exact hcongr _ hshape
    · rw [Function.update_of_ne htt]
      exact hcongr _ (h.shape t')
  rest hall := by
    have hL : AtRest s L := by
      rcases hrest with h0 | hne | hr
      · refine h.rest fun t' => ?_
        by_cases htt : t' = t
        · rw [htt]; exact h0
        · have := hall t'
          rwa [hthread, Function.update_of_ne htt] at this
      · have := hall t
        rw [hthread, Function.update_self] at this
        exact absurd this hne
      · exact hr
    unfold AtRest
    rw [hnext, hhead, htail]
    exact hL
  free := hfree

omit [DecidableEq F] in
/-- The party that the wake list belongs to moves and keeps it: the others have nothing to say
about the list. -/
theorem Lists.of_access {L' : List F} {R' : T → List F} {t : T} {th : Thread F}
    (hac : count Thread.access s.thread ≤ 1) (ht : (s.thread t).access = 1)
    (hthread : s'.thread = Function.update s.thread t th) (hth : th.access = 1)
    (hheld : s'.holders ≠ 0) (hnodup : L'.Nodup) (hmem : ∀ f, f ∈ L' ↔ s'.place f = .asleep)
    (hrnodup : ∀ t, (R' t).Nodup)
    (hrmem : ∀ t f, f ∈ R' t ↔ ∃ b, s'.place f = .toBeResumed t b)
    (hrseg : ∀ t, Seg s'.nextWake (s'.wakeHead t) (R' t) none)
    (hshape : Shape s' L' t th) : Lists s' L' R' where
  nodup := hnodup
  mem := hmem
  rnodup := hrnodup
  rmem := hrmem
  rseg := hrseg
  shape t' := by
    rw [hthread]
    by_cases htt : t' = t
    · subst htt
      rw [Function.update_self]
      exact hshape
    · rw [Function.update_of_ne htt]
      exact shape_of_access_eq_zero (Account.access_eq_zero hac ht htt)
  rest hall := by
    have := hall t
    rw [hthread, Function.update_self, hth] at this
    cases this
  free h := absurd h hheld

omit [DecidableEq F] [DecidableEq T] in
/-- While the wake list belongs to a party, the mutex is held. -/
theorem Account.holders_ne_zero (h : Account s) {t : T} (ht : (s.thread t).access = 1) :
    s.holders ≠ 0 := by
  intro h0
  have h1 := h.free h0
  have h2 := h.state_eq
  have h3 := le_count (f := s.thread) Thread.access_nonneg t
  have h4 := access_le_transit (s := s)
  omega

/-- A parked fiber is pushed on a thread's `wake_head_` list, at the start of `wake_all`. -/
theorem Lists.push (h : Lists s L R) (hst : Stacks s) {t : T} {f : F} {nest : List F}
    (hf : s.place f = .parked) (ht : (s.thread t).access = 0)
    (hfree : (s.thread t).parentHold = 0) :
    Lists ((s.pushWakeHead t f).setThread t (.wakeAll nest)) L
      (Function.update R t (f :: R t)) := by
  have hfL : f ∉ L := fun hm => by
    rw [h.mem, hf] at hm
    cases hm
  have hfR : ∀ t', f ∉ R t' := fun t' hm => by
    obtain ⟨b, hb⟩ := (h.rmem t' f).mp hm
    rw [hf] at hb
    cases hb
  have hne := hst.ne_of_place hf (by simp) (by simp)
  refine ⟨h.nodup, fun g => ?_, fun t' => ?_, fun t' g => ?_, fun t' => ?_, fun t' => ?_,
    fun hall => ?_, fun hh => h.free ?_⟩
  · by_cases hgf : g = f
    · subst hgf
      simp [hfL]
    · simp [hgf, h.mem g]
  · by_cases htt : t' = t
    · subst htt
      simpa using ⟨hfR t', h.rnodup t'⟩
    · simpa [htt] using h.rnodup t'
  · by_cases htt : t' = t
    · subst htt
      by_cases hgf : g = f
      · simp [hgf]
      · simp [hgf, h.rmem t' g]
    · by_cases hgf : g = f
      · subst hgf
        simp [htt, Ne.symm htt, hfR t']
      · simp [htt, hgf, h.rmem t' g]
  · by_cases htt : t' = t
    · subst htt
      simpa using (h.rseg t').update_of_notMem (hfR t')
    · simpa [htt] using (h.rseg t').update_of_notMem (hfR t')
  · by_cases htt : t' = t
    · subst htt
      simp [Shape]
    · have hth : ((s.pushWakeHead t f).setThread t (.wakeAll nest)).thread t' = s.thread t' := by
        simp [htt]
      rw [hth]
      refine (h.shape t').congr (fun _ _ hs => hs.update_of_notMem hfL) rfl rfl ?_ ?_
      · simp [htt]
      · intro g nest' hg
        have hgf : g ≠ f := hne t' g (by simp [hg, Thread.stack])
        simp [hgf]
  · have hr := h.rest fun t' => by
      by_cases htt : t' = t
      · rw [htt]; exact ht
      · simpa [htt] using hall t'
    exact ⟨hr.1.update_of_notMem hfL, hr.2⟩
  · have h0 : (Thread.wakeAll nest).parentHold = 0 := rfl
    have : ((s.pushWakeHead t f).setThread t (.wakeAll nest)).holders = s.holders := by
      simp [MutexState.holders, hfree, h0]
    rw [← this]
    exact hh

omit [DecidableEq F] [DecidableEq T] in
/-- While `state_` is 1 no party is in transit. -/
theorem Account.access_of_state_eq_one (h : Account s) (hs : s.state = 1) (t : T) :
    (s.thread t).access = 0 := by
  refine eq_zero_of_count_eq_zero Thread.access_nonneg ?_ t
  have h1 := h.state_eq
  have h2 := h.holders_le
  have h3 := h.free
  have h4 := access_le_transit (s := s)
  have h5 := holders_nonneg (s := s)
  have h6 := count_nonneg (f := s.thread) Thread.access_nonneg
  omega

/-- The head of a thread's `wake_head_` list is popped. -/
theorem Lists.pop (h : Lists s L R) {t : T} {f : F} {nest : List F} {at_ : FiberStep}
    (ht : s.thread t = .wakeAll nest) (hw : s.wakeHead t = some f)
    (hat : at_ = .user ∨ at_ = .fetchAdd) :
    Lists (({ s with wakeHead := Function.update s.wakeHead t (s.nextWake f) }.setPlace f
      (.running t)).setThread t (.running f nest at_)) L (Function.update R t (R t).tail) := by
  have hth : (Thread.running f nest at_).access = 0 ∧
      (Thread.running f nest at_).parentHold = 0 := by
    rcases hat with rfl | rfl <;> exact ⟨rfl, rfl⟩
  obtain ⟨rs, hrs⟩ : ∃ rs, R t = f :: rs := by
    have hseg := h.rseg t
    rw [hw] at hseg
    cases hR : R t with
    | nil => simp [hR] at hseg
    | cons r rs =>
      rw [hR, seg_cons] at hseg
      exact ⟨rs, by rw [Option.some.inj hseg.1]⟩
  have hseg := h.rseg t
  have hnd := h.rnodup t
  rw [hrs] at hseg hnd
  obtain ⟨b, hb⟩ := (h.rmem t f).mp (by simp [hrs])
  refine ⟨h.nodup, fun g => ?_, fun t' => ?_, fun t' g => ?_, fun t' => ?_, fun t' => ?_,
    fun hall => ?_, fun hh => h.free ?_⟩
  · by_cases hgf : g = f
    · simp [hgf, h.mem f, hb]
    · simp [hgf, h.mem g]
  · by_cases htt : t' = t
    · subst htt
      simpa [hrs] using (List.nodup_cons.mp hnd).2
    · simpa [htt] using h.rnodup t'
  · by_cases hgf : g = f
    · subst hgf
      have hg : ∀ t'', g ∈ R t'' → t'' = t := fun t'' hm => by
        obtain ⟨b', hb'⟩ := (h.rmem t'' g).mp hm
        rw [hb] at hb'
        injection hb' with h1
        exact h1.symm
      by_cases htt : t' = t
      · subst htt
        simpa [hrs] using (List.nodup_cons.mp hnd).1
      · simpa [htt] using fun hm => htt (hg t' hm)
    · by_cases htt : t' = t
      · subst htt
        have := h.rmem t' g
        rw [hrs, List.mem_cons, or_iff_right hgf] at this
        simpa [hrs, hgf] using this
      · simpa [htt, hgf] using h.rmem t' g
  · by_cases htt : t' = t
    · subst htt
      simpa [hrs] using hseg.2
    · simpa [htt] using h.rseg t'
  · by_cases htt : t' = t
    · subst htt
      refine shape_of_access_eq_zero ?_
      simpa using hth.1
    · have hth' : (({ s with wakeHead := Function.update s.wakeHead t (s.nextWake f) }.setPlace f
          (.running t)).setThread t (.running f nest at_)).thread t' = s.thread t' := by
        simp [htt]
      rw [hth']
      exact (h.shape t').congr (fun _ _ hs => hs) rfl rfl (by simp [htt]) fun _ _ _ => rfl
  · refine h.rest fun t' => ?_
    by_cases htt : t' = t
    · rw [htt, ht]; rfl
    · simpa [htt] using hall t'
  · simpa [MutexState.holders, ht, hth.2, Thread.parentHold] using hh

theorem Lists.step (h : Lists s L R) (hst : Stacks s) (hac : Account s)
    (hm : Moves s s') : ∃ L' R', Lists s' L' R' := by
  have hle := hac.access_le
  cases hm
  case wake t f ht hf =>
    exact ⟨_, _, h.push hst hf (by rw [ht]; rfl) (by rw [ht]; rfl)⟩
  case start t f g nest ht hf =>
    exact ⟨_, _, h.push hst hf (by rw [ht]; rfl) (by rw [ht]; rfl)⟩
  case resume t f nest at_ ht hw hat => exact ⟨_, _, h.pop ht hw hat⟩
  case suspend t f nest ht =>
    have hf := hst.current ht (by simp)
    refine ⟨L, R, h.move rfl (fun g => ?_) (fun g t' b => ?_) rfl rfl rfl rfl trivial
      (.inl (by rw [ht]; rfl)) fun hh => h.free ?_⟩
    · by_cases hg : g = f <;> simp [hg, hf]
    · by_cases hg : g = f <;> simp [hg, hf]
    · simpa [MutexState.holders, ht, Thread.parentHold] using hh
  case condWait t f nest ht hh =>
    have hf := hst.current ht (by simp)
    refine ⟨L, R, h.move rfl (fun g => ?_) (fun g t' b => ?_) rfl rfl rfl rfl trivial
      (.inl (by rw [ht]; rfl)) fun hh' => h.free ?_⟩
    · by_cases hg : g = f <;> simp [hg, hf]
    · by_cases hg : g = f <;> simp [hg, hf]
    · simp [MutexState.holders, ht, hh, holdWeight, Thread.parentHold] at hh' ⊢
      omega
  -- whoever acquires finds `state_` 0, so nobody holds the mutex
  case acquire t f nest ht hs =>
    have h0 : s.holders = 0 := by
      have := hac.state_eq
      have := holders_nonneg (s := s)
      have := count_nonneg (f := s.thread) Thread.transit_nonneg
      omega
    exact ⟨L, R, h.move rfl (fun _ => Iff.rfl) (fun _ _ _ => Iff.rfl) rfl rfl rfl rfl trivial
      (.inl (by rw [ht]; rfl)) fun _ => h.free h0⟩
  case beginSleep t f nest ht hs =>
    exact ⟨L, R, h.move rfl (fun _ => Iff.rfl) (fun _ _ _ => Iff.rfl) rfl rfl rfl rfl
      (h.rest (hac.access_of_state_eq_one hs)) (.inl (by rw [ht]; rfl)) fun hh => h.free (by
        simpa [MutexState.holders, ht, Thread.parentHold] using hh)⟩
  -- the three writes of a push, with the list out of step with its ends in between
  case pushTail t f nest ht =>
    have h1 : (s.thread t).access = 1 := by rw [ht]; rfl
    have hsh := h.shape t
    rw [ht] at hsh
    refine ⟨L, R, .of_access hle h1 rfl rfl ?_ h.nodup h.mem h.rnodup h.rmem h.rseg
      ⟨hsh.1, ?_⟩⟩
    · simpa [MutexState.holders, ht, Thread.parentHold] using hac.holders_ne_zero h1
    · show s.fiberWakeTail.or (some f) = _
      rw [hsh.2]
  case pushNext t f nest ht =>
    have h1 : (s.thread t).access = 1 := by rw [ht]; rfl
    have hf := hst.current ht (by simp)
    have hfL : f ∉ L := fun hm => by simp [h.mem, hf] at hm
    have hfR : ∀ t', f ∉ R t' := fun t' hm => by simp [h.rmem, hf] at hm
    have hsh := h.shape t
    rw [ht] at hsh
    refine ⟨L, R, .of_access hle h1 rfl rfl ?_ h.nodup h.mem h.rnodup h.rmem
      (fun t' => (h.rseg t').update_of_notMem (hfR t')) ⟨hsh.1.update_of_notMem hfL, hsh.2, ?_⟩⟩
    · simpa [MutexState.holders, ht, Thread.parentHold] using hac.holders_ne_zero h1
    · simp
  case pushHead t f nest ht =>
    have h1 : (s.thread t).access = 1 := by rw [ht]; rfl
    have hf := hst.current ht (by simp)
    have hfL : f ∉ L := fun hm => by simp [h.mem, hf] at hm
    have hfR : ∀ t', f ∉ R t' := fun t' hm => by simp [h.rmem, hf] at hm
    obtain ⟨hseg, htail, hnext⟩ : Shape s L t (.running f nest .pushHead) := ht ▸ h.shape t
    refine ⟨f :: L, R, .of_access hle h1 rfl rfl ?_ (List.nodup_cons.mpr ⟨hfL, h.nodup⟩)
      (fun g => ?_) h.rnodup (fun t' g => ?_) h.rseg ⟨⟨rfl, ?_⟩, ?_⟩⟩
    · simpa [MutexState.holders, ht, Thread.parentHold] using hac.holders_ne_zero h1
    · by_cases hg : g = f <;> simp [hg, h.mem g]
    · by_cases hg : g = f
      · subst hg
        simp [hfR t']
      · simp [hg, h.rmem t' g]
    · show Seg s.nextWake (s.nextWake f) L none
      rw [hnext]
      exact hseg
    · show s.fiberWakeTail = _
      rw [htail]
      cases L <;> simp [List.getLast?_cons]
  case grab t k hk ht hs =>
    refine ⟨L, R, h.move rfl (fun _ => Iff.rfl) (fun _ _ _ => Iff.rfl) rfl rfl rfl rfl
      ?_ (.inl ?_) fun hh => h.free ?_⟩
    · rw [hk.shape_eq]
      exact h.rest (hac.access_of_state_eq_one hs)
    · rw [ht, hk.access_eq]; rfl
    · simpa [MutexState.holders, ht, hk.parentHold_eq _ .grab] using hh
  case test t k hk ht =>
    have hr : AtRest s L := by
      have := h.shape t
      rwa [ht, hk.shape_eq] at this
    have hL := hr.1.head_eq_none_iff
    refine ⟨L, R, h.move rfl (fun _ => Iff.rfl) (fun _ _ _ => Iff.rfl) rfl rfl rfl rfl
      ?_ (.inr (.inr hr)) fun hh => h.free ?_⟩
    · rw [hk.shape_eq]
      split
      · next hhead => exact ⟨hL.mp hhead, hhead, by rw [hr.2, hL.mp hhead]; rfl⟩
      · next hhead => exact ⟨hr, fun hn => hhead (hL.mpr hn)⟩
    · simpa [MutexState.holders, ht, hk.parentHold_eq _ .grab] using hh
  -- what the thread has to run is hung behind the last sleeper
  case spliceTail t k hk ht =>
    have h1 : (s.thread t).access = 1 := by rw [ht, hk.access_eq]; rfl
    obtain ⟨⟨hseg, htail⟩, hne⟩ : UnlockShape s L t .spliceTail := by
      have := h.shape t
      rwa [ht, hk.shape_eq] at this
    obtain ⟨l, hl⟩ : ∃ l, L.getLast? = some l := by
      cases hL : L.getLast? with
      | none => exact absurd (List.getLast?_eq_none_iff.mp hL) hne
      | some l => exact ⟨l, rfl⟩
    have hlL : s.place l = .asleep := (h.mem l).mp (List.mem_of_getLast? hl)
    have hlR : ∀ t', l ∉ R t' := fun t' hm => by simp [h.rmem, hlL] at hm
    rw [hl] at htail
    simp only [unlockEffect, htail]
    refine ⟨L, R, .of_access hle h1 rfl (by rw [hk.access_eq]; rfl) ?_ h.nodup h.mem h.rnodup
      h.rmem (fun t' => (h.rseg t').update_of_notMem (hlR t')) ?_⟩
    · simpa [MutexState.holders, ht, hk.parentHold_eq _ .grab] using hac.holders_ne_zero h1
    · rw [hk.shape_eq]
      exact ⟨hne, hseg.setLast h.nodup hl, by rw [hl]; rfl⟩
  -- and now the sleepers are on the list of the thread, in front of that
  case spliceHead t k hk ht =>
    have h1 : (s.thread t).access = 1 := by rw [ht, hk.access_eq]; rfl
    obtain ⟨hne, hseg, htail⟩ : UnlockShape s L t .spliceHead := by
      have := h.shape t
      rwa [ht, hk.shape_eq] at this
    refine ⟨[], Function.update R t (L ++ R t), .of_access hle h1 rfl
      (by rw [hk.access_eq]; rfl) ?_ List.nodup_nil (fun g => ?_) (fun t' => ?_)
      (fun t' g => ?_) (fun t' => ?_) ?_⟩
    · simpa [MutexState.holders, ht, hk.parentHold_eq _ .grab, unlockEffect]
        using hac.holders_ne_zero h1
    · by_cases hg : s.place g = .asleep <;> simp [unlockEffect, hg]
    · by_cases htt : t' = t
      · subst htt
        rw [Function.update_self, List.nodup_append]
        refine ⟨h.nodup, h.rnodup t', fun a ha b hb hab => ?_⟩
        subst hab
        obtain ⟨b, hb⟩ := (h.rmem t' a).mp hb
        rw [(h.mem a).mp ha] at hb
        cases hb
      · simpa [htt] using h.rnodup t'
    · by_cases hg : s.place g = .asleep
      · have hgR : g ∉ R t' := fun hm => by simp [h.rmem, hg] at hm
        by_cases htt : t' = t
        · subst htt
          simp [unlockEffect, hg, (h.mem g).mpr hg]
        · simp [unlockEffect, hg, htt, Ne.symm htt, hgR]
      · have hgL : g ∉ L := fun hm => hg ((h.mem g).mp hm)
        by_cases htt : t' = t
        · subst htt
          simp [unlockEffect, hg, hgL, h.rmem t' g]
        · simp [unlockEffect, hg, htt, h.rmem t' g]
    · by_cases htt : t' = t
      · subst htt
        simpa [unlockEffect] using hseg.append (h.rseg t')
      · simpa [unlockEffect, htt] using h.rseg t'
    · rw [hk.shape_eq]
      exact rfl
  case clearHead t k hk ht | clearTail t k hk ht =>
    have h1 : (s.thread t).access = 1 := by rw [ht, hk.access_eq]; rfl
    have hsh := h.shape t
    rw [ht, hk.shape_eq] at hsh
    refine ⟨L, R, .of_access hle h1 rfl (by rw [hk.access_eq]; rfl) ?_ h.nodup h.mem h.rnodup
      h.rmem h.rseg ?_⟩
    · simpa [MutexState.holders, ht, hk.parentHold_eq _ .grab] using hac.holders_ne_zero h1
    · rw [hk.shape_eq]
      first | exact ⟨hsh, rfl⟩ | exact ⟨hsh.1, hsh.2, rfl⟩
  case switch t f nest ht =>
    have hr : AtRest s L := by
      have := h.shape t
      rwa [ht] at this
    exact ⟨L, R, h.move rfl (fun _ => Iff.rfl) (fun _ _ _ => Iff.rfl) rfl rfl rfl rfl hr
      (.inr (.inr hr)) fun hh => h.free (by
        simpa [MutexState.holders, ht, Thread.parentHold] using hh)⟩
  case decrement t f nest ht =>
    have hr : AtRest s L := by
      have := h.shape t
      rwa [ht] at this
    exact ⟨L, R, h.move rfl (fun _ => Iff.rfl) (fun _ _ _ => Iff.rfl) rfl rfl rfl rfl trivial
      (.inr (.inr hr)) fun hh => h.free (by
        simpa [MutexState.holders, ht, Thread.parentHold] using hh)⟩
  -- the list has been emptied before the mutex is given back
  case release t f nest ht hs | releaseParent t nest ht hs =>
    obtain ⟨hL, hhead, htail⟩ : UnlockShape s L t .release := by
      have := h.shape t
      rwa [ht] at this
    refine ⟨L, R, h.move rfl (fun _ => Iff.rfl) (fun _ _ _ => Iff.rfl) rfl rfl rfl rfl trivial
      (.inr (.inr ⟨?_, ?_⟩)) fun _ => hL⟩
    · rw [hL, hhead]
      exact rfl
    · rw [hL, htail]
      rfl
  -- the other steps have nothing to do with the lists
  all_goals
    exact ⟨L, R, h.move rfl (fun _ => Iff.rfl) (fun _ _ _ => Iff.rfl) rfl rfl rfl rfl trivial
      (.inl (by simp [*, Thread.access, Thread.transit])) fun hh => h.free (by
        simpa [MutexState.holders, *, Thread.parentHold] using hh)⟩

/-! ## Every reachable state -/

omit [DecidableEq F] [Fintype F] [Fintype T] in
theorem UnlockHolds.move (h : UnlockHolds s) {t : T} {th : Thread F}
    (hthread : s'.thread = Function.update s.thread t th)
    (hself : ∀ f nest u, th = .running f nest (.unlock u) → s'.holds f = true)
    (hother : ∀ t' ≠ t, ∀ f ∈ (s.thread t').stack, s'.holds f = s.holds f) :
    UnlockHolds s' := by
  intro t' f nest u ht'
  rw [hthread] at ht'
  by_cases htt : t' = t
  · rw [htt, Function.update_self] at ht'
    exact hself f nest u ht'
  · rw [Function.update_of_ne htt] at ht'
    rw [hother t' htt f (by simp [ht', Thread.stack])]
    exact h t' f nest u ht'

omit [Fintype F] [Fintype T] in
theorem UnlockHolds.step (h : UnlockHolds s) (hst : Stacks s) (hm : Moves s s') :
    UnlockHolds s' := by
  cases hm
  case resume t f nest at_ ht hw hat =>
    refine h.move rfl (fun g nest' u hg => ?_) fun _ _ _ _ => rfl
    rcases hat with rfl | rfl <;> simp at hg
  case unlock t f nest ht hf =>
    refine h.move rfl (fun g nest' u hg => ?_) fun _ _ _ _ => rfl
    simp only [Thread.running.injEq] at hg
    exact hg.1 ▸ hf
  case acquire t f nest ht hs =>
    refine h.move rfl (fun g nest' u hg => by simp at hg) fun t' htt g hg => ?_
    have hgf : g ≠ f := by
      rintro rfl
      exact htt (hst.thread_eq (hst.current ht (by simp)) hg)
    simp [hgf]
  case condWait t f nest ht hf =>
    refine h.move rfl (fun g nest' u hg => by simp at hg) fun t' htt g hg => ?_
    have hgf : g ≠ f := by
      rintro rfl
      exact htt (hst.thread_eq (hst.current ht (by simp)) hg)
    simp [hgf]
  case release t f nest ht hs =>
    refine h.move rfl (fun g nest' u hg => by simp at hg) fun t' htt g hg => ?_
    have hgf : g ≠ f := by
      rintro rfl
      exact htt (hst.thread_eq (hst.current ht (by simp)) hg)
    simp [hgf]
  case spliceTail t k hk ht =>
    refine h.move (spliceTail_thread s t _) (fun g nest u hg => ?_) fun t' _ f _ => ?_
    · have : s.holds g = true := by
        cases hk with
        | fiber f nest' =>
          simp only [Thread.running.injEq] at hg
          exact hg.1 ▸ h t f nest' _ ht
        | parent nest' => simp at hg
      simp only [unlockEffect]
      split <;> exact this
    · simp only [unlockEffect]
      split <;> rfl
  case grab t k hk ht _ | test t k hk ht | spliceHead t k hk ht | clearHead t k hk ht
      | clearTail t k hk ht =>
    refine h.move rfl (fun g nest u hg => ?_) fun _ _ _ _ => rfl
    cases hk with
    | fiber f nest' =>
      simp only [Thread.running.injEq] at hg
      exact hg.1 ▸ h t f nest' _ ht
    | parent nest' => simp at hg
  all_goals
    exact h.move rfl (fun g nest' u hg => by simp at hg) fun _ _ _ _ => rfl

/-- The invariant of the mutex. -/
structure MutexInv (s : MutexState F T) : Prop where
  account : Account s
  unlockHolds : UnlockHolds s
  running : Stacks s
  lists : ∃ L R, Lists s L R

theorem MutexInv.init : MutexInv (mutexMachine F T).init where
  account := by
    constructor <;> simp [mutexMachine, MutexState.holders, count, holdWeight, Thread.parentHold,
      Thread.transit, Thread.access]
  unlockHolds := by simp [UnlockHolds, mutexMachine]
  running := by
    constructor <;> simp [mutexMachine, Thread.stack]
  lists := by
    refine ⟨[], fun _ => [], ?_⟩
    constructor <;> simp [mutexMachine, Shape, AtRest]

theorem MutexInv.step (h : MutexInv s) (hm : Moves s s') : MutexInv s' := by
  obtain ⟨L, R, hl⟩ := h.lists
  refine ⟨h.account.step h.unlockHolds hm, h.unlockHolds.step h.running hm,
    h.running.step h.account.access_le (fun t f hw => ?_) hm, hl.step h.running h.account hm⟩
  have hseg := hl.rseg t
  rw [hw] at hseg
  cases hR : R t with
  | nil => simp [hR] at hseg
  | cons r rs =>
    rw [hR, seg_cons] at hseg
    exact (hl.rmem t f).mp (by simp [hR, Option.some.inj hseg.1])

theorem mutexInv_of_reachable (hs : (mutexMachine F T).Reachable Machine.anyStep s) :
    MutexInv s :=
  hs.invariant MutexInv.init fun _ _ hi _ he => hi.step (moves_of_enabled he)

/-! ## The lock -/

omit [DecidableEq F] [DecidableEq T] [Fintype F] [Fintype T] in
theorem access_of_usesList {t : T} (h : s.usesList t) : (s.thread t).access = 1 := by
  have hu : ∀ u : UnlockStep, u.usesList → u.transit = 1 := by
    intro u hu
    cases u <;> first | exact hu.elim | rfl
  unfold MutexState.usesList at h
  split at h
  · next ht => rw [ht]; rfl
  · next ht => rw [ht]; rfl
  · next ht => rw [ht]; rfl
  · next u ht => rw [ht]; exact hu u h
  · next u ht => rw [ht]; exact hu u h
  · exact h.elim

omit [DecidableEq F] [DecidableEq T] in
/-- There is at most one owner. -/
theorem Account.owner_unique (h : Account s) {p q : Owner F T} (hp : s.owns p)
    (hq : s.owns q) : p = q := by
  have hle := h.holders_le
  have h1 := count_nonneg (f := s.thread) Thread.parentHold_nonneg
  have h2 := count_nonneg (f := s.holds) holdWeight_nonneg
  rw [MutexState.holders] at hle
  have hfiber : ∀ f, s.holds f = true → 0 < holdWeight (s.holds f) := fun f hf => by
    rw [hf]; decide
  have hparent : ∀ t, (∃ nest u, s.thread t = .condWait nest u) →
      0 < (s.thread t).parentHold := fun t ⟨nest, u, ht⟩ => by
    rw [ht]; exact zero_lt_one
  -- a fiber and a parent would make two holders
  have hmixed : ∀ f t, s.holds f = true → (∃ nest u, s.thread t = .condWait nest u) → False := by
    intro f t hf ht
    have h3 := le_count (f := s.holds) holdWeight_nonneg f
    have h4 := le_count (f := s.thread) Thread.parentHold_nonneg t
    have h5 := hfiber f hf
    have h6 := hparent t ht
    omega
  cases p with
  | fiber f =>
    cases q with
    | fiber g =>
      rw [eq_of_count_le_one holdWeight_nonneg (by omega) (hfiber f hp) (hfiber g hq)]
    | parent t => exact (hmixed f t hp hq).elim
  | parent t =>
    cases q with
    | fiber g => exact (hmixed g t hq hp).elim
    | parent t' =>
      rw [eq_of_count_le_one Thread.parentHold_nonneg (by omega) (hparent t hp) (hparent t' hq)]

omit [DecidableEq F] [DecidableEq T] in
/-- The wake list is read or written by at most one thread. -/
theorem Account.usesList_unique (h : Account s) {t t' : T} (ht : s.usesList t)
    (ht' : s.usesList t') : t = t' :=
  eq_of_count_le_one Thread.access_nonneg h.access_le
    (by rw [access_of_usesList ht]; exact zero_lt_one)
    (by rw [access_of_usesList ht']; exact zero_lt_one)

omit [DecidableEq F] [DecidableEq T] in
/-- Nothing holds the mutex or is in transit to it exactly when `state_` is 0. -/
theorem Account.state_eq_zero_iff (h : Account s) :
    s.state = 0 ↔ s.holders = 0 ∧ count Thread.transit s.thread = 0 := by
  have h1 := h.state_eq
  have h2 := holders_nonneg (s := s)
  have h3 := count_nonneg (f := s.thread) Thread.transit_nonneg
  omega

omit [DecidableEq F] [DecidableEq T] in
/-- The wake list of a mutex with `state_` 0 is empty. -/
theorem Lists.eq_nil (h : Lists s L R) (hac : Account s) (hs : s.state = 0) :
    AtRest s [] ∧ L = [] := by
  obtain ⟨hh, htr⟩ := hac.state_eq_zero_iff.mp hs
  have hL := h.free hh
  have hall : ∀ t, (s.thread t).access = 0 := fun t => by
    have h1 := eq_zero_of_count_eq_zero Thread.transit_nonneg htr t
    have h2 := (s.thread t).access_le_transit
    have h3 := (s.thread t).access_nonneg
    omega
  exact ⟨hL ▸ h.rest hall, hL⟩

omit [DecidableEq F] [DecidableEq T] [Fintype F] [Fintype T] in
theorem UnlockShape.seg_head {t : T} {u : UnlockStep} (h : UnlockShape s L t u) (hL : L ≠ [])
    (hu : u ≠ .grab) : ∃ q, Seg s.nextWake s.fiberWakeHead L q := by
  cases u with
  | grab => exact absurd rfl hu
  | test => exact ⟨_, h.1⟩
  | spliceTail => exact ⟨_, h.1.1⟩
  | spliceHead => exact ⟨_, h.2.1⟩
  | clearHead => exact absurd h hL
  | clearTail | release => exact absurd h.1 hL

omit [DecidableEq F] [DecidableEq T] [Fintype F] [Fintype T] in
theorem Shape.seg_head {t : T} {th : Thread F} (h : Shape s L t th) (hL : L ≠ [])
    (hth : th.access ≠ 0) : ∃ q, Seg s.nextWake s.fiberWakeHead L q := by
  have hgrab : ∀ u : UnlockStep, u.transit ≠ 0 → u ≠ .grab := by
    rintro u hu rfl
    exact hu rfl
  cases th with
  | idle => exact absurd rfl hth
  | wakeAll nest => exact absurd rfl hth
  | mutexSuspend f nest => exact ⟨_, h.1⟩
  | condWait nest u => exact UnlockShape.seg_head h hL (hgrab u hth)
  | running f nest at_ =>
    cases at_ with
    | user | fetchAdd | backOff => exact absurd rfl hth
    | pushTail | pushNext | pushHead | switching => exact ⟨_, h.1⟩
    | unlock u => exact UnlockShape.seg_head h hL (hgrab u hth)

omit [DecidableEq F] [DecidableEq T] in
/-- A sleeping fiber is found from the head of the wake list, at every half-finished step. -/
theorem Lists.onList (h : Lists s L R) {f : F} (hf : s.place f = .asleep) :
    OnList s.nextWake s.fiberWakeHead f := by
  have hfL : f ∈ L := (h.mem f).mpr hf
  have hL : L ≠ [] := List.ne_nil_of_mem hfL
  by_cases hall : ∀ t, (s.thread t).access = 0
  · exact (h.rest hall).1.onList hfL
  · push Not at hall
    obtain ⟨t, ht⟩ := hall
    obtain ⟨q, hq⟩ := (h.shape t).seg_head hL ht
    exact hq.onList hfL

omit [DecidableEq F] [DecidableEq T] in
/-- `state_` never exceeds the number of threads by more than one, so an `int` does not
overflow. -/
theorem Account.state_le (h : Account s) : s.state ≤ Fintype.card T + 1 := by
  have h1 := h.state_eq
  have h2 := h.holders_le
  have hone : ∀ th : Thread F, th.transit ≤ 1 := by
    have hu : ∀ u : UnlockStep, u.transit ≤ 1 := fun u => by cases u <;> decide
    intro th
    unfold Thread.transit
    split <;> first | exact hu _ | decide
  have h3 : count Thread.transit s.thread ≤ ∑ _t : T, (1 : ℤ) :=
    Finset.sum_le_sum fun t _ => hone _
  rw [Finset.sum_const, Finset.card_univ, nsmul_one] at h3
  omega

/-- `fiber_mutex` is a lock, whatever the interleaving of its atomic steps. At most one party
holds it; at most one thread uses the wake list; the list of a mutex that nobody holds or is in
transit to is empty; and a fiber that sleeps on the mutex, or was moved to a thread's
`wake_head_` list, is found on that list. -/
theorem mutex_correct (hs : (mutexMachine F T).Reachable Machine.anyStep s) :
    (∀ p q, s.owns p → s.owns q → p = q) ∧
    (∀ t t', s.usesList t → s.usesList t' → t = t') ∧
    (s.state = 0 → s.fiberWakeHead = none ∧ s.fiberWakeTail = none ∧
      ∀ f, s.place f ≠ .asleep) ∧
    (∀ f, s.place f = .asleep → OnList s.nextWake s.fiberWakeHead f) ∧
    (∀ t f b, s.place f = .toBeResumed t b → OnList s.nextWake (s.wakeHead t) f) := by
  have hinv := mutexInv_of_reachable hs
  obtain ⟨L, R, hl⟩ := hinv.lists
  refine ⟨fun p q => hinv.account.owner_unique, fun t t' => hinv.account.usesList_unique,
    fun h0 => ?_, fun f => hl.onList, fun t f b hf => ?_⟩
  · obtain ⟨hr, hL⟩ := hl.eq_nil hinv.account h0
    refine ⟨hr.1, hr.2, fun f hf => ?_⟩
    have := (hl.mem f).mpr hf
    rw [hL] at this
    cases this
  · exact (hl.rseg t).onList ((hl.rmem t f).mpr ⟨b, hf⟩)

/-- Fiber 0 locks the mutex on thread 0 and keeps it; fiber 1 tries on thread 1, puts itself on
the wake list and is suspended. -/
def contendedRun : List (MutexAction (Fin 2) (Fin 2)) :=
  [.wake 0 0, .resume 0, .lock 0, .step 0, .wake 1 1, .resume 1, .lock 1, .step 1, .step 1,
    .step 1, .step 1, .step 1, .step 1]

/-- A run in which fiber 1 sleeps on the mutex that fiber 0 holds. -/
theorem mutex_correct_contended : ∃ s : MutexState (Fin 2) (Fin 2),
    s.holds 0 = true ∧ s.place 1 = .asleep ∧ OnList s.nextWake s.fiberWakeHead 1 := by
  obtain ⟨s, hs, hp⟩ := Machine.reachable_of_replay (M := mutexMachine (Fin 2) (Fin 2))
    (C := Machine.anyStep) (l := contendedRun)
    (p := fun s => s.holds 0 && decide (s.place 1 = .asleep)) (by decide)
  simp only [Bool.and_eq_true, decide_eq_true_eq] at hp
  exact ⟨s, hp.1, hp.2, (mutex_correct hs).2.2.2.1 1 hp.2⟩

end Anon.Fiber
