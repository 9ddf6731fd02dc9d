import Anon.Fiber.WakeMoves
import Anon.Lib.Counting

/-!
# The parties of the mutexes

* `Account`: `state_` of a mutex is one for its holder and one for each party in transit, and the
  list of the mutex belongs to at most one of these.
* `Stacks`: what the threads execute agrees with where the fibers are.
* `Holds`: who is past a `lock` and in need of the mutex is the recorded holder.
-/

namespace Anon.Fiber.Wake

open WakeState

variable {F T M C : Type} [DecidableEq F] [DecidableEq T] [DecidableEq M] [DecidableEq C]
  {s s' : WakeState F T M C} {t : T} {d : Doing F M C}

/-! ## The account of `state_` -/

/-- The holder's share of `state_`. -/
def hold : Option (Party F T) → ℤ
  | none => 0
  | some _ => 1

/-- The share of a party in transit. -/
def Doing.share (m : MutexId F M) (d : Doing F M C) : ℤ := if d.transit = some m then 1 else 0

/-- The account of every `state_`: one for the holder and one for each party in transit. -/
structure Account [Fintype T] (s : WakeState F T M C) : Prop where
  state_eq : ∀ m, s.state m = hold (s.owner m) + count (Doing.share m) s.doing
  free : ∀ m, s.owner m = none → s.state m = 0
  alone : ∀ m t t', (s.doing t).access = some m → (s.doing t').access = some m → t = t'

omit [DecidableEq T] [DecidableEq C] in
theorem Doing.share_nonneg {m : MutexId F M} (d : Doing F M C) : 0 ≤ d.share m := by
  unfold Doing.share
  split <;> omega

omit [DecidableEq F] [DecidableEq T] [DecidableEq M] [DecidableEq C] in
theorem Doing.transit_of_access {m : MutexId F M} (h : d.access = some m) :
    d.transit = some m := by
  unfold Doing.access at h
  split at h
  · exact absurd h (by simp)
  · exact h

omit [DecidableEq T] [DecidableEq C] in
theorem Doing.share_of_transit {m : MutexId F M} (h : d.transit = some m) : d.share m = 1 := by
  rw [Doing.share, if_pos h]

omit [DecidableEq T] [DecidableEq C] in
theorem Doing.share_of_ne {m : MutexId F M} (h : d.transit ≠ some m) : d.share m = 0 := by
  rw [Doing.share, if_neg h]

section Account

variable [Fintype T]

omit [DecidableEq T] [DecidableEq C] in
/-- Nobody is in transit to a mutex whose count is zero. -/
theorem transit_ne_of_count {m : MutexId F M} (h : count (Doing.share m) s.doing = 0) (t : T) :
    (s.doing t).transit ≠ some m := by
  intro ht
  have h0 := eq_zero_of_count_eq_zero Doing.share_nonneg h t
  rw [Doing.share_of_transit ht] at h0
  omega

omit [DecidableEq T] [DecidableEq C] in
/-- A mutex at zero has no holder. -/
theorem Account.owner_eq_none (h : Account s) {m : MutexId F M} (hs : s.state m = 0) :
    s.owner m = none := by
  have hst := h.state_eq m
  have hnn : 0 ≤ count (Doing.share m) s.doing := count_nonneg Doing.share_nonneg
  cases ho : s.owner m with
  | none => rfl
  | some p =>
    rw [ho, hold] at hst
    omega

omit [DecidableEq T] [DecidableEq C] in
/-- Nobody is in transit to a mutex that nobody holds. -/
theorem Account.transit_of_free (h : Account s) {m : MutexId F M} (ho : s.owner m = none)
    (t : T) : (s.doing t).transit ≠ some m := by
  have hst := h.state_eq m
  have hz := h.free m ho
  rw [ho, hold] at hst
  exact transit_ne_of_count (by omega) t

omit [DecidableEq T] [DecidableEq C] in
/-- At one, the mutex is held and nobody is in transit to it. -/
theorem Account.transit_of_one (h : Account s) {m : MutexId F M} (hs : s.state m = 1) (t : T) :
    (s.doing t).transit ≠ some m := by
  have hst := h.state_eq m
  cases ho : s.owner m with
  | none =>
    have hz := h.free m ho
    omega
  | some p =>
    rw [ho, hold] at hst
    exact transit_ne_of_count (by omega) t

omit [DecidableEq T] [DecidableEq C] in
/-- A party in transit is at a mutex that somebody holds. -/
theorem Account.owner_of_transit (h : Account s) {m : MutexId F M}
    (ht : (s.doing t).transit = some m) : s.owner m ≠ none :=
  fun ho => h.transit_of_free ho t ht

omit [DecidableEq C] in
/-- A step of thread `t` that leaves every counter and its share in it alone. -/
theorem Account.frame (h : Account s) (hstate : s'.state = s.state)
    (howner : ∀ m, hold (s'.owner m) = hold (s.owner m))
    (hdoing : s'.doing = Function.update s.doing t d) (htr : d.transit = (s.doing t).transit)
    (hac : d.access = (s.doing t).access) : Account s' := by
  have hshare : ∀ m, d.share m = (s.doing t).share m := fun m => by
    rw [Doing.share, Doing.share, htr]
  have haccess : ∀ b, (s'.doing b).access = (s.doing b).access := by
    intro b
    rw [hdoing]
    by_cases hb : b = t
    · rw [hb, Function.update_self, hac]
    · rw [Function.update_of_ne hb]
  constructor
  · intro m
    rw [hstate, howner, hdoing, count_update, hshare, h.state_eq m]
    omega
  · intro m ho
    rw [hstate]
    apply h.free m
    have hh := howner m
    rw [ho] at hh
    cases hm : s.owner m with
    | none => rfl
    | some p =>
      rw [hm] at hh
      simp [hold] at hh
  · intro m a b ha hb
    rw [haccess] at ha hb
    exact h.alone m a b ha hb

omit [DecidableEq C] in
/-- A step of thread `t` that is about the mutex `m₀` alone. -/
theorem Account.change (h : Account s) {m₀ : MutexId F M} {v : ℤ}
    (hstate : s'.state = Function.update s.state m₀ v)
    (howner : ∀ m, m ≠ m₀ → s'.owner m = s.owner m)
    (hdoing : s'.doing = Function.update s.doing t d)
    (htr : ∀ m, m ≠ m₀ → (d.transit = some m ↔ (s.doing t).transit = some m))
    (hac : ∀ m, m ≠ m₀ → d.access = some m → (s.doing t).access = some m)
    (hv : v = hold (s'.owner m₀) + count (Doing.share m₀) s.doing
      + (d.share m₀ - (s.doing t).share m₀))
    (hfree : s'.owner m₀ = none → v = 0)
    (halone : d.access = some m₀ → (s.doing t).access = some m₀ ∨
      ∀ t', (s.doing t').access ≠ some m₀) : Account s' := by
  constructor
  · intro m
    rw [hstate, hdoing, count_update]
    by_cases hm : m = m₀
    · rw [hm, Function.update_self, hv]
      omega
    · have hshare : d.share m = (s.doing t).share m := by
        simp only [Doing.share, htr m hm]
      rw [Function.update_of_ne hm, howner m hm, hshare, h.state_eq m]
      omega
  · intro m ho
    rw [hstate]
    by_cases hm : m = m₀
    · rw [hm, Function.update_self]
      exact hfree (hm ▸ ho)
    · rw [Function.update_of_ne hm]
      rw [howner m hm] at ho
      exact h.free m ho
  · intro m a b ha hb
    rw [hdoing] at ha hb
    have hold_ : ∀ t', (Function.update s.doing t d t').access = some m →
        (s.doing t').access = some m ∨ t' = t ∧ ∀ b, (s.doing b).access ≠ some m := by
      intro t' ht'
      by_cases htt : t' = t
      · rw [htt, Function.update_self] at ht'
        rw [htt]
        by_cases hm : m = m₀
        · rw [hm] at ht' ⊢
          rcases halone ht' with hal | hal
          · exact .inl hal
          · exact .inr ⟨rfl, hal⟩
        · exact .inl (hac m hm ht')
      · rw [Function.update_of_ne htt] at ht'
        exact .inl ht'
    rcases hold_ a ha with ha' | ⟨ha', hno⟩
    · rcases hold_ b hb with hb' | ⟨-, hno⟩
      · exact h.alone m a b ha' hb'
      · exact absurd ha' (hno a)
    · rcases hold_ b hb with hb' | ⟨hb', -⟩
      · exact absurd hb' (hno b)
      · rw [ha', hb']

omit [DecidableEq C] in
/-- The last step of `unlock`. -/
theorem Account.release_frame (h : Account s) {m₀ : MutexId F M}
    (htr : (s.doing t).transit = some m₀) (hs : s.state m₀ = 2)
    (hstate : s'.state = Function.update s.state m₀ 0)
    (howner : s'.owner = Function.update s.owner m₀ none)
    (hdoing : s'.doing = Function.update s.doing t d) (hd : d.transit = none) : Account s' := by
  have hst := h.state_eq m₀
  have h1 := Doing.share_of_transit htr
  have h0 : d.share m₀ = 0 := Doing.share_of_ne (by simp [hd])
  have hac : ∀ m, d.access ≠ some m := fun m hm => by
    have := Doing.transit_of_access hm
    simp [hd] at this
  apply h.change hstate (fun m hm => by rw [howner, Function.update_of_ne hm]) hdoing
  · intro m hm
    simp [hd, htr, Ne.symm hm]
  · intro m _ hm
    exact absurd hm (hac m)
  · rw [h0, h1, howner, Function.update_self, hold]
    cases ho : s.owner m₀ with
    | none => exact absurd ho (h.owner_of_transit htr)
    | some p =>
      rw [ho, hold] at hst
      omega
  · intro _
    rfl
  · intro hm
    exact absurd hm (hac m₀)

end Account

section Steps

omit [DecidableEq F] [DecidableEq T] [DecidableEq M] [DecidableEq C]

theorem Unlocker.transit_eq {k : UnlockStep → Doing F M C} {m : MutexId F M}
    (hk : Unlocker k m) (u : UnlockStep) : (k u).transit = u.transit m := by
  cases hk <;> rfl

theorem Unlocker.access_eq {k : UnlockStep → Doing F M C} {m : MutexId F M}
    (hk : Unlocker k m) (u : UnlockStep) : (k u).access = u.transit m := by
  cases hk <;> rfl

@[simp] theorem transit_locked (f : F) (c : Call F M) :
    (Doing.running f (c.locked : FiberStep F M C)).transit = none := by
  cases c <;> rfl

@[simp] theorem transit_unlocked (f : F) (c : Call F M) :
    (Doing.running f (c.unlocked : FiberStep F M C)).transit = none := by
  cases c <;> rfl

@[simp] theorem transit_resumeStep (f : F) (x : Option (Call F M)) :
    (Doing.running f (resumeStep x : FiberStep F M C)).transit = none := by
  cases x <;> rfl

@[simp] theorem access_locked (f : F) (c : Call F M) :
    (Doing.running f (c.locked : FiberStep F M C)).access = none := by
  cases c <;> rfl

@[simp] theorem access_unlocked (f : F) (c : Call F M) :
    (Doing.running f (c.unlocked : FiberStep F M C)).access = none := by
  cases c <;> rfl

@[simp] theorem access_resumeStep (f : F) (x : Option (Call F M)) :
    (Doing.running f (resumeStep x : FiberStep F M C)).access = none := by
  cases x <;> rfl

theorem Enters.transit_eq {f : F} {at_ at_' : FiberStep F M C} (h : Enters s f at_ at_') :
    (Doing.running f at_').transit = (Doing.running f at_).transit ∧
    (Doing.running f at_').access = (Doing.running f at_).access := by
  cases h <;> exact ⟨rfl, rfl⟩

end Steps

/-! ## The holder of a mutex -/

/-- Who needs a mutex for what it is about to do is the recorded holder. -/
def Holds (s : WakeState F T M C) : Prop :=
  ∀ t m p, (s.doing t).holding t = some (m, p) → s.owner m = some p

theorem Account.step [Fintype T] {t : T} (h : Account s) (hh : Holds s) (hm : Moves s t s') :
    Account s' := by
  cases hm with
  | fire f ht hf => exact h.frame rfl (fun _ => rfl) rfl (by rw [ht]; rfl) (by rw [ht]; rfl)
  | start f ht hf =>
    rcases ht with ht | ⟨g, ht⟩
    · exact h.frame rfl (fun _ => rfl) rfl (by rw [ht]; rfl) (by rw [ht]; rfl)
    · exact h.frame rfl (fun _ => rfl) rfl (by rw [ht]; rfl) (by rw [ht]; rfl)
  | resume f ht hw =>
    exact h.frame rfl (fun _ => rfl) rfl (by rw [ht, transit_resumeStep]; rfl)
      (by rw [ht, access_resumeStep]; rfl)
  | returnIdle ht hw hn =>
    exact h.frame rfl (fun _ => rfl) rfl (by rw [ht]; rfl) (by rw [ht]; rfl)
  | returnTo g nest ht hn =>
    exact h.frame rfl (fun _ => rfl) rfl (by rw [ht]; rfl) (by rw [ht]; rfl)
  | enter f at_ at_' ht hat =>
    exact h.frame rfl (fun _ => rfl) rfl (by rw [ht, hat.transit_eq.1])
      (by rw [ht, hat.transit_eq.2])
  | notifyOne f m c ht ho =>
    have hl := listWork_notifyOne s t (.user m c)
    exact h.frame (t := t) (d := s.doing t) hl.state (fun _ => by rw [hl.owner])
      (by rw [hl.doing, Function.update_eq_self]) rfl rfl
  | notifyAll f m c n ht ho hw =>
    have hl := listWork_notifyAll s t (.user m c) n
    exact h.frame (t := t) (d := s.doing t) hl.state (fun _ => by rw [hl.owner])
      (by rw [hl.doing, Function.update_eq_self]) rfl rfl
  -- `state_` was 0: there is no holder, and nobody in transit
  | acquire f c ht hs =>
    have ho := h.owner_eq_none hs
    have hst := h.state_eq (c.mutex f)
    have h0 : (s.doing t).share (c.mutex f) = 0 :=
      Doing.share_of_ne (h.transit_of_free ho t)
    rw [ho, hold] at hst
    apply h.change rfl (fun _ hm => by simp [hm]) rfl
    · intro m hm
      rw [ht, transit_locked]
      simp [Doing.transit]
    · intro m hm hac
      simp at hac
    · rw [h0]
      simp [Doing.share, hold]
      omega
    · intro hn
      simp at hn
    · intro hac
      simp at hac
  -- `state_` was 1, which is the share of the holder: nobody is at the list
  | sleep f c ht hs =>
    have hno := h.transit_of_one hs
    have hst := h.state_eq (c.mutex f)
    have h0 : (s.doing t).share (c.mutex f) = 0 := Doing.share_of_ne (hno t)
    have h1 : (Doing.running f (.push c) : Doing F M C).share (c.mutex f) = 1 :=
      Doing.share_of_transit rfl
    apply h.change rfl (fun _ _ => by rfl) rfl
    · intro m hm
      simp [ht, Doing.transit, Ne.symm hm]
    · intro m hm hac
      exact absurd (Option.some.inj hac).symm hm
    · rw [h0, h1]
      show s.state (c.mutex f) + 1 = hold (s.owner (c.mutex f)) + _ + (1 - 0)
      omega
    · intro hn
      have hz := h.free _ hn
      omega
    · intro _
      right
      intro t' ht'
      exact hno t' (Doing.transit_of_access ht')
  -- the attempt has a share as well, but does not get to the list
  | contend f c ht hs =>
    have hst := h.state_eq (c.mutex f)
    have h0 : (s.doing t).share (c.mutex f) = 0 := by
      apply Doing.share_of_ne
      simp [ht, Doing.transit]
    have h1 : (Doing.running f (.backOff c) : Doing F M C).share (c.mutex f) = 1 :=
      Doing.share_of_transit rfl
    apply h.change rfl (fun _ _ => by rfl) rfl
    · intro m hm
      simp [ht, Doing.transit, Ne.symm hm]
    · intro m hm hac
      exact absurd hac (by simp [Doing.access])
    · rw [h0, h1]
      show s.state (c.mutex f) + 1 = hold (s.owner (c.mutex f)) + _ + (1 - 0)
      omega
    · intro hn
      exact absurd (h.free _ hn) hs
    · intro hac
      exact absurd hac (by simp [Doing.access])
  | backOff f c ht =>
    have htr : (s.doing t).transit = some (c.mutex f) := by rw [ht]; rfl
    have hst := h.state_eq (c.mutex f)
    have h1 := Doing.share_of_transit htr
    have h0 : (Doing.running f (.lock c) : Doing F M C).share (c.mutex f) = 0 :=
      Doing.share_of_ne (by simp [Doing.transit])
    apply h.change rfl (fun _ _ => by rfl) rfl
    · intro m hm
      simp [ht, Doing.transit, Ne.symm hm]
    · intro m hm hac
      exact absurd hac (by simp [Doing.access, Doing.transit])
    · rw [h0, h1]
      show s.state (c.mutex f) - 1 = hold (s.owner (c.mutex f)) + _ + (0 - 1)
      omega
    · intro hn
      exact absurd hn (h.owner_of_transit htr)
    · intro hac
      exact absurd hac (by simp [Doing.access, Doing.transit])
  | push f c ht => exact h.frame rfl (fun _ => rfl) rfl (by rw [ht]; rfl) (by rw [ht]; rfl)
  | condPush f k n ht hw =>
    have hl := listWork_condPush s t k f n
    exact h.frame hl.state (fun _ => by simp [hl.owner]) (hl.setDoing t _)
      (by rw [ht]; rfl) (by rw [ht]; rfl)
  | exitNotify f n ht hw =>
    have hl := listWork_notifyAll { s with running := Function.update s.running f false } t
      (.stop f) n
    exact h.frame hl.state (fun _ => by simp [hl.owner]) (hl.setDoing t _)
      (by rw [ht]; rfl) (by rw [ht]; rfl)
  -- as in `sleep`: the share of the holder is the only one
  | grab k m hk ht hs =>
    have hno := h.transit_of_one hs
    have hst := h.state_eq m
    have h0 : (s.doing t).share m = 0 := Doing.share_of_ne (hno t)
    have h1 : (k .wake).share m = 1 := Doing.share_of_transit (hk.transit_eq _)
    apply h.change rfl (fun _ _ => by rfl) rfl
    · intro m' hm
      rw [ht, hk.transit_eq, hk.transit_eq]
      simp [UnlockStep.transit, Ne.symm hm]
    · intro m' hm hac
      rw [hk.access_eq] at hac
      exact absurd (Option.some.inj hac).symm hm
    · rw [h0, h1]
      show 2 = hold (s.owner m) + _ + (1 - 0)
      omega
    · intro hn
      have hz := h.free _ hn
      omega
    · intro _
      right
      intro t' ht'
      exact hno t' (Doing.transit_of_access ht')
  | wake k m hk ht =>
    have hl := listWork_wakeSleepers s t m
    exact h.frame hl.state (fun _ => by simp [hl.owner]) (hl.setDoing t _)
      (by rw [ht, hk.transit_eq .wake, hk.transit_eq]; rfl)
      (by rw [ht, hk.access_eq .wake, hk.access_eq]; rfl)
  | release f c joined ht hs hj =>
    have htr : (s.doing t).transit = some (c.mutex f) := by rw [ht]; rfl
    exact h.release_frame htr hs rfl rfl rfl (by simp)
  | releaseParent f m ht hs =>
    have htr : (s.doing t).transit = some m := by rw [ht]; rfl
    exact h.release_frame htr hs rfl rfl rfl rfl
  | switchMutex f c ht =>
    exact h.frame rfl (fun _ => rfl) rfl (by rw [ht]; rfl) (by rw [ht]; rfl)
  -- the parent takes over the mutex from the fiber
  | switchCond f k ht =>
    have ho : s.owner k.mutex = some (.fiber f) := hh t _ _ (by rw [ht]; rfl)
    refine h.frame (t := t) rfl ?_ rfl (by rw [ht]; rfl) (by rw [ht]; rfl)
    intro m
    by_cases hm : m = k.mutex
    · simp [hm, ho, hold]
    · simp [hm]
  | switchExternal f ht =>
    exact h.frame rfl (fun _ => rfl) rfl (by rw [ht]; rfl) (by rw [ht]; rfl)
  | switchExit f ht => exact h.frame rfl (fun _ => rfl) rfl (by rw [ht]; rfl) (by rw [ht]; rfl)
  | decrement f m ht =>
    have htr : (s.doing t).transit = some m := by rw [ht]; rfl
    have hst := h.state_eq m
    have h1 := Doing.share_of_transit htr
    have h0 : (Doing.wakeAll : Doing F M C).share m = 0 :=
      Doing.share_of_ne (by simp [Doing.transit])
    apply h.change rfl (fun _ _ => by rfl) rfl
    · intro m hm
      simp [ht, Doing.transit, Ne.symm hm]
    · intro m hm hac
      exact absurd hac (by simp [Doing.access, Doing.transit])
    · rw [h0, h1]
      show s.state m - 1 = hold (s.owner m) + _ + (0 - 1)
      omega
    · intro hn
      exact absurd hn (h.owner_of_transit htr)
    · intro hac
      exact absurd hac (by simp [Doing.access, Doing.transit])
  | register f ht => exact h.frame rfl (fun _ => rfl) rfl (by rw [ht]; rfl) (by rw [ht]; rfl)
  | exit f ht => exact h.frame rfl (fun _ => rfl) rfl (by rw [ht]; rfl) (by rw [ht]; rfl)

/-! ## Where the fibers are -/

/-- The thread that has to do with a fiber at the place. -/
def Place.thread : Place F T M C → Option T
  | .executing t | .switching t _ | .registering t | .exiting t => some t
  | _ => none

/-- The list that a fiber at the place is on. -/
def Place.list : Place F T M C → Option (WakeList F T M C)
  | .switching _ i | .listed i => some i
  | _ => none

/-- Where the fiber is that thread `t` runs. -/
def FiberStep.place (t : T) (f : F) : FiberStep F M C → Place F T M C
  | .switchMutex c => .switching t (.mutex (c.mutex f))
  | .switchCond k => .switching t (.cond k)
  | _ => .executing t

/-- Where a thread has the fiber that it runs or has in its hands. -/
def Doing.place (t : T) : Doing F M C → Place F T M C
  | .running f at_ => at_.place t f
  | .handle _ .register => .registering t
  | .handle _ .exit => .exiting t
  | _ => .off

/-- Where thread `t` has the fiber `f`, if it does. -/
def Doing.occupies (t : T) (d : Doing F M C) (nest : List F) (f : F) :
    Option (Place F T M C) :=
  if f ∈ nest then some (.executing t)
  else if f ∈ d.current then some (d.place t)
  else none

/-- What the threads execute agrees with where the fibers are, and no fiber is twice on a
stack. -/
structure Stacks (s : WakeState F T M C) : Prop where
  place_iff : ∀ t f p, p.thread = some t →
    (s.place f = p ↔ (s.doing t).occupies t (s.nest t) f = some p)
  nodup : ∀ t, ((s.doing t).current ++ s.nest t).Nodup

section Stacks

omit [DecidableEq F] [DecidableEq T] [DecidableEq M] [DecidableEq C] in
theorem FiberStep.thread_place (t : T) (f : F) (at_ : FiberStep F M C) :
    (at_.place t f).thread = some t := by
  cases at_ <;> rfl

omit [DecidableEq F] [DecidableEq T] [DecidableEq M] [DecidableEq C] in
theorem Doing.thread_place {f : F} (hf : f ∈ d.current) : (d.place t).thread = some t := by
  cases d with
  | idle => simp [Doing.current] at hf
  | wakeAll => simp [Doing.current] at hf
  | running g at_ => exact FiberStep.thread_place t g at_
  | handle g op =>
    cases op with
    | register => rfl
    | exit => rfl
    | mutexSuspend m => simp [Doing.current] at hf
    | condWait m u => simp [Doing.current] at hf

omit [DecidableEq T] [DecidableEq M] [DecidableEq C]

/-- The place of the fiber that a thread runs or has in its hands. -/
theorem Stacks.current (h : Stacks s) {f : F} (hf : f ∈ (s.doing t).current) :
    s.place f = (s.doing t).place t := by
  apply (h.place_iff t f _ (Doing.thread_place hf)).mpr
  have hnd := (List.nodup_append.mp (h.nodup t)).2.2
  rw [Doing.occupies, if_neg fun hn => hnd f hf f hn rfl, if_pos hf]

/-- The place of the fiber that a thread runs. -/
theorem Stacks.running (h : Stacks s) {f : F} {at_ : FiberStep F M C}
    (ht : s.doing t = .running f at_) : s.place f = at_.place t f := by
  rw [h.current (t := t) (f := f) (by simp [ht, Doing.current]), ht]
  rfl

/-- The place of a fiber that acts as a parent. -/
theorem Stacks.nested (h : Stacks s) {f : F} (hf : f ∈ s.nest t) : s.place f = .executing t := by
  apply (h.place_iff t f _ rfl).mpr
  rw [Doing.occupies, if_pos hf]

/-- A fiber on a stack has a place on that thread. -/
theorem Stacks.thread_of_onStack (h : Stacks s) {f : F} (hf : s.onStack t f) :
    (s.place f).thread = some t := by
  rcases hf with ⟨at_, ht⟩ | hf
  · rw [h.running ht]
    exact FiberStep.thread_place t f at_
  · rw [h.nested hf]
    rfl

/-- A fiber runs on one thread. -/
theorem Stacks.thread_unique (h : Stacks s) {t' : T} {f : F} {at_ at_' : FiberStep F M C}
    (ht : s.doing t = .running f at_) (ht' : s.doing t' = .running f at_') : t = t' := by
  have h1 := h.thread_of_onStack (.inl ⟨at_, ht⟩)
  have h2 := h.thread_of_onStack (.inl ⟨at_', ht'⟩)
  rw [h1] at h2
  exact Option.some.inj h2

/-- A fiber with a place on a thread is on its stack or in its hands. -/
theorem Stacks.of_thread (h : Stacks s) {f : F} (hf : (s.place f).thread = some t) :
    f ∈ s.nest t ∧ s.place f = .executing t ∨
      f ∈ (s.doing t).current ∧ s.place f = (s.doing t).place t := by
  have ho := (h.place_iff t f _ hf).mp rfl
  unfold Doing.occupies at ho
  split at ho
  · next hn => exact .inl ⟨hn, (Option.some.inj ho).symm⟩
  · split at ho
    · next hc => exact .inr ⟨hc, (Option.some.inj ho).symm⟩
    · exact absurd ho (by simp)

omit [DecidableEq F] in
theorem Doing.of_current {f : F} (hf : f ∈ d.current) :
    (∃ at_, d = .running f at_) ∨ d = .handle f .register ∨ d = .handle f .exit := by
  cases d with
  | idle => simp [Doing.current] at hf
  | wakeAll => simp [Doing.current] at hf
  | running g at_ =>
    left
    refine ⟨at_, ?_⟩
    rw [show f = g by simpa [Doing.current] using hf]
  | handle g op =>
    right
    cases op with
    | register =>
      left
      rw [show f = g by simpa [Doing.current] using hf]
    | exit =>
      right
      rw [show f = g by simpa [Doing.current] using hf]
    | mutexSuspend m => simp [Doing.current] at hf
    | condWait m u => simp [Doing.current] at hf

/-- A fiber that is about to switch away runs. -/
theorem Stacks.of_switching (h : Stacks s) {f : F} {i : WakeList F T M C}
    (hf : s.place f = .switching t i) :
    ∃ at_, s.doing t = .running f at_ ∧ at_.place t f = .switching t i := by
  have hth : (s.place f).thread = some t := by rw [hf]; rfl
  rcases h.of_thread hth with ⟨-, hp⟩ | ⟨hc, hp⟩
  · rw [hf] at hp
    exact absurd hp (by simp)
  · rw [hf] at hp
    rcases Doing.of_current hc with ⟨at_, ht⟩ | ht | ht
    · rw [ht] at hp
      exact ⟨at_, ht, hp.symm⟩
    · rw [ht] at hp
      exact absurd hp (by simp [Doing.place])
    · rw [ht] at hp
      exact absurd hp (by simp [Doing.place])

end Stacks

/-! ## Who holds a mutex -/

section Holding

omit [DecidableEq F] [DecidableEq T] [DecidableEq M] [DecidableEq C]

theorem Unlocker.holding_eq {k : UnlockStep → Doing F M C} {m : MutexId F M}
    (hk : Unlocker k m) (t : T) (u u' : UnlockStep) : (k u).holding t = (k u').holding t := by
  cases hk <;> rfl

/-- A party that holds a mutex as a fiber runs that fiber. -/
theorem Doing.running_of_holding {m : MutexId F M} {f : F}
    (h : d.holding t = some (m, .fiber f)) : ∃ at_, d = .running f at_ := by
  cases d with
  | idle => simp [Doing.holding] at h
  | wakeAll => simp [Doing.holding] at h
  | running g at_ =>
    simp only [Doing.holding, Option.map_eq_some_iff, Prod.mk.injEq, Party.fiber.injEq] at h
    obtain ⟨_, -, -, hg⟩ := h
    exact ⟨at_, by rw [hg]⟩
  | handle g op => cases op <;> simp [Doing.holding] at h

/-- A party that holds a mutex as a parent is the parent of its own thread. -/
theorem Doing.thread_of_holding {m : MutexId F M} {t' : T}
    (h : d.holding t = some (m, .parent t')) : t = t' := by
  cases d with
  | idle => simp [Doing.holding] at h
  | wakeAll => simp [Doing.holding] at h
  | running g at_ => simp [Doing.holding] at h
  | handle g op =>
    cases op <;> simp [Doing.holding] at h
    exact h.2

theorem Enters.holding {f : F} {at_ at_' : FiberStep F M C} (h : Enters s f at_ at_')
    {m : MutexId F M} (hm : at_'.needs f = some m) :
    s.owner m = some (.fiber f) ∨ at_.needs f = some m := by
  cases h with
  | lock m => simp [FiberStep.needs] at hm
  | unlock m ho =>
    left
    rw [← Option.some.inj hm]
    exact ho
  | wait m c ho =>
    left
    rw [← Option.some.inj hm]
    exact ho
  | join g => simp [FiberStep.needs] at hm
  | suspend => simp [FiberStep.needs] at hm
  | exit => simp [FiberStep.needs] at hm
  | joinWait g hr => exact .inr hm
  | joinDone g hr => exact .inr hm

theorem holding_eq_none {f : F} {at_ : FiberStep F M C} (h : at_.needs f = none) (t : T) :
    (Doing.running f at_).holding t = none := by
  rw [Doing.holding, h]
  rfl

end Holding

section Holds

omit [DecidableEq T] [DecidableEq M] [DecidableEq C] in
/-- No other thread holds what this one does. -/
theorem Holds.alone (h : Holds s) (hst : Stacks s) {m : MutexId F M} {p p' : Party F T} {t' : T}
    (ht : (s.doing t).holding t = some (m, p)) (ht' : (s.doing t').holding t' = some (m, p')) :
    t' = t := by
  have hp : p = p' := Option.some.inj ((h t m p ht).symm.trans (h t' m p' ht'))
  subst hp
  cases p with
  | fiber f =>
    obtain ⟨at_, hf⟩ := Doing.running_of_holding ht
    obtain ⟨at_', hf'⟩ := Doing.running_of_holding ht'
    exact hst.thread_unique hf' hf
  | parent t₁ => rw [Doing.thread_of_holding ht', Doing.thread_of_holding ht]

omit [DecidableEq F] [DecidableEq M] [DecidableEq C] in
/-- A step of thread `t` that leaves the holders alone. -/
theorem Holds.frame (h : Holds s) (howner : s'.owner = s.owner)
    (hdoing : s'.doing = Function.update s.doing t d)
    (hd : ∀ m p, d.holding t = some (m, p) → s.owner m = some p) : Holds s' := by
  intro t' m p hp
  rw [howner]
  rw [hdoing] at hp
  by_cases ht : t' = t
  · rw [ht, Function.update_self] at hp
    exact hd m p hp
  · rw [Function.update_of_ne ht] at hp
    exact h t' m p hp

omit [DecidableEq C] in
/-- A step of thread `t` that changes the holder of one mutex. -/
theorem Holds.change (h : Holds s) {m₀ : MutexId F M} {o : Option (Party F T)}
    (howner : s'.owner = Function.update s.owner m₀ o)
    (hdoing : s'.doing = Function.update s.doing t d)
    (hother : ∀ t', t' ≠ t → ∀ p, (s.doing t').holding t' ≠ some (m₀, p))
    (hd : ∀ m p, d.holding t = some (m, p) → m = m₀ ∧ o = some p) : Holds s' := by
  intro t' m p hp
  rw [howner]
  rw [hdoing] at hp
  by_cases ht : t' = t
  · rw [ht, Function.update_self] at hp
    obtain ⟨hm, ho⟩ := hd m p hp
    rw [hm, Function.update_self, ho]
  · rw [Function.update_of_ne ht] at hp
    have hm : m ≠ m₀ := by
      rintro rfl
      exact hother t' ht p hp
    rw [Function.update_of_ne hm]
    exact h t' m p hp

omit [DecidableEq C] in
/-- The end of an `unlock`. -/
theorem Holds.release (h : Holds s) (hst : Stacks s) {m₀ : MutexId F M} {p : Party F T}
    (ht : (s.doing t).holding t = some (m₀, p))
    (howner : s'.owner = Function.update s.owner m₀ none)
    (hdoing : s'.doing = Function.update s.doing t d) (hd : d.holding t = none) : Holds s' := by
  apply h.change howner hdoing
  · intro t' htt p' hp'
    exact htt (h.alone hst ht hp')
  · intro m p' hp'
    rw [hd] at hp'
    exact absurd hp' (by simp)

theorem Holds.step [Fintype T] (h : Holds s) (hac : Account s) (hst : Stacks s)
    (hm : Moves s t s') : Holds s' := by
  -- a thread that ends up with nothing to do about a mutex
  have hnone : ∀ {d : Doing F M C}, d.holding t = none →
      ∀ m p, d.holding t = some (m, p) → s.owner m = some p := by
    intro d hd m p hp
    rw [hd] at hp
    exact absurd hp (by simp)
  -- a thread that goes on needing what it needed
  have hsame : ∀ {d : Doing F M C}, d.holding t = (s.doing t).holding t →
      ∀ m p, d.holding t = some (m, p) → s.owner m = some p := by
    intro d hd m p hp
    rw [hd] at hp
    exact h t m p hp
  cases hm with
  | fire f ht hf => exact h.frame rfl rfl (hnone rfl)
  | start f ht hf => exact h.frame rfl rfl (hnone rfl)
  | resume f ht hw =>
    refine h.frame rfl rfl (hnone ?_)
    apply holding_eq_none
    cases s.context f <;> rfl
  | returnIdle ht hw hn => exact h.frame rfl rfl (hnone rfl)
  | returnTo g nest ht hn => exact h.frame rfl rfl (hnone rfl)
  | enter f at_ at_' ht hat =>
    refine h.frame rfl rfl ?_
    intro m p hp
    simp only [Doing.holding, Option.map_eq_some_iff, Prod.mk.injEq] at hp
    obtain ⟨m', hm', rfl, rfl⟩ := hp
    rcases hat.holding hm' with ho | ho
    · exact ho
    · apply h t
      rw [ht, Doing.holding, ho]
      rfl
  | notifyOne f m c ht ho =>
    have hl := listWork_notifyOne s t (.user m c)
    intro t' m p
    rw [hl.doing, hl.owner]
    exact h t' m p
  | notifyAll f m c n ht ho hw =>
    have hl := listWork_notifyAll s t (.user m c) n
    intro t' m p
    rw [hl.doing, hl.owner]
    exact h t' m p
  | acquire f c ht hs =>
    have ho := hac.owner_eq_none hs
    apply h.change rfl rfl
    · intro t' htt p hp
      rw [h t' _ p hp] at ho
      exact absurd ho (by simp)
    · intro m p hp
      cases c with
      | user m' => simp [Doing.holding, Call.locked, FiberStep.needs] at hp
      | join g =>
        have := Option.some.inj hp
        simp only [Prod.mk.injEq] at this
        exact ⟨this.1.symm, by rw [this.2]⟩
      | exit =>
        have := Option.some.inj hp
        simp only [Prod.mk.injEq] at this
        exact ⟨this.1.symm, by rw [this.2]⟩
  | sleep f c ht hs => exact h.frame rfl rfl (hnone rfl)
  | contend f c ht hs => exact h.frame rfl rfl (hnone rfl)
  | backOff f c ht => exact h.frame rfl rfl (hnone rfl)
  | push f c ht => exact h.frame rfl rfl (hnone rfl)
  | condPush f k n ht hw =>
    have hl := listWork_condPush s t k f n
    exact h.frame hl.owner (hl.setDoing t _) (hsame (by rw [ht]; rfl))
  | exitNotify f n ht hw =>
    have hl := listWork_notifyAll { s with running := Function.update s.running f false } t
      (.stop f) n
    exact h.frame hl.owner (hl.setDoing t _) (hsame (by rw [ht]; rfl))
  | grab k m hk ht hs =>
    exact h.frame rfl rfl (hsame (by rw [ht]; exact hk.holding_eq t _ _))
  | wake k m hk ht =>
    have hl := listWork_wakeSleepers s t m
    exact h.frame hl.owner (hl.setDoing t _) (hsame (by rw [ht]; exact hk.holding_eq t _ _))
  | release f c joined ht hs hj =>
    apply h.release hst (by rw [ht]; rfl) rfl rfl
    apply holding_eq_none
    cases c <;> rfl
  | releaseParent f m ht hs => exact h.release hst (by rw [ht]; rfl) rfl rfl rfl
  | switchMutex f c ht => exact h.frame rfl rfl (hnone rfl)
  | switchCond f k ht =>
    have hk : (s.doing t).holding t = some (k.mutex, .fiber f) := by rw [ht]; rfl
    apply h.change rfl rfl
    · intro t' htt p' hp'
      exact htt (h.alone hst hk hp')
    · intro m p hp
      have := Option.some.inj hp
      simp only [Prod.mk.injEq] at this
      exact ⟨this.1.symm, by rw [this.2]⟩
  | switchExternal f ht => exact h.frame rfl rfl (hnone rfl)
  | switchExit f ht => exact h.frame rfl rfl (hnone rfl)
  | decrement f m ht => exact h.frame rfl rfl (hnone rfl)
  | register f ht => exact h.frame rfl rfl (hnone rfl)
  | exit f ht => exact h.frame rfl rfl (hnone rfl)

end Holds

end Anon.Fiber.Wake
