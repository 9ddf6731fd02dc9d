import Anon.Fiber.WakeParties

/-!
# The places of fibers

* `WakeInv`: the invariant of the machine.
* `Stacks.step`: each step keeps the stacks and the places of the fibers in agreement.
* `Books.step`: each step keeps the registered events and the lives of the fibers in agreement
  with their places.
-/

namespace Anon.Fiber.Wake

open WakeState

variable {F T M C : Type} [DecidableEq F] [DecidableEq T] [DecidableEq M] [DecidableEq C]
  {s s' : WakeState F T M C} {t : T} {d : Doing F M C}

/-! ## The stacks over one step -/

section Stacks

omit [DecidableEq F] [DecidableEq T] [DecidableEq M] [DecidableEq C] in
theorem not_nested (hnd : (d.current ++ s.nest t).Nodup) {f : F} (hf : f ∈ d.current) :
    f ∉ s.nest t :=
  fun hn => (List.nodup_append.mp hnd).2.2 f hf f hn rfl

omit [DecidableEq M] [DecidableEq C]

/-- A step of thread `t` after which every stack holds what it held. -/
theorem Stacks.stay (h : Stacks s) (hdoing : s'.doing = Function.update s.doing t d)
    (hnest : ∀ t', t' ≠ t → s'.nest t' = s.nest t')
    (hnd : (d.current ++ s'.nest t).Nodup)
    (hplace : ∀ f p t', p.thread = some t' → (s'.place f = p ↔ s.place f = p))
    (hocc : ∀ f, d.occupies t (s'.nest t) f = (s.doing t).occupies t (s.nest t) f) :
    Stacks s' := by
  constructor
  · intro t' f p hp
    rw [hplace f p t' hp, hdoing]
    by_cases ht : t' = t
    · subst ht
      rw [Function.update_self, hocc]
      exact h.place_iff t' f p hp
    · rw [Function.update_of_ne ht, hnest t' ht]
      exact h.place_iff t' f p hp
  · intro t'
    rw [hdoing]
    by_cases ht : t' = t
    · subst ht
      rw [Function.update_self]
      exact hnd
    · rw [Function.update_of_ne ht, hnest t' ht]
      exact h.nodup t'

/-- A step of thread `t` that goes on with the same fiber in the same place. -/
theorem Stacks.stay_current (h : Stacks s) (hdoing : s'.doing = Function.update s.doing t d)
    (hnest : s'.nest = s.nest)
    (hplace : ∀ f p t', p.thread = some t' → (s'.place f = p ↔ s.place f = p))
    (hcur : d.current = (s.doing t).current)
    (hdp : ∀ f ∈ d.current, d.place t = (s.doing t).place t) : Stacks s' := by
  apply h.stay hdoing (fun t' _ => by rw [hnest]) _ hplace
  · intro f
    rw [hnest, Doing.occupies, Doing.occupies, ← hcur]
    split
    · rfl
    · split
      · next hf => rw [hdp f hf]
      · rfl
  · rw [hcur, hnest]
    exact h.nodup t

/-- A step of thread `t` that changes the place of the fiber `f`. -/
theorem Stacks.change (h : Stacks s) {f : F} {p : Place F T M C}
    (hdoing : s'.doing = Function.update s.doing t d)
    (hnest : s'.nest = s.nest) (hplace : s'.place = Function.update s.place f p)
    (hnd : (d.current ++ s.nest t).Nodup)
    (hf : ∀ t', (s.place f).thread = some t' → t' = t)
    (hp : ∀ t', p.thread = some t' → t' = t)
    (hother : ∀ g, g ≠ f → d.occupies t (s.nest t) g = (s.doing t).occupies t (s.nest t) g)
    (hthis : ∀ q, q.thread = some t → (p = q ↔ d.occupies t (s.nest t) f = some q)) :
    Stacks s' := by
  constructor
  · intro t' g q hq
    rw [hplace, hdoing, hnest]
    by_cases ht : t' = t
    · subst ht
      rw [Function.update_self]
      by_cases hg : g = f
      · subst hg
        rw [Function.update_self]
        exact hthis q hq
      · rw [Function.update_of_ne hg, hother g hg]
        exact h.place_iff t' g q hq
    · rw [Function.update_of_ne ht]
      by_cases hg : g = f
      · subst hg
        rw [Function.update_self, ← h.place_iff t' g q hq]
        constructor
        · rintro rfl
          exact absurd (hp t' hq) ht
        · rintro rfl
          exact absurd (hf t' hq) ht
      · rw [Function.update_of_ne hg]
        exact h.place_iff t' g q hq
  · intro t'
    rw [hdoing, hnest]
    by_cases ht : t' = t
    · subst ht
      rw [Function.update_self]
      exact hnd
    · rw [Function.update_of_ne ht]
      exact h.nodup t'

/-- The fiber that thread `t` runs or has in its hands leaves the thread. -/
theorem Stacks.leave (h : Stacks s) {f : F} {p : Place F T M C}
    (hdoing : s'.doing = Function.update s.doing t d)
    (hnest : s'.nest = s.nest) (hplace : s'.place = Function.update s.place f p)
    (hcur : (s.doing t).current = [f]) (hd : d.current = []) (hp : p.thread = none) :
    Stacks s' := by
  have hnd := h.nodup t
  have hfc : f ∈ (s.doing t).current := by simp [hcur]
  have hfn := not_nested hnd hfc
  apply h.change hdoing hnest hplace
  · rw [hd]
    exact (List.nodup_append.mp hnd).2.1
  · intro t' ht'
    rw [h.current hfc, Doing.thread_place hfc] at ht'
    exact (Option.some.inj ht').symm
  · intro t' ht'
    rw [hp] at ht'
    exact absurd ht' (by simp)
  · intro g hg
    simp [Doing.occupies, hcur, hd, hg]
  · intro q hq
    rw [Doing.occupies, if_neg hfn, hd]
    constructor
    · rintro rfl
      rw [hp] at hq
      exact absurd hq (by simp)
    · intro hn
      simp at hn

/-- The fiber that thread `t` runs stays with the thread in another place. -/
theorem Stacks.shift (h : Stacks s) {f : F} {p : Place F T M C}
    (hdoing : s'.doing = Function.update s.doing t d)
    (hnest : s'.nest = s.nest) (hplace : s'.place = Function.update s.place f p)
    (hcur : (s.doing t).current = [f]) (hd : d.current = [f]) (hdp : d.place t = p) :
    Stacks s' := by
  have hnd := h.nodup t
  have hfc : f ∈ (s.doing t).current := by simp [hcur]
  have hfn := not_nested hnd hfc
  have hp : p.thread = some t := by
    rw [← hdp]
    exact Doing.thread_place (f := f) (by simp [hd])
  apply h.change hdoing hnest hplace
  · rw [hd, ← hcur]
    exact hnd
  · intro t' ht'
    rw [h.current hfc, Doing.thread_place hfc] at ht'
    exact (Option.some.inj ht').symm
  · intro t' ht'
    rw [hp] at ht'
    exact (Option.some.inj ht').symm
  · intro g hg
    simp [Doing.occupies, hcur, hd, hg]
  · intro q _
    rw [Doing.occupies, if_neg hfn, hd, if_pos (by simp), hdp, Option.some.injEq]

end Stacks

/-! ## The invariant -/

/-- Events and life agree with where the fibers are. -/
structure Books (s : WakeState F T M C) : Prop where
  events : ∀ f, s.events f = if s.place f = .external then 1 else 0
  off : ∀ f, s.place f = .off ↔ s.life f = .unstarted ∨ s.life f = .finished
  exiting : ∀ f, (∃ t, s.place f = .exiting t) ↔ s.life f = .ended

/-- The wake lists are `L`. -/
structure Lists (s : WakeState F T M C) (L : WakeList F T M C → List F) : Prop where
  family : Family s.nextWake s.head (fun f => (s.place f).list) L
  tail : ∀ m, s.tail m = (L (.mutex m)).getLast?

/-- Nobody is left on a list that is not looked at again. -/
structure Drained (s : WakeState F T M C) : Prop where
  idle : ∀ t, s.doing t = .idle → s.head (.thread t) = none ∧ s.nest t = []
  releasing : ∀ t m, (s.doing t).releasing = some m → s.head (.mutex m) = none
  free : ∀ m, s.owner m = none → s.head (.mutex m) = none

structure WakeInv [Fintype T] (s : WakeState F T M C) : Prop where
  account : Account s
  holds : Holds s
  onStacks : Stacks s
  books : Books s
  lists : ∃ L, Lists s L
  drained : Drained s

section Listed

omit [DecidableEq F] [DecidableEq T] [DecidableEq M] [DecidableEq C] in
theorem Place.of_list {p : Place F T M C} {i : WakeList F T M C} (h : p.list = some i) :
    p = .listed i ∨ ∃ t, p = .switching t i := by
  cases p with
  | listed j =>
    left
    rw [Option.some.inj h]
  | switching t j =>
    right
    exact ⟨t, by rw [Option.some.inj h]⟩
  | off => exact absurd h (by simp [Place.list])
  | executing t => exact absurd h (by simp [Place.list])
  | registering t => exact absurd h (by simp [Place.list])
  | external => exact absurd h (by simp [Place.list])
  | exiting t => exact absurd h (by simp [Place.list])

omit [DecidableEq F] [DecidableEq T] [DecidableEq M] [DecidableEq C] in
theorem FiberStep.of_place {f : F} {at_ : FiberStep F M C} {i : WakeList F T M C}
    (h : at_.place t f = .switching t i) :
    (∃ c, at_ = .switchMutex c ∧ i = .mutex (c.mutex f)) ∨
      ∃ k, at_ = .switchCond k ∧ i = .cond k := by
  cases at_ <;> simp [FiberStep.place] at h
  case switchMutex c => exact .inl ⟨c, rfl, h.symm⟩
  case switchCond k => exact .inr ⟨k, rfl, h.symm⟩

omit [DecidableEq T] [DecidableEq M] [DecidableEq C]

/-- A fiber on a thread's list has switched. -/
theorem Stacks.listed_thread (h : Stacks s) {f : F} (hf : (s.place f).list = some (.thread t)) :
    s.place f = .listed (.thread t) := by
  rcases Place.of_list hf with hp | ⟨t', hp⟩
  · exact hp
  · obtain ⟨at_, -, hat⟩ := h.of_switching hp
    rcases FiberStep.of_place hat with ⟨c, -, hi⟩ | ⟨k, -, hi⟩
    · exact absurd hi (by simp)
    · exact absurd hi (by simp)

/-- While another fiber holds the mutex of a condition, the fibers on the list of the condition
have switched. -/
theorem Stacks.listed_cond (h : Stacks s) (hh : Holds s) {f g : F} {k : CondId F M C}
    {at_ : FiberStep F M C} (ht : s.doing t = .running f at_) (hat : ∀ k, at_ ≠ .switchCond k)
    (ho : s.owner k.mutex = some (.fiber f)) (hg : (s.place g).list = some (.cond k)) :
    s.place g = .listed (.cond k) := by
  rcases Place.of_list hg with hp | ⟨t', hp⟩
  · exact hp
  · obtain ⟨at_', ht', hat'⟩ := h.of_switching hp
    rcases FiberStep.of_place hat' with ⟨c, -, hi⟩ | ⟨k', hk', hi⟩
    · exact absurd hi (by simp)
    · -- it would hold the mutex itself
      have hkk : k' = k := by simpa using hi.symm
      subst hk' hkk
      have ho' : s.owner k'.mutex = some (.fiber g) := hh t' _ _ (by rw [ht']; rfl)
      have hgf : g = f := by
        rw [ho] at ho'
        simpa using ho'.symm
      subst hgf
      have htt := h.thread_unique ht ht'
      subst htt
      rw [ht] at ht'
      simp only [Doing.running.injEq, true_and] at ht'
      exact absurd ht' (hat k')

/-- While the list of a mutex belongs to another thread, the fibers on it have switched. -/
theorem Stacks.listed_mutex [Fintype T] [DecidableEq M] (h : Stacks s) (hac : Account s) {g : F}
    {m : MutexId F M} (ht : (s.doing t).access = some m)
    (hat : ∀ f c, s.doing t ≠ .running f (.switchMutex c))
    (hg : (s.place g).list = some (.mutex m)) : s.place g = .listed (.mutex m) := by
  rcases Place.of_list hg with hp | ⟨t', hp⟩
  · exact hp
  · obtain ⟨at_', ht', hat'⟩ := h.of_switching hp
    rcases FiberStep.of_place hat' with ⟨c, hc, hi⟩ | ⟨k', -, hi⟩
    · have hm : m = c.mutex g := by simpa using hi
      have htt : t' = t := by
        apply hac.alone m t' t _ ht
        rw [ht', hc, hm]
        rfl
      rw [htt, hc] at ht'
      exact absurd ht' (hat g c)
    · exact absurd hi (by simp)

end Listed

/-! ## Each step keeps the stacks -/

section Stacks

omit [DecidableEq F] [DecidableEq T] [DecidableEq M] [DecidableEq C] in
theorem Place.ne_listed {p : Place F T M C} {i : WakeList F T M C} (hp : p.thread = some t) :
    p ≠ .listed i := by
  rintro rfl
  exact absurd hp (by simp [Place.thread])

theorem splice_place_iff {i : WakeList F T M C} {l f : F} {p : Place F T M C} {t' : T}
    (hp : p.thread = some t') : (s.spliceList i t l).place f = p ↔ s.place f = p := by
  show (if s.place f = .listed i then _ else s.place f) = p ↔ _
  by_cases hf : s.place f = .listed i
  · rw [if_pos hf, hf]
    exact ⟨fun h => absurd h.symm (Place.ne_listed hp), fun h => absurd h.symm (Place.ne_listed hp)⟩
  · rw [if_neg hf]

theorem notifyAll_place_iff {k : CondId F M C} {n : ℕ} {f : F} {p : Place F T M C} {t' : T}
    (hp : p.thread = some t') : (s.condNotifyAll t k n).place f = p ↔ s.place f = p := by
  unfold WakeState.condNotifyAll
  split
  · rfl
  · split
    · rfl
    · exact splice_place_iff hp

theorem wakeSleepers_place_iff {m : MutexId F M} {f : F} {p : Place F T M C} {t' : T}
    (hp : p.thread = some t') : (s.wakeSleepers t m).place f = p ↔ s.place f = p := by
  unfold WakeState.wakeSleepers
  split
  · next last _ _ => exact splice_place_iff (l := last) hp
  · rfl

omit [DecidableEq T] [DecidableEq M] [DecidableEq C] in
/-- A fiber that goes from a place off the threads to another one. -/
theorem update_place_iff {place : F → Place F T M C} {f g : F} {p q r : Place F T M C} {t' : T}
    (hf : place f = r) (hr : r.thread = none) (hp : p.thread = none) (hq : q.thread = some t') :
    Function.update place f p g = q ↔ place g = q := by
  by_cases hg : g = f
  · subst hg
    rw [Function.update_self, hf]
    constructor
    · rintro rfl
      rw [hp] at hq
      exact absurd hq (by simp)
    · rintro rfl
      rw [hr] at hq
      exact absurd hq (by simp)
  · rw [Function.update_of_ne hg]

theorem condPush_place (t : T) (k : CondId F M C) (f : F) (n : ℕ) :
    (s.condPush t k f n).place = Function.update s.place f (.switching t (.cond k)) := by
  unfold WakeState.condPush
  split
  · rfl
  · dsimp only
    split <;> rfl

omit [DecidableEq F] [DecidableEq T] [DecidableEq M] [DecidableEq C] in
theorem Enters.place_eq {f : F} {at_ at_' : FiberStep F M C} (h : Enters s f at_ at_') (t : T) :
    at_'.place t f = at_.place t f := by
  cases h <;> rfl

omit [DecidableEq F] [DecidableEq T] [DecidableEq M] [DecidableEq C] in
theorem place_locked (t : T) (f : F) (c : Call F M) :
    (c.locked : FiberStep F M C).place t f = .executing t := by
  cases c <;> rfl

omit [DecidableEq F] [DecidableEq T] [DecidableEq M] [DecidableEq C] in
theorem place_unlocked (t : T) (f : F) (c : Call F M) :
    (c.unlocked : FiberStep F M C).place t f = .executing t := by
  cases c <;> rfl

omit [DecidableEq F] [DecidableEq T] [DecidableEq M] [DecidableEq C] in
theorem place_resumeStep (t : T) (f : F) (x : Option (Call F M)) :
    (resumeStep x : FiberStep F M C).place t f = .executing t := by
  cases x <;> rfl

omit [DecidableEq M] [DecidableEq C] in
/-- A step of thread `t` that changes no place and goes on with the same fiber. -/
theorem Stacks.walkOn (h : Stacks s) {f : F} {at_ at_' : FiberStep F M C}
    (ht : s.doing t = .running f at_)
    (hdoing : s'.doing = Function.update s.doing t (.running f at_'))
    (hnest : s'.nest = s.nest)
    (hplace : ∀ f p t', p.thread = some t' → (s'.place f = p ↔ s.place f = p))
    (hat : at_'.place t f = at_.place t f) : Stacks s' := by
  apply h.stay_current hdoing hnest hplace
  · rw [ht]
    rfl
  · intro _ _
    rw [ht]
    exact hat

omit [DecidableEq M] [DecidableEq C] in
/-- A step of thread `t` that changes no place and has no fiber in its hands. -/
theorem Stacks.walkFree (h : Stacks s) (ht : (s.doing t).current = [])
    (hdoing : s'.doing = Function.update s.doing t d) (hnest : s'.nest = s.nest)
    (hplace : ∀ f p t', p.thread = some t' → (s'.place f = p ↔ s.place f = p))
    (hd : d.current = []) : Stacks s' := by
  apply h.stay_current hdoing hnest hplace
  · rw [ht, hd]
  · intro f hf
    rw [hd] at hf
    exact absurd hf (by simp)

theorem Stacks.step [Fintype T] (hinv : WakeInv s) (hm : Moves s t s') : Stacks s' := by
  have h := hinv.onStacks
  obtain ⟨L, hL⟩ := hinv.lists
  cases hm with
  | fire f ht hf =>
    have hp : s.place f = .external := by
      by_contra hp
      rw [hinv.books.events f, if_neg hp] at hf
      exact hf rfl
    refine h.walkFree (by rw [ht]; rfl) rfl rfl ?_ rfl
    intro g q t' hq
    exact update_place_iff hp rfl rfl hq
  | start f ht hf =>
    have hp : s.place f = .off := (hinv.books.off f).mpr (.inl hf)
    refine h.stay rfl (fun t' ht' => by simp [ht']) ?_ ?_ ?_
    · simpa [Doing.current] using h.nodup t
    · intro g q t' hq
      exact update_place_iff hp rfl rfl hq
    · -- a fiber that starts another one stays where it is, as a parent
      intro g
      rcases ht with ht | ⟨g', ht⟩
      · simp [Doing.occupies, ht, Doing.current]
      · by_cases hg : g = g'
        · simp [Doing.occupies, ht, Doing.current, hg, Doing.place, FiberStep.place]
        · simp [Doing.occupies, ht, Doing.current, hg]
  | resume f ht hw =>
    have hf : s.place f = .listed (.thread t) :=
      h.listed_thread (hL.family.onList_iff.mp ⟨[], s.nextWake f, hw, rfl⟩)
    have hfn : f ∉ s.nest t := by
      intro hn
      rw [h.nested hn] at hf
      exact absurd hf (by simp)
    refine h.change (f := f) rfl rfl rfl ?_ ?_ ?_ ?_ ?_
    · exact List.nodup_cons.mpr ⟨hfn, (List.nodup_append.mp (h.nodup t)).2.1⟩
    · intro t' ht'
      rw [hf] at ht'
      exact absurd ht' (by simp [Place.thread])
    · intro t' ht'
      exact (Option.some.inj ht').symm
    · intro g hg
      simp [Doing.occupies, ht, Doing.current, hg]
    · intro q _
      simp [Doing.occupies, Doing.current, hfn, Doing.place, place_resumeStep]
  | returnIdle ht hw hn => exact h.walkFree (by rw [ht]; rfl) rfl rfl (fun _ _ _ _ => Iff.rfl) rfl
  | returnTo g nest ht hn =>
    have hnd := h.nodup t
    rw [hn] at hnd
    refine h.stay rfl (fun t' ht' => by simp [ht']) ?_ (fun _ _ _ _ => Iff.rfl) ?_
    · simpa [Doing.current, ht] using hnd
    · intro f
      by_cases hf : f ∈ nest
      · simp [Doing.occupies, hn, hf]
      · by_cases hg : f = g
        · simp [Doing.occupies, hn, Doing.current, hg, Doing.place, FiberStep.place]
        · simp [Doing.occupies, hn, Doing.current, hf, hg, ht]
  | enter f at_ at_' ht hat =>
    exact h.walkOn ht rfl rfl (fun _ _ _ _ => Iff.rfl) (hat.place_eq t)
  | notifyOne f m c ht ho =>
    have hl := listWork_notifyOne s t (.user m c)
    refine h.walkOn ht (by rw [hl.doing, ← ht, Function.update_eq_self]) hl.nest ?_ rfl
    intro g q t' hq
    unfold WakeState.condNotifyOne
    split
    · exact Iff.rfl
    · next first hw =>
      have hf := h.listed_cond hinv.holds (k := .user m c) ht (by simp) ho
        (hL.family.onList_iff.mp ⟨[], s.nextWake first, hw, rfl⟩)
      exact update_place_iff hf rfl rfl hq
  | notifyAll f m c n ht ho hw =>
    have hl := listWork_notifyAll s t (.user m c) n
    exact h.walkOn ht (by rw [hl.doing, ← ht, Function.update_eq_self]) hl.nest
      (fun _ _ _ => notifyAll_place_iff) rfl
  | acquire f c ht hs =>
    exact h.walkOn ht rfl rfl (fun _ _ _ _ => Iff.rfl) (place_locked t f c)
  | sleep f c ht hs => exact h.walkOn ht rfl rfl (fun _ _ _ _ => Iff.rfl) rfl
  | contend f c ht hs => exact h.walkOn ht rfl rfl (fun _ _ _ _ => Iff.rfl) rfl
  | backOff f c ht => exact h.walkOn ht rfl rfl (fun _ _ _ _ => Iff.rfl) rfl
  | push f c ht => exact h.shift rfl rfl rfl (by rw [ht]; rfl) rfl rfl
  | condPush f k n ht hw =>
    have hl := listWork_condPush s t k f n
    exact h.shift (hl.setDoing t _) hl.nest (condPush_place t k f n) (by rw [ht]; rfl) rfl rfl
  | exitNotify f n ht hw =>
    have hl := listWork_notifyAll { s with running := Function.update s.running f false } t
      (.stop f) n
    exact h.walkOn ht (hl.setDoing t _) hl.nest (fun _ _ _ => notifyAll_place_iff) rfl
  | grab k m hk ht hs =>
    cases hk with
    | fiber f c => exact h.walkOn ht rfl rfl (fun _ _ _ _ => Iff.rfl) rfl
    | parent f m => exact h.walkFree (by rw [ht]; rfl) rfl rfl (fun _ _ _ _ => Iff.rfl) rfl
  | wake k m hk ht =>
    have hl := listWork_wakeSleepers s t m
    cases hk with
    | fiber f c =>
      exact h.walkOn ht (hl.setDoing t _) hl.nest (fun _ _ _ => wakeSleepers_place_iff) rfl
    | parent f m =>
      exact h.walkFree (by rw [ht]; rfl) (hl.setDoing t _) hl.nest
        (fun _ _ _ => wakeSleepers_place_iff) rfl
  | release f c joined ht hs hj =>
    exact h.walkOn ht rfl rfl (fun _ _ _ _ => Iff.rfl) (place_unlocked t f c)
  | releaseParent f m ht hs =>
    exact h.walkFree (by rw [ht]; rfl) rfl rfl (fun _ _ _ _ => Iff.rfl) rfl
  | switchMutex f c ht => exact h.leave rfl rfl rfl (by rw [ht]; rfl) rfl rfl
  | switchCond f k ht => exact h.leave rfl rfl rfl (by rw [ht]; rfl) rfl rfl
  | switchExternal f ht => exact h.shift rfl rfl rfl (by rw [ht]; rfl) rfl rfl
  | switchExit f ht => exact h.shift rfl rfl rfl (by rw [ht]; rfl) rfl rfl
  | decrement f m ht => exact h.walkFree (by rw [ht]; rfl) rfl rfl (fun _ _ _ _ => Iff.rfl) rfl
  | register f ht => exact h.leave rfl rfl rfl (by rw [ht]; rfl) rfl rfl
  | exit f ht => exact h.leave rfl rfl rfl (by rw [ht]; rfl) rfl rfl

end Stacks

/-! ## Each step keeps the books -/

/-- The place of a live fiber that no event is registered for. -/
def Place.quiet : Place F T M C → Prop
  | .executing _ | .switching _ _ | .listed _ | .registering _ => True
  | .off | .external | .exiting _ => False

section Books

omit [DecidableEq F] [DecidableEq T] [DecidableEq M] [DecidableEq C] in
theorem Place.quiet_ne {p : Place F T M C} (h : p.quiet) :
    p ≠ .off ∧ p ≠ .external ∧ ∀ t, p ≠ .exiting t := by
  refine ⟨?_, ?_, fun t => ?_⟩
  · rintro rfl
    exact h
  · rintro rfl
    exact h
  · rintro rfl
    exact h

omit [DecidableEq F] [DecidableEq T] [DecidableEq M] [DecidableEq C] in
theorem FiberStep.quiet_place (t : T) (f : F) (at_ : FiberStep F M C) :
    (at_.place t f).quiet := by
  cases at_ <;> trivial

/-- A step that does not touch the books. -/
theorem Books.stay (h : Books s) (hevents : s'.events = s.events) (hlife : s'.life = s.life)
    (hplace : ∀ f, s'.place f = s.place f ∨ (s.place f).quiet ∧ (s'.place f).quiet) :
    Books s' := by
  constructor
  · intro f
    rw [hevents, h.events f]
    rcases hplace f with hp | ⟨hq, hq'⟩
    · rw [hp]
    · rw [if_neg (Place.quiet_ne hq).2.1, if_neg (Place.quiet_ne hq').2.1]
  · intro f
    rw [hlife, ← h.off f]
    rcases hplace f with hp | ⟨hq, hq'⟩
    · rw [hp]
    · simp [(Place.quiet_ne hq).1, (Place.quiet_ne hq').1]
  · intro f
    rw [hlife, ← h.exiting f]
    rcases hplace f with hp | ⟨hq, hq'⟩
    · rw [hp]
    · simp [(Place.quiet_ne hq).2.2, (Place.quiet_ne hq').2.2]

/-- A step that moves one fiber between quiet places. -/
theorem Books.quiet_change (h : Books s) {f : F} {p : Place F T M C}
    (hevents : s'.events = s.events) (hlife : s'.life = s.life)
    (hplace : s'.place = Function.update s.place f p) (hf : (s.place f).quiet) (hp : p.quiet) :
    Books s' := by
  apply h.stay hevents hlife
  intro g
  rw [hplace]
  by_cases hg : g = f
  · subst hg
    rw [Function.update_self]
    exact .inr ⟨hf, hp⟩
  · rw [Function.update_of_ne hg]
    exact .inl rfl

/-- A step that writes the books of one fiber. -/
theorem Books.change (h : Books s) {f : F} {p : Place F T M C}
    (hplace : s'.place = Function.update s.place f p)
    (hevents : ∀ g, g ≠ f → s'.events g = s.events g)
    (hlife : ∀ g, g ≠ f → s'.life g = s.life g)
    (he : s'.events f = if p = .external then 1 else 0)
    (ho : p = .off ↔ s'.life f = .unstarted ∨ s'.life f = .finished)
    (hx : (∃ t, p = .exiting t) ↔ s'.life f = .ended) : Books s' := by
  constructor
  · intro g
    rw [hplace]
    by_cases hg : g = f
    · subst hg
      rw [Function.update_self]
      exact he
    · rw [Function.update_of_ne hg, hevents g hg]
      exact h.events g
  · intro g
    rw [hplace]
    by_cases hg : g = f
    · subst hg
      rw [Function.update_self]
      exact ho
    · rw [Function.update_of_ne hg, hlife g hg]
      exact h.off g
  · intro g
    rw [hplace]
    by_cases hg : g = f
    · subst hg
      rw [Function.update_self]
      exact hx
    · rw [Function.update_of_ne hg, hlife g hg]
      exact h.exiting g

/-- A fiber that is neither off nor exiting is live. -/
theorem Books.live (h : Books s) {f : F} (ho : s.place f ≠ .off)
    (hx : ∀ t, s.place f ≠ .exiting t) : s.life f = .live := by
  cases hl : s.life f with
  | live => rfl
  | unstarted => exact absurd ((h.off f).mpr (.inl hl)) ho
  | finished => exact absurd ((h.off f).mpr (.inr hl)) ho
  | ended =>
    obtain ⟨t, ht⟩ := (h.exiting f).mpr hl
    exact absurd ht (hx t)

theorem splice_quiet (i : WakeList F T M C) (t : T) (l f : F) :
    (s.spliceList i t l).place f = s.place f ∨
      (s.place f).quiet ∧ ((s.spliceList i t l).place f).quiet := by
  show (if s.place f = .listed i then _ else s.place f) = _ ∨
    _ ∧ (if s.place f = .listed i then _ else s.place f).quiet
  by_cases hf : s.place f = .listed i
  · right
    rw [if_pos hf, hf]
    exact ⟨trivial, trivial⟩
  · left
    rw [if_neg hf]

theorem notifyAll_quiet (t : T) (k : CondId F M C) (n : ℕ) (f : F) :
    (s.condNotifyAll t k n).place f = s.place f ∨
      (s.place f).quiet ∧ ((s.condNotifyAll t k n).place f).quiet := by
  unfold WakeState.condNotifyAll
  split
  · exact .inl rfl
  · split
    · exact .inl rfl
    · exact splice_quiet _ t _ f

theorem wakeSleepers_quiet (t : T) (m : MutexId F M) (f : F) :
    (s.wakeSleepers t m).place f = s.place f ∨
      (s.place f).quiet ∧ ((s.wakeSleepers t m).place f).quiet := by
  unfold WakeState.wakeSleepers
  split
  · next last _ _ => exact splice_quiet _ t last f
  · exact .inl rfl

theorem Books.step [Fintype T] (hinv : WakeInv s) (hm : Moves s t s') : Books s' := by
  have h := hinv.books
  have hst := hinv.onStacks
  obtain ⟨L, hL⟩ := hinv.lists
  -- a fiber that runs is at a quiet place
  have hrun : ∀ {f : F} {at_ : FiberStep F M C}, s.doing t = .running f at_ →
      (s.place f).quiet := by
    intro f at_ ht
    rw [hst.running ht]
    exact FiberStep.quiet_place t f at_
  have hnone : ∀ {f : F}, (s.place f).quiet → s.events f = 0 := by
    intro f hf
    rw [h.events f, if_neg (Place.quiet_ne hf).2.1]
  cases hm with
  | fire f ht hf =>
    have hp : s.place f = .external := by
      by_contra hp
      rw [h.events f, if_neg hp] at hf
      exact hf rfl
    have hlive : s.life f = .live := h.live (by simp [hp]) (by simp [hp])
    have hev : s.events f = 1 := by rw [h.events f, if_pos hp]
    exact h.change rfl (fun g hg => by simp [hg]) (fun g hg => rfl) (by simp [hev])
      (by simp [hlive]) (by simp [hlive])
  | start f ht hf =>
    have hp : s.place f = .off := (h.off f).mpr (.inl hf)
    have hev : s.events f = 0 := by rw [h.events f, hp, if_neg (by simp)]
    exact h.change rfl (fun g hg => rfl) (fun g hg => by simp [hg]) (by simp [hev])
      (by simp) (by simp)
  | resume f ht hw =>
    have hf : s.place f = .listed (.thread t) :=
      hst.listed_thread (hL.family.onList_iff.mp ⟨[], s.nextWake f, hw, rfl⟩)
    exact h.quiet_change rfl rfl rfl (by rw [hf]; trivial) trivial
  | returnIdle ht hw hn => exact h.stay rfl rfl fun _ => .inl rfl
  | returnTo g nest ht hn => exact h.stay rfl rfl fun _ => .inl rfl
  | enter f at_ at_' ht hat => exact h.stay rfl rfl fun _ => .inl rfl
  | notifyOne f m c ht ho =>
    have hl := listWork_notifyOne s t (.user m c)
    apply h.stay hl.events hl.life
    intro g
    unfold WakeState.condNotifyOne
    split
    · exact .inl rfl
    · next first hw =>
      have hf := hst.listed_cond hinv.holds (k := .user m c) ht (by simp) ho
        (hL.family.onList_iff.mp ⟨[], s.nextWake first, hw, rfl⟩)
      by_cases hg : g = first
      · right
        subst hg
        simp [hf, Place.quiet]
      · left
        simp [hg]
  | notifyAll f m c n ht ho hw =>
    have hl := listWork_notifyAll s t (.user m c) n
    exact h.stay hl.events hl.life (notifyAll_quiet t _ n)
  | acquire f c ht hs => exact h.stay rfl rfl fun _ => .inl rfl
  | sleep f c ht hs => exact h.stay rfl rfl fun _ => .inl rfl
  | contend f c ht hs => exact h.stay rfl rfl fun _ => .inl rfl
  | backOff f c ht => exact h.stay rfl rfl fun _ => .inl rfl
  | push f c ht => exact h.quiet_change rfl rfl rfl (hrun ht) trivial
  | condPush f k n ht hw =>
    have hl := listWork_condPush s t k f n
    exact h.quiet_change hl.events hl.life (condPush_place t k f n) (hrun ht) trivial
  | exitNotify f n ht hw =>
    have hl := listWork_notifyAll { s with running := Function.update s.running f false } t
      (.stop f) n
    exact h.stay hl.events hl.life (notifyAll_quiet t _ n)
  | grab k m hk ht hs => exact h.stay rfl rfl fun _ => .inl rfl
  | wake k m hk ht =>
    have hl := listWork_wakeSleepers s t m
    exact h.stay hl.events hl.life (wakeSleepers_quiet t m)
  | release f c joined ht hs hj => exact h.stay rfl rfl fun _ => .inl rfl
  | releaseParent f m ht hs => exact h.stay rfl rfl fun _ => .inl rfl
  | switchMutex f c ht => exact h.quiet_change rfl rfl rfl (hrun ht) trivial
  | switchCond f k ht => exact h.quiet_change rfl rfl rfl (hrun ht) trivial
  | switchExternal f ht => exact h.quiet_change rfl rfl rfl (hrun ht) trivial
  | switchExit f ht =>
    exact h.change rfl (fun g hg => rfl) (fun g hg => by simp [hg]) (by simp [hnone (hrun ht)])
      (by simp) (by simp)
  | decrement f m ht => exact h.stay rfl rfl fun _ => .inl rfl
  | register f ht =>
    have hp : s.place f = .registering t := by
      rw [hst.current (t := t) (f := f) (by simp [ht, Doing.current]), ht]
      rfl
    have hq : (s.place f).quiet := by rw [hp]; trivial
    have hlive : s.life f = .live := h.live (by simp [hp]) (by simp [hp])
    exact h.change rfl (fun g hg => by simp [hg]) (fun g hg => rfl) (by simp [hnone hq])
      (by simp [hlive]) (by simp [hlive])
  | exit f ht =>
    have hp : s.place f = .exiting t := by
      rw [hst.current (t := t) (f := f) (by simp [ht, Doing.current]), ht]
      rfl
    have hev : s.events f = 0 := by rw [h.events f, hp, if_neg (by simp)]
    exact h.change rfl (fun g hg => rfl) (fun g hg => by simp [hg]) (by simp [hev])
      (by simp) (by simp)

end Books

end Anon.Fiber.Wake
