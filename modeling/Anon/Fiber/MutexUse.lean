import Anon.Fiber.WakeListsTheorems

/-!
# Fibers that use one mutex by the rules

A fiber takes a mutex of the program, works while it holds it, perhaps waits on a condition, and
gives it back. `Phase` says where a fiber is in this, and `PhaseInv` that what the threads execute
agrees with it: a fiber in `lock` or in `wait` comes back as the holder, and a fiber that does not
use the mutex is nowhere near it.

* `PhaseInv.step`: any step in which a fiber that runs code of its own does not use the mutex.
* `PhaseInv.change`: a fiber goes on to its next phase.
-/

namespace Anon.Fiber.Wake

open WakeState

variable {F T M C : Type}

/-- The step is on the way to holding the mutex. -/
def FiberStep.waits (mtx : M) : FiberStep F M C → Prop
  | .lock c | .backOff c | .push c | .switchMutex c => c = .user mtx
  | .condPush k | .switchCond k => k.mutex = .user mtx
  | _ => False

/-- The step is in `unlock` of the mutex. -/
def FiberStep.releases (mtx : M) : FiberStep F M C → Prop
  | .unlock c _ => c = .user mtx
  | _ => False

/-- What a fiber is doing about a mutex. -/
inductive Phase
  /-- It does not use it. -/
  | free
  /-- It is in `lock` or `wait`, and it holds the mutex when that has returned. -/
  | locking
  /-- It holds it, and is in code of its own. -/
  | holding
  /-- It is in `unlock`, or that has returned. -/
  | unlocking
  /-- It is in `unlock`, or does not use the mutex any more. -/
  | done
  deriving DecidableEq

/-- The fiber may do what it likes with other mutexes. -/
def Phase.roams : Phase → Prop
  | .free | .done => True
  | _ => False

/-- What a fiber in the phase can be executing. -/
def Phase.fits (mtx : M) : Phase → FiberStep F M C → Prop
  | .free, at_ => ¬at_.uses mtx
  | .locking, at_ => at_ = .user ∨ at_.waits mtx
  | .holding, at_ => at_ = .user
  | .unlocking, at_ => at_ = .user ∨ at_.releases mtx
  | .done, at_ => at_.releases mtx ∨ ¬at_.uses mtx

/-- A fiber that is back in code of its own holds the mutex. -/
def Phase.holds : Phase → Prop
  | .locking | .holding => True
  | _ => False

/-- Where the fibers and threads are agrees with the phases of the fibers. -/
structure PhaseInv (mtx : M) (s : WakeState F T M C) (phase : F → Phase) : Prop where
  running : ∀ t f at_, s.doing t = .running f at_ → (phase f).fits mtx at_
  nested : ∀ t, ∀ f ∈ s.nest t, (phase f).roams
  suspended : ∀ f, s.suspended f →
    phase f = .locking ∧ s.context f = some (.user mtx) ∨
      (phase f).roams ∧ s.context f ≠ some (.user mtx)
  idle : ∀ f, s.life f ≠ .live → (phase f).roams
  owner : ∀ t f, s.doing t = .running f .user → (phase f).holds →
    s.owner (.user mtx) = some (.fiber f)
  handled : ∀ t f, s.doing t = .handle f (.mutexSuspend (.user mtx)) →
    phase f = .locking ∧ s.place f = .listed (.mutex (.user mtx))
  waited : ∀ t f u, s.doing t = .handle f (.condWait (.user mtx) u) → ∃ g, phase g = .locking

variable {mtx : M} {s s' : WakeState F T M C} {phase : F → Phase} {t : T} {f : F}
variable {at_ : FiberStep F M C} {p : Phase}

/-! ## Phases and steps -/

theorem FiberStep.uses_iff : at_.uses mtx ↔ at_.waits mtx ∨ at_.releases mtx := by
  cases at_ <;> simp [FiberStep.uses, FiberStep.waits, FiberStep.releases]

/-- A fiber that does not use the mutex roams. -/
theorem Phase.roams_of_fits (h : p.fits mtx at_) (hat : ¬at_.uses mtx) (huser : at_ ≠ .user) :
    p.roams := by
  rw [FiberStep.uses_iff, not_or] at hat
  match p with
  | .free => trivial
  | .locking =>
    obtain h | h := h
    · exact absurd h huser
    · exact absurd h hat.1
  | .holding => exact absurd h huser
  | .unlocking =>
    obtain h | h := h
    · exact absurd h huser
    · exact absurd h hat.2
  | .done => trivial

theorem Phase.fits_of_roams (h : p.roams) (hat : ¬at_.uses mtx) : p.fits mtx at_ := by
  match p with
  | .free => exact hat
  | .done => exact .inr hat

theorem Phase.not_holds_of_roams (h : p.roams) : ¬p.holds := by
  match p with
  | .free => exact fun hno => hno
  | .done => exact fun hno => hno

/-- A fiber on its way to the mutex is locking. -/
theorem Phase.eq_locking (h : p.fits mtx at_) (hat : at_.waits mtx) : p = .locking := by
  have huser : at_ ≠ .user := by
    intro heq
    rw [heq] at hat
    exact hat
  have huses : at_.uses mtx := FiberStep.uses_iff.mpr (.inl hat)
  have hrel : ¬at_.releases mtx := by
    intro hrel
    match at_ with
    | .unlock c u => exact hat
  match p with
  | .free => exact absurd huses h
  | .locking => rfl
  | .holding => exact absurd h huser
  | .unlocking => exact absurd h (not_or.mpr ⟨huser, hrel⟩)
  | .done => exact absurd h (not_or.mpr ⟨hrel, not_not.mpr huses⟩)

/-- A fiber in `unlock` of the mutex is not on its way to it. -/
theorem Phase.not_holds_of_releases (h : p.fits mtx at_) (hat : at_.releases mtx) :
    ¬p.holds ∧ p.fits mtx (.user : FiberStep F M C) := by
  have huser : at_ ≠ .user := by
    intro heq
    rw [heq] at hat
    exact hat
  have hwaits : ¬at_.waits mtx := by
    intro hwaits
    match at_ with
    | .unlock c u => exact hwaits
  match p with
  | .free => exact absurd (FiberStep.uses_iff.mpr (.inr hat)) h
  | .locking => exact absurd h (not_or.mpr ⟨huser, hwaits⟩)
  | .holding => exact absurd h huser
  | .unlocking => exact ⟨fun hno => hno, .inl rfl⟩
  | .done => exact ⟨fun hno => hno, .inr fun hno => hno⟩

theorem Phase.fits_of_releases {at_' : FiberStep F M C} (h : p.fits mtx at_)
    (hat : at_.releases mtx) (hat' : at_'.releases mtx) : p.fits mtx at_' := by
  obtain ⟨hholds, -⟩ := Phase.not_holds_of_releases h hat
  match p with
  | .free => exact absurd (FiberStep.uses_iff.mpr (.inr hat)) h
  | .locking => exact absurd trivial hholds
  | .holding => exact absurd trivial hholds
  | .unlocking => exact .inr hat'
  | .done => exact .inl hat'

/-! ## What a step leaves alone -/

section Moves

variable [DecidableEq F] [DecidableEq T] [DecidableEq M] [DecidableEq C] [Fintype T]

/-- A fiber comes to its end by the last switch only. -/
theorem idle_of_moves (hinv : WakeInv s) (hm : Moves s t s') (h : s'.life f ≠ .live) :
    s.life f ≠ .live ∨ s.doing t = .running f .switchExit := by
  cases hm with
  -- a fiber that is started is live from now on
  | start g ht hg =>
    have h : Function.update s.life g .live f ≠ .live := h
    left
    by_cases heq : f = g
    · rw [heq, Function.update_self] at h
      exact absurd rfl h
    · rwa [Function.update_of_ne heq] at h
  | switchExit g ht =>
    have h : Function.update s.life g .ended f ≠ .live := h
    by_cases heq : f = g
    · right
      rw [heq]
      exact ht
    · left
      rwa [Function.update_of_ne heq] at h
  -- it has been through its last switch
  | exit g ht =>
    have h : Function.update s.life g .finished f ≠ .live := h
    left
    by_cases heq : f = g
    · rw [heq, hinv.life_of_exit ht]
      simp
    · rwa [Function.update_of_ne heq] at h
  | notifyOne g m c ht ho =>
    left
    rwa [(listWork_notifyOne s t (.user m c)).life] at h
  | notifyAll g m c n ht ho hw =>
    left
    rwa [(listWork_notifyAll s t (.user m c) n).life] at h
  | condPush g k n ht hw =>
    left
    rwa [← (listWork_condPush s t k g n).life]
  | exitNotify g n ht hw =>
    left
    have hl := listWork_notifyAll { s with running := Function.update s.running g false } t
      (.stop g) n
    intro hlive
    exact h ((congrFun hl.life f).trans hlive)
  | wake k m hk ht =>
    left
    rwa [← (listWork_wakeSleepers s t m).life]
  | _ => exact .inl h

/-- The holder of a mutex keeps it while it is in code of its own. -/
theorem owner_of_moves (hinv : WakeInv s) (hm : Moves s t s') {m : MutexId F M} {t' : T}
    (ht' : s.doing t' = .running f .user) (hne : t' ≠ t)
    (ho : s.owner m = some (.fiber f)) : s'.owner m = some (.fiber f) := by
  -- whoever gives a mutex away is its holder, and not this fiber
  have hother (at_ : FiberStep F M C) (g : F) (hg : s.doing t = .running g at_) : g ≠ f := by
    intro heq
    rw [heq] at hg
    exact hne (hinv.onStacks.thread_unique ht' hg)
  have hgives (m' : MutexId F M) (p : Party F T)
      (hp : (s.doing t).holding t = some (m', p)) (hpf : p ≠ .fiber f) : m ≠ m' := by
    intro heq
    have hm' := hinv.holds t m' p hp
    rw [← heq, ho] at hm'
    exact hpf (Option.some.inj hm').symm
  cases hm with
  -- a mutex that has an owner is not acquired
  | acquire g c ht hs =>
    have hfree := hinv.account.owner_eq_none hs
    have hne' : m ≠ c.mutex g := by
      intro heq
      rw [heq, hfree] at ho
      exact absurd ho (by simp)
    exact (Function.update_of_ne hne' _ _).trans ho
  | release g c joined ht hs hj =>
    have hne' : m ≠ c.mutex g := by
      apply hgives _ (.fiber g)
      · rw [ht]
        rfl
      · intro heq
        exact hother _ g ht (Party.fiber.inj heq)
    exact (Function.update_of_ne hne' _ _).trans ho
  | releaseParent g m' ht hs =>
    have hne' : m ≠ m' := by
      apply hgives _ (.parent t)
      · rw [ht]
        rfl
      · simp
    exact (Function.update_of_ne hne' _ _).trans ho
  | switchCond g k ht =>
    have hne' : m ≠ k.mutex := by
      apply hgives _ (.fiber g)
      · rw [ht]
        rfl
      · intro heq
        exact hother _ g ht (Party.fiber.inj heq)
    exact (Function.update_of_ne hne' _ _).trans ho
  | notifyOne g m' c ht ho' => rwa [(listWork_notifyOne s t (.user m' c)).owner]
  | notifyAll g m' c n ht ho' hw => rwa [(listWork_notifyAll s t (.user m' c) n).owner]
  | condPush g k n ht hw =>
    exact (congrFun (listWork_condPush s t k g n).owner m).trans ho
  | exitNotify g n ht hw =>
    have hl := listWork_notifyAll { s with running := Function.update s.running g false } t
      (.stop g) n
    exact (congrFun hl.owner m).trans ho
  | wake k m' hk ht => exact (congrFun (listWork_wakeSleepers s t m').owner m).trans ho
  | _ => exact ho

/-- The fiber at the head of a list is on it. -/
theorem WakeInv.list_of_head (hinv : WakeInv s) {i : WakeList F T M C} (h : s.head i = some f) :
    (s.place f).list = some i := by
  obtain ⟨L, hL⟩ := hinv.lists
  obtain ⟨behind, hcons⟩ := (hL.family.seg i).head_cons h
  apply (hL.family.mem i f).mp
  rw [hcons]
  exact List.mem_cons_self

/-- A fiber on the list of a mutex stays there until somebody wakes the fibers of this list. -/
theorem place_of_moves (hinv : WakeInv s) (hm : Moves s t s') {m : MutexId F M}
    (hf : s.place f = .listed (.mutex m)) (hwake : ∀ k, Unlocker k m → s.doing t ≠ k .wake) :
    s'.place f = .listed (.mutex m) := by
  -- a fiber that is somewhere else is another one
  have hother {g : F} {q : Place F T M C} (hg : s.place g = q) (hq : q ≠ .listed (.mutex m)) :
      f ≠ g := by
    intro heq
    rw [heq, hg] at hf
    exact hq hf
  have hrunning {g : F} {at_ : FiberStep F M C} (hg : s.doing t = .running g at_) : f ≠ g :=
    hother (hinv.onStacks.running hg) (Place.ne_listed (FiberStep.thread_place t g at_))
  have hupdate {g : F} (q : Place F T M C) (hne : f ≠ g) :
      Function.update s.place g q f = .listed (.mutex m) := by
    rw [Function.update_of_ne hne]
    exact hf
  have hnotify (s₀ : WakeState F T M C) (hplace : s₀.place = s.place) (k : CondId F M C)
      (n : ℕ) : (s₀.condNotifyAll t k n).place f = .listed (.mutex m) := by
    rw [← hplace] at hf
    unfold WakeState.condNotifyAll
    split
    · exact hf
    · split
      · exact hf
      · show (if s₀.place f = .listed (.cond k) then _ else s₀.place f) = _
        rw [hf, if_neg (by simp)]
  cases hm with
  -- the fiber of an event, a new one and one that is resumed are not on the list
  | fire g ht hg =>
    have hplace : s.place g = .external := by
      by_contra hne
      have hev := hinv.books.events g
      rw [if_neg hne] at hev
      exact hg hev
    exact hupdate _ (hother hplace (by simp))
  | start g ht hg =>
    have hplace : s.place g = .off := (hinv.books.off g).mpr (.inl hg)
    exact hupdate _ (hother hplace (by simp))
  | resume g ht hw =>
    have hplace := hinv.onStacks.listed_thread (hinv.list_of_head hw)
    exact hupdate _ (hother hplace (by simp))
  -- the first fiber on the list of a condition is not on the list of a mutex
  | notifyOne g m' c ht ho =>
    unfold WakeState.condNotifyOne
    split
    · exact hf
    · next first hfirst =>
      have hplace := hinv.list_of_head hfirst
      apply hupdate
      intro heq
      rw [← heq, hf] at hplace
      exact absurd hplace (by simp [Place.list])
  | notifyAll g m' c n ht ho hw => exact hnotify s rfl _ n
  | push g c ht => exact hupdate _ (hrunning ht)
  | condPush g k n ht hw =>
    show (s.condPush t k g n).place f = _
    rw [condPush_place]
    exact hupdate _ (hrunning ht)
  | exitNotify g n ht hw =>
    exact hnotify { s with running := Function.update s.running g false } rfl _ n
  -- by assumption the list that is woken is another one
  | wake k m' hk ht =>
    show (s.wakeSleepers t m').place f = _
    unfold WakeState.wakeSleepers
    split
    · show (if s.place f = .listed (.mutex m') then _ else s.place f) = _
      rw [hf, if_neg]
      intro heq
      have heq : m = m' := by simpa using heq
      exact hwake k (heq ▸ hk) ht
    · exact hf
  | switchMutex g c ht => exact hupdate _ (hrunning ht)
  | switchCond g k ht => exact hupdate _ (hrunning ht)
  | switchExternal g ht => exact hupdate _ (hrunning ht)
  | switchExit g ht => exact hupdate _ (hrunning ht)
  | register g ht =>
    have hplace : s.place g = .registering t := hinv.registering_iff.mp ht
    exact hupdate _ (hother hplace (by simp))
  | exit g ht =>
    have hplace := hinv.onStacks.current (t := t) (f := g) (by simp [ht, Doing.current])
    rw [ht] at hplace
    exact hupdate _ (hother hplace (by simp [Doing.place]))
  | _ => exact hf

omit [Fintype T] in
/-- A step is about what one thread executes. -/
theorem doing_of_moves (hm : Moves s t s') {t' : T} (hne : t' ≠ t) : s'.doing t' = s.doing t' := by
  cases hm with
  | notifyOne g m c ht ho => rw [(listWork_notifyOne s t (.user m c)).doing]
  | notifyAll g m c n ht ho hw => rw [(listWork_notifyAll s t (.user m c) n).doing]
  | condPush g k n ht hw =>
    rw [(listWork_condPush s t k g n).setDoing, Function.update_of_ne hne]
  | exitNotify g n ht hw =>
    rw [(listWork_notifyAll _ t (.stop g) n).setDoing]
    exact Function.update_of_ne hne _ _
  | wake k m hk ht =>
    rw [(listWork_wakeSleepers s t m).setDoing, Function.update_of_ne hne]
  | _ => exact Function.update_of_ne hne _ _

/-- How a fiber that executes `lock`, `unlock`, `wait` or `join` goes on. -/
inductive Advances (mtx : M) (s' : WakeState F T M C) (f : F) :
    FiberStep F M C → FiberStep F M C → Prop
  | apart (at_ at_' : FiberStep F M C) (h : ¬at_.uses mtx) (h' : ¬at_'.uses mtx) :
      Advances mtx s' f at_ at_'
  | waits (at_ at_' : FiberStep F M C) (h : at_.waits mtx) (h' : at_'.waits mtx) :
      Advances mtx s' f at_ at_'
  | acquires (at_ : FiberStep F M C) (h : at_.waits mtx)
      (ho : s'.owner (.user mtx) = some (.fiber f)) : Advances mtx s' f at_ .user
  | releases (at_ at_' : FiberStep F M C) (h : at_.releases mtx) (h' : at_'.releases mtx) :
      Advances mtx s' f at_ at_'
  | released (at_ : FiberStep F M C) (h : at_.releases mtx) : Advances mtx s' f at_ .user

omit [DecidableEq F] [DecidableEq T] [DecidableEq M] [DecidableEq C] [Fintype T] in
/-- Two steps of a fiber on its way to a mutex, this one or another one. -/
theorem Advances.of_waits {at_' : FiberStep F M C} {P : Prop} (h : at_.waits mtx ↔ P)
    (h' : at_'.waits mtx ↔ P) (hr : ¬at_.releases mtx) (hr' : ¬at_'.releases mtx) :
    Advances mtx s' f at_ at_' := by
  by_cases hP : P
  · exact .waits _ _ (h.mpr hP) (h'.mpr hP)
  · apply Advances.apart
    · rw [FiberStep.uses_iff, not_or, h]
      exact ⟨hP, hr⟩
    · rw [FiberStep.uses_iff, not_or, h']
      exact ⟨hP, hr'⟩

omit [DecidableEq F] [DecidableEq T] [DecidableEq M] [DecidableEq C] [Fintype T] in
/-- Two steps of `unlock`. -/
theorem Advances.of_unlock (mtx : M) (c : Call F M) (u u' : UnlockStep) :
    Advances mtx s' f (.unlock c u : FiberStep F M C) (.unlock c u') := by
  by_cases hc : c = .user mtx
  · exact .releases _ _ hc hc
  · exact .apart _ _ hc hc

/-- Where a thread has a fiber from that it runs. -/
inductive Came (mtx : M) (s s' : WakeState F T M C) (t : T) (f : F) :
    FiberStep F M C → Prop
  /-- It was in code of its own. -/
  | user (at_' : FiberStep F M C) (ht : s.doing t = .running f .user) : Came mtx s s' t f at_'
  | advanced (at_ at_' : FiberStep F M C) (ht : s.doing t = .running f at_)
      (h : Advances mtx s' f at_ at_') : Came mtx s s' t f at_'
  | resumed (hs : s.suspended f) : Came mtx s s' t f (resumeStep (s.context f))
  | returned (hn : f ∈ s.nest t) : Came mtx s s' t f .user

theorem came_of_moves (hinv : WakeInv s) (hm : Moves s t s') (mtx : M)
    (h : s'.doing t = .running f at_) : Came mtx s s' t f at_ := by
  -- what the thread executes is what the step says
  have hset {d : Doing F M C} (hd : s'.doing t = d) : d = .running f at_ := hd.symm.trans h
  -- a thread that runs no fiber after the step is not the case here
  have hno (hd : s'.doing t = .idle ∨ s'.doing t = .wakeAll ∨ ∃ g op, s'.doing t = .handle g op) :
      Came mtx s s' t f at_ := by
    rw [h] at hd
    exact absurd hd (by simp)
  have hgoes {g : F} {a a' : FiberStep F M C} (ht : s.doing t = .running g a)
      (hd : s'.doing t = .running g a') (ha : Advances mtx s' g a a') : Came mtx s s' t f at_ := by
    obtain ⟨rfl, rfl⟩ := Doing.running.inj (hset hd)
    exact .advanced a a' ht ha
  have huser {g : F} {a' : FiberStep F M C} (ht : s.doing t = .running g .user)
      (hd : s'.doing t = .running g a') : Came mtx s s' t f at_ := by
    obtain ⟨rfl, rfl⟩ := Doing.running.inj (hset hd)
    exact .user a' ht
  cases hm with
  | fire g ht hg => exact hno (.inr (.inl (Function.update_self ..)))
  | start g ht hg => exact hno (.inr (.inl (Function.update_self ..)))
  -- a fiber on the list of the thread is suspended
  | resume g ht hw =>
    obtain ⟨rfl, rfl⟩ := Doing.running.inj (hset (Function.update_self ..))
    have hplace := hinv.onStacks.listed_thread (hinv.list_of_head hw)
    apply Came.resumed
    apply hinv.suspended
    · rw [hplace]
      rfl
    · rw [hplace]
      simp
  | returnIdle ht hw hn => exact hno (.inl (Function.update_self ..))
  | returnTo g nest ht hn =>
    obtain ⟨rfl, rfl⟩ := Doing.running.inj (hset (Function.update_self ..))
    apply Came.returned
    rw [hn]
    exact List.mem_cons_self
  | enter g a a' ht hat =>
    have hd : (s.setDoing t (.running g a')).doing t = .running g a' := Function.update_self ..
    cases hat with
    | joinWait g' hr =>
      apply hgoes ht hd
      apply Advances.apart
      · exact fun hno => hno
      · simp [FiberStep.uses, CondId.mutex]
    | joinDone g' hr =>
      apply hgoes ht hd
      apply Advances.apart
      · exact fun hno => hno
      · simp [FiberStep.uses]
    | lock m => exact huser ht hd
    | unlock m ho => exact huser ht hd
    | wait m c ho => exact huser ht hd
    | join g' => exact huser ht hd
    | suspend => exact huser ht hd
    | exit => exact huser ht hd
  | notifyOne g m c ht ho =>
    apply huser ht
    rw [(listWork_notifyOne s t (.user m c)).doing]
    exact ht
  | notifyAll g m c n ht ho hw =>
    apply huser ht
    rw [(listWork_notifyAll s t (.user m c) n).doing]
    exact ht
  -- the step with which a fiber gets a mutex, this one or another one
  | acquire g c ht hs =>
    apply hgoes ht (Function.update_self ..)
    by_cases hc : c = .user mtx
    · rw [hc]
      apply Advances.acquires
      · rfl
      · exact Function.update_self ..
    · apply Advances.apart
      · exact hc
      · match c with
        | .user m => exact fun hno => hno
        | .join g' => exact fun hno => hno
        | .exit => exact fun hno => hno
  | sleep g c ht hs | contend g c ht hs | backOff g c ht | push g c ht | condPush g k n ht hw =>
    apply hgoes ht (Function.update_self ..)
    exact .of_waits Iff.rfl Iff.rfl (fun hno => hno) (fun hno => hno)
  | exitNotify g n ht hw =>
    apply hgoes ht (Function.update_self ..)
    apply Advances.apart
    · exact fun hno => hno
    · simp [FiberStep.uses]
  | grab k m hk ht hs =>
    cases hk with
    | fiber g c => exact hgoes ht (Function.update_self ..) (.of_unlock mtx c _ _)
    | parent g m => exact hno (.inr (.inr ⟨g, _, Function.update_self ..⟩))
  | wake k m hk ht =>
    cases hk with
    | fiber g c => exact hgoes ht (Function.update_self ..) (.of_unlock mtx c _ _)
    | parent g m => exact hno (.inr (.inr ⟨g, _, Function.update_self ..⟩))
  -- the last step of `unlock`, of this mutex or of another one
  | release g c joined ht hs hj =>
    apply hgoes ht (Function.update_self ..)
    by_cases hc : c = .user mtx
    · rw [hc]
      exact .released _ rfl
    · apply Advances.apart
      · exact hc
      · match c with
        | .user m => exact fun hno => hno
        | .join g' => exact fun hno => hno
        | .exit => exact fun hno => hno
  | releaseParent g m ht hs => exact hno (.inr (.inl (Function.update_self ..)))
  | switchMutex g c ht | switchCond g k ht | switchExternal g ht | switchExit g ht =>
    exact hno (.inr (.inr ⟨g, _, Function.update_self ..⟩))
  | decrement g m ht => exact hno (.inr (.inl (Function.update_self ..)))
  | register g ht => exact hno (.inr (.inl (Function.update_self ..)))
  | exit g ht => exact hno (.inr (.inl (Function.update_self ..)))

/-- How a fiber comes to be suspended, and where it will go on. -/
inductive Fell (s s' : WakeState F T M C) (t : T) (f : F) : Prop
  | stayed (hs : s.suspended f) (hc : s'.context f = s.context f)
  | started (hl : s.life f = .unstarted) (hc : s'.context f = none)
  | mutex (c : Call F M) (ht : s.doing t = .running f (.switchMutex c))
      (hc : s'.context f = some c)
  | cond (k : CondId F M C) (ht : s.doing t = .running f (.switchCond k))
      (hc : s'.context f = some k.call)
  | external (ht : s.doing t = .running f .switchExternal) (hc : s'.context f = none)

omit [DecidableEq F] [DecidableEq M] [DecidableEq C] [Fintype T] in
/-- A step after which the thread has no fewer fibers on its stack suspends none. -/
theorem Fell.of_stack {d : Doing F M C} (h : s'.suspended f)
    (hdoing : s'.doing = Function.update s.doing t d)
    (hnest : ∀ t', t' ≠ t → s'.nest t' = s.nest t')
    (hstack : s.onStack t f → (∃ at_, d = .running f at_) ∨ f ∈ s'.nest t)
    (hlife : s'.life f = .live → s.life f = .live) (hc : s'.context f = s.context f) :
    Fell s s' t f := by
  refine .stayed ⟨hlife h.1, fun t' ht' => ?_⟩ hc
  by_cases heq : t' = t
  · rw [heq] at ht'
    apply h.2 t
    obtain ⟨at_, hd⟩ | hn := hstack ht'
    · left
      refine ⟨at_, ?_⟩
      rw [hdoing, Function.update_self, hd]
    · exact .inr hn
  · apply h.2 t'
    obtain ⟨at_, hat⟩ | hn := ht'
    · left
      refine ⟨at_, ?_⟩
      rw [hdoing, Function.update_of_ne heq, hat]
    · right
      rw [hnest t' heq]
      exact hn

omit [Fintype T] in
/-- A suspended fiber was suspended before, or has just been started, or has just switched. -/
theorem fell_of_moves (hm : Moves s t s') (h : s'.suspended f) : Fell s s' t f := by
  -- the fibers of the nest are still there, and the thread ran no fiber, or still runs it
  have hidle {d : Doing F M C} (ht : ∀ at_, s.doing t ≠ .running f at_)
      (hdoing : s'.doing = Function.update s.doing t d) (hnest : s'.nest = s.nest)
      (hlife : s'.life f = .live → s.life f = .live) (hc : s'.context f = s.context f) :
      Fell s s' t f := by
    refine .of_stack h hdoing (fun t' _ => by rw [hnest]) (fun hs => ?_) hlife hc
    obtain ⟨at_, hat⟩ | hn := hs
    · exact absurd hat (ht at_)
    · right
      rw [hnest]
      exact hn
  have hsame {g : F} {a a' : FiberStep F M C} (ht : s.doing t = .running g a)
      (hdoing : s'.doing = Function.update s.doing t (.running g a')) (hnest : s'.nest = s.nest)
      (hlife : s'.life = s.life) (hc : s'.context = s.context) : Fell s s' t f := by
    refine .of_stack h hdoing (fun t' _ => by rw [hnest]) (fun hs => ?_)
      (fun hl => by rwa [← hlife]) (by rw [hc])
    obtain ⟨at_, hat⟩ | hn := hs
    · left
      rw [ht] at hat
      exact ⟨a', by rw [(Doing.running.inj hat).1]⟩
    · right
      rw [hnest]
      exact hn
  have hwork {g : F} {a a' : FiberStep F M C} {s₀ : WakeState F T M C}
      (ht : s.doing t = .running g a) (hl : ListWork s s₀)
      (hdoing : s'.doing = Function.update s₀.doing t (.running g a'))
      (hnest : s'.nest = s₀.nest) (hlife : s'.life = s₀.life) (hc : s'.context = s₀.context) :
      Fell s s' t f :=
    hsame ht (hdoing.trans (by rw [hl.doing])) (hnest.trans hl.nest) (hlife.trans hl.life)
      (hc.trans hl.context)
  have hother {d : Doing F M C} (ht : s.doing t = d) (hd : ∀ at_, d ≠ .running f at_)
      (at_ : FiberStep F M C) : s.doing t ≠ .running f at_ := by
    rw [ht]
    exact hd at_
  cases hm with
  | fire g ht hg => exact hidle (hother ht (by simp)) rfl rfl id rfl
  -- the new fiber is suspended, and the one that starts it is a parent on this thread
  | start g ht hg =>
    by_cases heq : f = g
    · rw [heq]
      exact .started hg (Function.update_self ..)
    · refine .of_stack h rfl (fun t' ht' => Function.update_of_ne ht' _ _) (fun hs => ?_)
        (fun hl => (Function.update_of_ne heq _ _).symm.trans hl) (Function.update_of_ne heq _ _)
      right
      show f ∈ Function.update s.nest t ((s.doing t).current ++ s.nest t) t
      rw [Function.update_self, List.mem_append]
      obtain ⟨at_, hat⟩ | hn := hs
      · left
        rw [hat]
        exact List.mem_singleton.mpr rfl
      · exact .inr hn
  | resume g ht hw => exact hidle (hother ht (by simp)) rfl rfl id rfl
  | returnIdle ht hw hn => exact hidle (hother ht (by simp)) rfl rfl id rfl
  | returnTo g nest ht hn =>
    refine .of_stack h rfl (fun t' ht' => Function.update_of_ne ht' _ _) (fun hs => ?_) id rfl
    obtain ⟨at_, hat⟩ | hn' := hs
    · exact absurd hat (hother ht (by simp) at_)
    · rw [hn, List.mem_cons] at hn'
      obtain heq | hn' := hn'
      · left
        exact ⟨.user, by rw [heq]⟩
      · right
        show f ∈ Function.update s.nest t nest t
        rw [Function.update_self]
        exact hn'
  | enter g a a' ht hat => exact hsame ht rfl rfl rfl rfl
  | notifyOne g m c ht ho =>
    have hl := listWork_notifyOne s t (.user m c)
    apply hwork ht hl
    · rw [hl.doing, ← ht, Function.update_eq_self]
    · rfl
    · rfl
    · rfl
  | notifyAll g m c n ht ho hw =>
    have hl := listWork_notifyAll s t (.user m c) n
    apply hwork ht hl
    · rw [hl.doing, ← ht, Function.update_eq_self]
    · rfl
    · rfl
    · rfl
  | acquire g c ht hs | sleep g c ht hs | contend g c ht hs | backOff g c ht | push g c ht =>
    exact hsame ht rfl rfl rfl rfl
  | condPush g k n ht hw => exact hwork ht (listWork_condPush s t k g n) rfl rfl rfl rfl
  | exitNotify g n ht hw =>
    have hl := listWork_notifyAll { s with running := Function.update s.running g false } t
      (.stop g) n
    exact hsame ht (hl.setDoing t _) hl.nest hl.life hl.context
  | grab k m hk ht hs =>
    cases hk with
    | fiber g c => exact hsame ht rfl rfl rfl rfl
    | parent g m => exact hidle (hother ht (by simp)) rfl rfl id rfl
  | wake k m hk ht =>
    have hl := listWork_wakeSleepers s t m
    cases hk with
    | fiber g c => exact hwork ht hl rfl rfl rfl rfl
    | parent g m =>
      refine hidle (hother ht (by simp)) (hl.setDoing t _) hl.nest (fun hlive => ?_)
        (congrFun hl.context f)
      exact (congrFun hl.life f).symm.trans hlive
  | release g c joined ht hs hj => exact hsame ht rfl rfl rfl rfl
  | releaseParent g m ht hs => exact hidle (hother ht (by simp)) rfl rfl id rfl
  -- the fiber that switches away, or one that was suspended before
  | switchMutex g c ht =>
    by_cases heq : f = g
    · rw [heq]
      exact .mutex c ht (Function.update_self ..)
    · exact hidle (hother ht (by simp [Ne.symm heq])) rfl rfl id (Function.update_of_ne heq _ _)
  | switchCond g k ht =>
    by_cases heq : f = g
    · rw [heq]
      exact .cond k ht (Function.update_self ..)
    · exact hidle (hother ht (by simp [Ne.symm heq])) rfl rfl id (Function.update_of_ne heq _ _)
  | switchExternal g ht =>
    by_cases heq : f = g
    · rw [heq]
      exact .external ht (Function.update_self ..)
    · exact hidle (hother ht (by simp [Ne.symm heq])) rfl rfl id (Function.update_of_ne heq _ _)
  -- a fiber that has ended is not suspended
  | switchExit g ht =>
    by_cases heq : f = g
    · have hlive : Function.update s.life g .ended f = .live := h.1
      rw [heq, Function.update_self] at hlive
      exact absurd hlive (by simp)
    · exact hidle (hother ht (by simp [Ne.symm heq])) rfl rfl
        (fun hl => (Function.update_of_ne heq _ _).symm.trans hl) (Function.update_of_ne heq _ _)
  | decrement g m ht => exact hidle (hother ht (by simp)) rfl rfl id rfl
  | register g ht => exact hidle (hother ht (by simp)) rfl rfl id rfl
  | exit g ht =>
    by_cases heq : f = g
    · have hlive : Function.update s.life g .finished f = .live := h.1
      rw [heq, Function.update_self] at hlive
      exact absurd hlive (by simp)
    · exact hidle (hother ht (by simp)) rfl rfl
        (fun hl => (Function.update_of_ne heq _ _).symm.trans hl) rfl

omit [Fintype T] in
/-- A fiber acts as a parent that did so before, or that starts another one. -/
theorem nest_of_moves (hm : Moves s t s') {t' : T} (h : f ∈ s'.nest t') :
    f ∈ s.nest t' ∨ s.doing t = .running f .user ∧ s'.doing t = .wakeAll := by
  cases hm with
  -- the fiber that was running becomes a parent
  | start g ht hg =>
    have h : f ∈ Function.update s.nest t ((s.doing t).current ++ s.nest t) t' := h
    by_cases heq : t' = t
    · rw [heq, Function.update_self, List.mem_append] at h
      obtain h | h := h
      · right
        obtain ht | ⟨g', ht⟩ := ht
        · rw [ht] at h
          exact absurd h List.not_mem_nil
        · rw [ht] at h
          refine ⟨?_, Function.update_self ..⟩
          rw [ht, List.mem_singleton.mp h]
      · left
        rw [heq]
        exact h
    · rw [Function.update_of_ne heq] at h
      exact .inl h
  | returnTo g nest ht hn =>
    have h : f ∈ Function.update s.nest t nest t' := h
    left
    by_cases heq : t' = t
    · rw [heq, Function.update_self] at h
      rw [heq, hn]
      exact List.mem_cons_of_mem g h
    · rwa [Function.update_of_ne heq] at h
  | notifyOne g m c ht ho =>
    left
    rwa [← (listWork_notifyOne s t (.user m c)).nest]
  | notifyAll g m c n ht ho hw =>
    left
    rwa [← (listWork_notifyAll s t (.user m c) n).nest]
  | condPush g k n ht hw =>
    left
    rwa [← (listWork_condPush s t k g n).nest]
  | exitNotify g n ht hw =>
    left
    have hl := listWork_notifyAll { s with running := Function.update s.running g false } t
      (.stop g) n
    exact (congrFun hl.nest t') ▸ h
  | wake k m hk ht =>
    left
    rwa [← (listWork_wakeSleepers s t m).nest]
  | _ => exact .inl h

omit [Fintype T] in
/-- A parent decrements `state_` for a fiber that is on the list of the mutex. -/
theorem handles_of_moves (hm : Moves s t s') {m : MutexId F M}
    (h : s'.doing t = .handle f (.mutexSuspend m)) :
    ∃ c, c.mutex f = m ∧ s.doing t = .running f (.switchMutex c) ∧
      s'.place f = .listed (.mutex m) := by
  have hset {d : Doing F M C} (hd : s'.doing t = d) : d = .handle f (.mutexSuspend m) :=
    hd.symm.trans h
  have hself (d : Doing F M C) : Function.update s.doing t d t = d := Function.update_self ..
  cases hm with
  | switchMutex g c ht =>
    have hd := hset (Function.update_self ..)
    injection hd with hg hop
    injection hop with hmut
    rw [← hg]
    exact ⟨c, hmut, ht, by rw [← hmut]; exact Function.update_self ..⟩
  | notifyOne g m' c ht ho =>
    rw [(listWork_notifyOne s t (.user m' c)).doing, ht] at h
    exact absurd h (by simp)
  | notifyAll g m' c n ht ho hw =>
    rw [(listWork_notifyAll s t (.user m' c) n).doing, ht] at h
    exact absurd h (by simp)
  -- a parent that unlocks does it for a fiber that waits on a condition
  | grab k m' hk ht hs =>
    have hd := hset (Function.update_self ..)
    cases hk with
    | fiber g c => exact absurd hd (by simp)
    | parent g m' => exact absurd hd (by simp)
  | wake k m' hk ht =>
    have hd := hset (Function.update_self ..)
    cases hk with
    | fiber g c => exact absurd hd (by simp)
    | parent g m' => exact absurd hd (by simp)
  | _ => exact absurd (hset (Function.update_self ..)) (by simp)

omit [Fintype T] in
/-- A parent unlocks a mutex for a fiber that waits on a condition. -/
theorem waits_of_moves (hm : Moves s t s') {m : MutexId F M} {u : UnlockStep}
    (h : s'.doing t = .handle f (.condWait m u)) :
    (∃ u', s.doing t = .handle f (.condWait m u')) ∨
      ∃ k, k.mutex = m ∧ s.doing t = .running f (.switchCond k) := by
  have hset {d : Doing F M C} (hd : s'.doing t = d) : d = .handle f (.condWait m u) :=
    hd.symm.trans h
  cases hm with
  | switchCond g k ht =>
    have hd := hset (Function.update_self ..)
    injection hd with hg hop
    injection hop with hmut
    right
    exact ⟨k, hmut, by rw [ht, hg]⟩
  | notifyOne g m' c ht ho =>
    rw [(listWork_notifyOne s t (.user m' c)).doing, ht] at h
    exact absurd h (by simp)
  | notifyAll g m' c n ht ho hw =>
    rw [(listWork_notifyAll s t (.user m' c) n).doing, ht] at h
    exact absurd h (by simp)
  | grab k m' hk ht hs =>
    have hd := hset (Function.update_self ..)
    cases hk with
    | fiber g c => exact absurd hd (by simp)
    | parent g m' =>
      injection hd with hg hop
      injection hop with hmut
      left
      exact ⟨.grab, by rw [ht, hg, hmut]⟩
  | wake k m' hk ht =>
    have hd := hset (Function.update_self ..)
    cases hk with
    | fiber g c => exact absurd hd (by simp)
    | parent g m' =>
      injection hd with hg hop
      injection hop with hmut
      left
      exact ⟨.wake, by rw [ht, hg, hmut]⟩
  | _ => exact absurd (hset (Function.update_self ..)) (by simp)

/-- What a step of a thread leaves alone. -/
structure Keeps (s : WakeState F T M C) (t : T) (s' : WakeState F T M C) : Prop where
  doing : ∀ t', t' ≠ t → s'.doing t' = s.doing t'
  nest : ∀ t' f, f ∈ s'.nest t' →
    f ∈ s.nest t' ∨ s.doing t = .running f .user ∧ s'.doing t = .wakeAll
  suspended : ∀ f, s'.suspended f → Fell s s' t f
  idle : ∀ f, s'.life f ≠ .live → s.life f ≠ .live ∨ s.doing t = .running f .switchExit
  owner : ∀ m t' f, s.doing t' = .running f .user → t' ≠ t → s.owner m = some (.fiber f) →
    s'.owner m = some (.fiber f)
  place : ∀ m f, s.place f = .listed (.mutex m) →
    (∀ k, Unlocker k m → s.doing t ≠ k .wake) → s'.place f = .listed (.mutex m)

theorem keeps_of_moves (hinv : WakeInv s) (hm : Moves s t s') : Keeps s t s' where
  doing := fun _ hne => doing_of_moves hm hne
  nest := fun _ _ hf => nest_of_moves hm hf
  suspended := fun _ hf => fell_of_moves hm hf
  idle := fun _ hf => idle_of_moves hinv hm hf
  owner := fun _ _ _ ht hne ho => owner_of_moves hinv hm ht hne ho
  place := fun _ _ hf hwake => place_of_moves hinv hm hf hwake

omit [DecidableEq F] [DecidableEq T] [DecidableEq M] [DecidableEq C] [Fintype T] in
theorem Keeps.refl (s : WakeState F T M C) (t : T) : Keeps s t s where
  doing := fun _ _ => rfl
  nest := fun _ _ hf => .inl hf
  suspended := fun _ hf => .stayed hf rfl
  idle := fun _ hf => .inl hf
  owner := fun _ _ _ _ _ ho => ho
  place := fun _ _ hf _ => hf

end Moves

/-! ## Phases along a run -/

section Steps

variable [DecidableEq F] [DecidableEq T] [DecidableEq M] [DecidableEq C] [Fintype T]

omit [DecidableEq F] [DecidableEq T] [DecidableEq M] [DecidableEq C] [Fintype T] in
/-- A fiber whose step does not use the mutex is away from it. -/
theorem PhaseInv.roams_of_apart (h : PhaseInv mtx s phase)
    (hfree : ∀ f, s.doing t = .running f .user → (phase f).roams)
    (ht : s.doing t = .running f at_) (huses : ¬at_.uses mtx) : (phase f).roams := by
  by_cases huser : at_ = .user
  · rw [huser] at ht
    exact hfree f ht
  · exact Phase.roams_of_fits (h.running t f at_ ht) huses huser

/-- Any step in which a fiber that runs code of its own does not use the mutex. -/
theorem PhaseInv.step (h : PhaseInv mtx s phase) (hinv : WakeInv s) (hm : Moves s t s')
    (hfree : ∀ f, s.doing t = .running f .user → (phase f).roams ∧
      ∀ at_, s'.doing t = .running f at_ → ¬at_.uses mtx) : PhaseInv mtx s' phase where
  running := by
    intro t' f at_ ht'
    by_cases heq : t' = t
    · rw [heq] at ht'
      cases came_of_moves hinv hm mtx ht' with
      | user _ ht => exact Phase.fits_of_roams (hfree f ht).1 ((hfree f ht).2 at_ ht')
      | advanced a a' ht ha =>
        have hfits := h.running t f a ht
        cases ha with
        | apart _ huses huses' =>
          have hroams := h.roams_of_apart (fun f ht => (hfree f ht).1) ht huses
          exact Phase.fits_of_roams hroams huses'
        | waits _ hw hw' =>
          rw [Phase.eq_locking hfits hw]
          exact .inr hw'
        | acquires hw ho =>
          rw [Phase.eq_locking hfits hw]
          exact .inl rfl
        | releases _ hr hr' => exact Phase.fits_of_releases hfits hr hr'
        | released hr => exact (Phase.not_holds_of_releases hfits hr).2
      -- where it goes on is where it was suspended
      | resumed hs =>
        obtain ⟨hlocking, hctx⟩ | ⟨hroams, hctx⟩ := h.suspended f hs
        · rw [hlocking, hctx]
          exact .inr rfl
        · apply Phase.fits_of_roams hroams
          intro huses
          match hc : s.context f with
          | none =>
            rw [hc] at huses
            exact huses
          | some c =>
            rw [hc] at huses
            have huses : c = .user mtx := huses
            exact hctx (by rw [hc, huses])
      | returned hn => exact Phase.fits_of_roams (h.nested t f hn) (fun hno => hno)
    · rw [doing_of_moves hm heq] at ht'
      exact h.running t' f at_ ht'
  nested := by
    intro t' f hf
    obtain hf | ht := nest_of_moves hm hf
    · exact h.nested t' f hf
    · exact (hfree f ht.1).1
  suspended := by
    intro f hf
    cases fell_of_moves hm hf with
    | stayed hs hc =>
      rw [hc]
      exact h.suspended f hs
    | started hl hc => exact .inr ⟨h.idle f (by rw [hl]; simp), by rw [hc]; simp⟩
    | mutex c ht hc =>
      have hfits := h.running t f _ ht
      by_cases hsame : c = .user mtx
      · left
        exact ⟨Phase.eq_locking hfits hsame, by rw [hc, hsame]⟩
      · right
        refine ⟨Phase.roams_of_fits hfits hsame (by simp), ?_⟩
        rw [hc]
        simpa using hsame
    | cond k ht hc =>
      have hfits := h.running t f _ ht
      have hcall : k.call = .user mtx ↔ k.mutex = .user mtx := by
        cases k <;> simp [CondId.call, CondId.mutex]
      by_cases hsame : k.mutex = .user mtx
      · left
        exact ⟨Phase.eq_locking hfits hsame, by rw [hc, hcall.mpr hsame]⟩
      · right
        refine ⟨Phase.roams_of_fits hfits hsame (by simp), ?_⟩
        rw [hc]
        intro hno
        exact hsame (hcall.mp (Option.some.inj hno))
    | external ht hc =>
      right
      refine ⟨Phase.roams_of_fits (h.running t f _ ht) (fun hno => hno) (by simp), ?_⟩
      rw [hc]
      simp
  idle := by
    intro f hf
    obtain hf | ht := idle_of_moves hinv hm hf
    · exact h.idle f hf
    · exact Phase.roams_of_fits (h.running t f _ ht) (fun hno => hno) (by simp)
  owner := by
    intro t' f ht' hholds
    by_cases heq : t' = t
    · rw [heq] at ht'
      have hcame := came_of_moves hinv hm mtx ht'
      -- of the steps that lead to code of its own only `acquires` leads to the mutex
      generalize huser : (FiberStep.user : FiberStep F M C) = a' at hcame
      cases hcame with
      | user _ ht => exact absurd hholds (Phase.not_holds_of_roams (hfree f ht).1)
      | advanced a _ ht ha =>
        have hfits := h.running t f a ht
        cases ha with
        | apart _ huses _ =>
          have hroams := h.roams_of_apart (fun f ht => (hfree f ht).1) ht huses
          exact absurd hholds (Phase.not_holds_of_roams hroams)
        | waits _ _ hw' =>
          rw [← huser] at hw'
          exact absurd hw' (fun hno => hno)
        | acquires _ ho => exact ho
        | releases _ _ hr' =>
          rw [← huser] at hr'
          exact absurd hr' (fun hno => hno)
        | released hr => exact absurd hholds (Phase.not_holds_of_releases hfits hr).1
      | resumed hs =>
        obtain ⟨-, hctx⟩ | ⟨hroams, -⟩ := h.suspended f hs
        · rw [hctx] at huser
          exact absurd huser (by simp [resumeStep])
        · exact absurd hholds (Phase.not_holds_of_roams hroams)
      | returned hn => exact absurd hholds (Phase.not_holds_of_roams (h.nested t f hn))
    · have ht := ht'
      rw [doing_of_moves hm heq] at ht
      exact owner_of_moves hinv hm ht heq (h.owner t' f ht hholds)
  handled := by
    intro t' f ht'
    by_cases heq : t' = t
    · rw [heq] at ht'
      obtain ⟨c, hc, ht, hplace⟩ := handles_of_moves hm ht'
      have hsame : c = .user mtx := by
        match c with
        | .user m => simpa [Call.mutex] using hc
        | .join g => exact absurd hc (by simp [Call.mutex])
        | .exit => exact absurd hc (by simp [Call.mutex])
      refine ⟨Phase.eq_locking (h.running t f _ ht) hsame, hplace⟩
    · rw [doing_of_moves hm heq] at ht'
      obtain ⟨hlocking, hplace⟩ := h.handled t' f ht'
      refine ⟨hlocking, place_of_moves hinv hm hplace fun k hk ht => ?_⟩
      -- the list belongs to the parent that is still to decrement
      have haccess : (s.doing t).access = some (.user mtx) := by
        rw [ht, hk.access_eq]
        rfl
      have haccess' : (s.doing t').access = some (.user mtx) := by
        rw [ht']
        rfl
      exact heq (hinv.account.alone _ t' t haccess' haccess)
  waited := by
    intro t' f u ht'
    by_cases heq : t' = t
    · rw [heq] at ht'
      obtain ⟨u', ht⟩ | ⟨k, hk, ht⟩ := waits_of_moves hm ht'
      · exact h.waited t f u' ht
      · exact ⟨f, Phase.eq_locking (h.running t f _ ht) hk⟩
    · rw [doing_of_moves hm heq] at ht'
      exact h.waited t' f u ht'

/-- A fiber that runs code of its own is on no list, acts as no parent, and is not suspended. -/
theorem WakeInv.apart (hinv : WakeInv s) (ht : s.doing t = .running f .user) :
    s.life f = .live ∧ ¬s.suspended f ∧ (∀ t', f ∉ s.nest t') ∧ ∀ i, s.place f ≠ .listed i := by
  have hplace : s.place f = .executing t := hinv.onStacks.running ht
  refine ⟨hinv.life_of_running ht, fun hs => hs.2 t (.inl ⟨_, ht⟩), fun t' hn => ?_, fun i hi => ?_⟩
  · have hplace' := hinv.onStacks.nested hn
    rw [hplace] at hplace'
    have heq : t = t' := by simpa using hplace'
    have hnodup := hinv.onStacks.nodup t
    rw [ht] at hnodup
    exact not_nested hnodup (List.mem_singleton.mpr rfl) (heq ▸ hn)
  · rw [hplace] at hi
    exact absurd hi (by simp)

/-- A fiber that runs code of its own goes on to another phase. -/
theorem PhaseInv.change (h : PhaseInv mtx s phase) (hinv : WakeInv s)
    (ht : s.doing t = .running f .user) (hk : Keeps s t s') {at_' : FiberStep F M C}
    (ht' : s'.doing t = .running f at_') (hfits : p.fits mtx at_')
    (howner : at_' = .user → p.holds → s'.owner (.user mtx) = some (.fiber f)) :
    PhaseInv mtx s' (Function.update phase f p) := by
  obtain ⟨hlive, hrunning, hnested, hlisted⟩ := hinv.apart ht
  have hother {t' : T} {g : F} {a : FiberStep F M C} (hne : t' ≠ t)
      (hg : s.doing t' = .running g a) : g ≠ f := by
    intro heq
    rw [heq] at hg
    exact hne (hinv.onStacks.thread_unique hg ht)
  constructor
  -- the thread runs the fiber in its new phase, and the others what they ran before
  · intro t'' g a hg
    by_cases heq : t'' = t
    · rw [heq, ht'] at hg
      obtain ⟨rfl, rfl⟩ := Doing.running.inj hg
      rw [Function.update_self]
      exact hfits
    · rw [hk.doing _ heq] at hg
      rw [Function.update_of_ne (hother heq hg)]
      exact h.running t'' g a hg
  · intro t'' g hg
    obtain hg | ⟨-, hd⟩ := hk.nest t'' g hg
    · have hne : g ≠ f := fun heq => hnested t'' (heq ▸ hg)
      rw [Function.update_of_ne hne]
      exact h.nested t'' g hg
    · rw [ht'] at hd
      exact absurd hd (by simp)
  -- the fiber was in code of its own, so it is not the one that has switched
  · intro g hg
    have hback (a : FiberStep F M C) (hga : s.doing t = .running g a) : a = .user := by
      rw [ht] at hga
      exact (Doing.running.inj hga).2.symm
    cases hk.suspended g hg with
    | stayed hs hc =>
      have hne : g ≠ f := fun heq => hrunning (heq ▸ hs)
      rw [Function.update_of_ne hne, hc]
      exact h.suspended g hs
    | started hl hc =>
      have hne : g ≠ f := by
        intro heq
        rw [heq, hlive] at hl
        exact absurd hl (by simp)
      rw [Function.update_of_ne hne, hc]
      exact .inr ⟨h.idle g (by rw [hl]; simp), by simp⟩
    | mutex c hga hc => exact absurd (hback _ hga) (by simp)
    | cond k hga hc => exact absurd (hback _ hga) (by simp)
    | external hga hc => exact absurd (hback _ hga) (by simp)
  · intro g hg
    obtain hl | hga := hk.idle g hg
    · have hne : g ≠ f := fun heq => hl (heq ▸ hlive)
      rw [Function.update_of_ne hne]
      exact h.idle g hl
    · rw [ht] at hga
      exact absurd hga (by simp)
  -- the others keep the mutex, whatever the thread does
  · intro t'' g hg hholds
    by_cases heq : t'' = t
    · rw [heq, ht'] at hg
      obtain ⟨rfl, hat⟩ := Doing.running.inj hg
      rw [Function.update_self] at hholds
      exact howner hat hholds
    · have hg' := hg
      rw [hk.doing _ heq] at hg'
      rw [Function.update_of_ne (hother heq hg')] at hholds
      exact hk.owner _ t'' g hg' heq (h.owner t'' g hg' hholds)
  · intro t'' g hg
    have hne : t'' ≠ t := by
      intro heq
      rw [heq, ht'] at hg
      exact absurd hg (by simp)
    rw [hk.doing _ hne] at hg
    obtain ⟨hlocking, hplace⟩ := h.handled t'' g hg
    have hne : g ≠ f := fun heq => hlisted _ (heq ▸ hplace)
    rw [Function.update_of_ne hne]
    -- the thread wakes nobody, since it was in code of the fiber
    refine ⟨hlocking, hk.place _ g hplace fun k hkm hwake => ?_⟩
    have haccess := hkm.access_eq .wake
    rw [← hwake, ht] at haccess
    exact absurd haccess (by simp [Doing.access, Doing.transit, UnlockStep.transit])
  · intro t'' g u hg
    have hne : t'' ≠ t := by
      intro heq
      rw [heq, ht'] at hg
      exact absurd hg (by simp)
    rw [hk.doing _ hne] at hg
    obtain ⟨g', hlocking⟩ := h.waited t'' g u hg
    refine ⟨g', ?_⟩
    rw [Function.update_of_ne]
    · exact hlocking
    -- the mutex belongs to the parent, so no fiber is back from `lock`
    · intro heq
      rw [heq] at hlocking
      have howns := h.owner t f ht (by rw [hlocking]; trivial)
      have hparent := hinv.holds t'' (.user mtx) (.parent t'') (by rw [hg]; rfl)
      rw [howns] at hparent
      exact absurd hparent (by simp)

/-- A fiber in code of its own that holds the mutex is the only one near it, when the others are
done with it. -/
theorem PhaseInv.alone (h : PhaseInv mtx s phase) (hinv : WakeInv s) {g : F}
    (ht : s.doing t = .running g .user) (hholds : (phase g).holds)
    (hothers : ∀ f, f ≠ g → (phase f).roams) {t' : T} {at_ : FiberStep F M C}
    (hf : s.doing t' = .running f at_) (hne : f ≠ g) : ¬at_.uses mtx := by
  intro huses
  have hfits := h.running t' f at_ hf
  obtain hw | hr := FiberStep.uses_iff.mp huses
  · have hroams := hothers f hne
    rw [Phase.eq_locking hfits hw] at hroams
    exact hroams
  -- a fiber in `unlock` would be the holder
  · have howner := h.owner t g ht hholds
    have hholder := hinv.holds t' (.user mtx) (.fiber f) (by
      rw [hf]
      match at_ with
      | .unlock c u =>
        have hc : c = .user mtx := hr
        rw [hc]
        rfl)
    rw [howner] at hholder
    exact hne (Party.fiber.inj (Option.some.inj hholder)).symm

omit [DecidableEq F] [DecidableEq T] [DecidableEq M] [DecidableEq C] [Fintype T] in
/-- A fiber in the phase `holding` runs, and holds the mutex. -/
theorem PhaseInv.owner_of_holding (h : PhaseInv mtx s phase) (hf : phase f = .holding) :
    s.owner (.user mtx) = some (.fiber f) := by
  have hnot : ¬(phase f).roams := by
    rw [hf]
    exact fun hno => hno
  have hlive : s.life f = .live := by
    by_contra hidle
    exact hnot (h.idle f hidle)
  -- neither a suspended fiber nor a parent is in this phase
  have hruns : ∃ t at_, s.doing t = .running f at_ := by
    by_contra hno
    have hsuspended : s.suspended f := by
      refine ⟨hlive, fun t ht => ?_⟩
      obtain ⟨at_, hat⟩ | hn := ht
      · exact hno ⟨t, at_, hat⟩
      · exact hnot (h.nested t f hn)
    obtain ⟨hlocking, -⟩ | ⟨hroams, -⟩ := h.suspended f hsuspended
    · rw [hf] at hlocking
      exact absurd hlocking (by simp)
    · exact hnot hroams
  obtain ⟨t, at_, ht⟩ := hruns
  have hfits := h.running t f at_ ht
  rw [hf] at hfits
  have huser : at_ = .user := hfits
  rw [huser] at ht
  apply h.owner t f ht
  rw [hf]
  trivial

omit [DecidableEq F] [DecidableEq T] [DecidableEq M] [DecidableEq C] [Fintype T] in
/-- Fibers that are out of `unlock` for the last time do not use the mutex. -/
theorem PhaseInv.rename (h : PhaseInv mtx s phase) {phase' : F → Phase}
    (hphase : ∀ f, phase' f = phase f ∨ (phase f).roams ∧ phase' f = .free)
    (hruns : ∀ t f at_, s.doing t = .running f at_ → phase' f ≠ phase f → ¬at_.uses mtx) :
    PhaseInv mtx s phase' := by
  have hroams (f : F) (hf : (phase f).roams) : (phase' f).roams := by
    obtain heq | ⟨-, heq⟩ := hphase f
    · rw [heq]
      exact hf
    · rw [heq]
      trivial
  have hlocking (f : F) (hf : phase f = .locking) : phase' f = .locking := by
    obtain heq | ⟨hno, -⟩ := hphase f
    · rw [heq, hf]
    · rw [hf] at hno
      exact absurd hno (fun hno => hno)
  constructor
  · intro t f at_ ht
    obtain heq | ⟨-, heq⟩ := hphase f
    · rw [heq]
      exact h.running t f at_ ht
    -- a fiber that was `done` and is `free` now is not in `unlock` any more
    · by_cases hsame : phase' f = phase f
      · rw [hsame]
        exact h.running t f at_ ht
      · rw [heq]
        exact hruns t f at_ ht hsame
  · exact fun t f hf => hroams f (h.nested t f hf)
  · intro f hf
    obtain ⟨hl, hc⟩ | ⟨hr, hc⟩ := h.suspended f hf
    · exact .inl ⟨hlocking f hl, hc⟩
    · exact .inr ⟨hroams f hr, hc⟩
  · exact fun f hf => hroams f (h.idle f hf)
  · intro t f ht hholds
    apply h.owner t f ht
    obtain heq | ⟨-, heq⟩ := hphase f
    · rwa [← heq]
    · rw [heq] at hholds
      exact absurd hholds (fun hno => hno)
  · intro t f ht
    obtain ⟨hl, hplace⟩ := h.handled t f ht
    exact ⟨hlocking f hl, hplace⟩
  · intro t f u ht
    obtain ⟨g, hg⟩ := h.waited t f u ht
    exact ⟨g, hlocking g hg⟩

omit [DecidableEq F] [DecidableEq T] [DecidableEq M] [DecidableEq C] [Fintype T] in
/-- Nobody is near a mutex that all fibers are done with. -/
theorem PhaseInv.untouched (h : PhaseInv mtx s phase) (hall : ∀ f, phase f = .free) (t : T) :
    (∀ f at_, s.doing t = .running f at_ → ¬at_.uses mtx) ∧
      ∀ f op, s.doing t = .handle f op → ¬op.uses mtx := by
  refine ⟨fun f at_ ht => ?_, fun f op ht huses => ?_⟩
  · have hfits := h.running t f at_ ht
    rw [hall f] at hfits
    exact hfits
  · match op with
    | .mutexSuspend m =>
      have huses : m = .user mtx := huses
      rw [huses] at ht
      obtain ⟨hlocking, -⟩ := h.handled t f ht
      rw [hall f] at hlocking
      exact absurd hlocking (by simp)
    | .condWait m u =>
      have huses : m = .user mtx := huses
      rw [huses] at ht
      obtain ⟨g, hlocking⟩ := h.waited t f u ht
      rw [hall g] at hlocking
      exact absurd hlocking (by simp)

end Steps

end Anon.Fiber.Wake
