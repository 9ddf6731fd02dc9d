import Anon.Fiber.WakePlaces

/-!
# The wake lists hold the suspended fibers

The heads and links make up disjoint finite lists, whatever the interleaving: each piece of work on
the lists is an operation of `Family`, and the fibers that it takes from a list have switched away.
-/

namespace Anon.Fiber.Wake

open WakeState

variable {F T M C : Type} [DecidableEq F] [DecidableEq T] [DecidableEq M] [DecidableEq C]
  {s s' : WakeState F T M C} {t : T} {d : Doing F M C}

/-! ## Each step keeps the lists -/

section Lists

variable {L : WakeList F T M C → List F}

omit [DecidableEq T] [DecidableEq M] [DecidableEq C] in
/-- Where a fiber is listed after it has changed its place. -/
theorem list_update (f g : F) (p : Place F T M C) :
    (Function.update s.place f p g).list =
      Function.update (fun f => (s.place f).list) f p.list g :=
  Function.apply_update (fun _ => Place.list) s.place f p g

omit [DecidableEq F] [DecidableEq T] [DecidableEq M] [DecidableEq C] in
/-- A step that leaves the lists and the places on them alone. -/
theorem Lists.stay (h : Lists s L) (hnext : s'.nextWake = s.nextWake) (hhead : s'.head = s.head)
    (htail : s'.tail = s.tail) (hplace : ∀ f, (s'.place f).list = (s.place f).list) :
    Lists s' L := by
  constructor
  · rw [hnext, hhead]
    exact h.family.congr hplace
  · intro m
    rw [htail]
    exact h.tail m

omit [DecidableEq T] [DecidableEq M] [DecidableEq C] in
theorem Lists.stay_fiber (h : Lists s L) {f : F} {p : Place F T M C}
    (hnext : s'.nextWake = s.nextWake) (hhead : s'.head = s.head) (htail : s'.tail = s.tail)
    (hplace : s'.place = Function.update s.place f p) (hp : p.list = (s.place f).list) :
    Lists s' L := by
  apply h.stay hnext hhead htail
  intro g
  rw [hplace, list_update, hp, Function.update_eq_self]

/-- The start of `wake_all`. -/
theorem Lists.wakeAll (h : Lists s L) {f : F} (hf : (s.place f).list = none)
    (hnext : s'.nextWake = s.nextWake) (hhead : s'.head = s.head) (htail : s'.tail = s.tail)
    (hplace : s'.place = s.place) :
    Lists (s'.wakeAll t f) (Function.update L (.thread t) (f :: L (.thread t))) := by
  have hfam := h.family.push (i := .thread t) hf
  constructor
  · rw [← hnext, ← hhead] at hfam
    apply hfam.congr
    intro g
    show (Function.update s'.place f (.listed (.thread t)) g).list = _
    rw [hplace]
    exact list_update f g _
  · intro m
    show s'.tail m = _
    rw [htail, Function.update_of_ne (by simp)]
    exact h.tail m

/-- The loop of `wake_all` takes the next fiber. -/
theorem Lists.pop (h : Lists s L) {f : F} (hw : s.head (.thread t) = some f) :
    Lists (({ s with head := Function.update s.head (.thread t) (s.nextWake f) }.setPlace f
      (.executing t)).setDoing t d)
      (Function.update L (.thread t) (L (.thread t)).tail) := by
  constructor
  · apply (h.family.pop hw).congr
    intro g
    exact list_update f g _
  · intro m
    rw [Function.update_of_ne (by simp)]
    exact h.tail m

/-- A fiber puts itself on the list of a mutex. -/
theorem Lists.sleep (h : Lists s L) {f : F} {m : MutexId F M} (hf : (s.place f).list = none) :
    Lists (s.sleepTillWoken t m f) (Function.update L (.mutex m) (f :: L (.mutex m))) := by
  constructor
  · apply (h.family.push (i := .mutex m) hf).congr
    intro g
    exact list_update f g _
  · intro m'
    show Function.update s.tail m ((s.tail m).or (some f)) m' = _
    by_cases hm : m' = m
    · rw [hm, Function.update_self, Function.update_self, h.tail m, List.getLast?_cons]
      cases (L (.mutex m)).getLast? <;> rfl
    · rw [Function.update_of_ne hm, Function.update_of_ne (by simpa using hm)]
      exact h.tail m'

/-- A whole list goes to the front of a thread's list. -/
theorem Lists.splice (h : Lists s L) {i : WakeList F T M C} {l : F} (hi : i ≠ .thread t)
    (hl : (L i).getLast? = some l)
    (hlisted : ∀ g, (s.place g).list = some i → s.place g = .listed i) :
    Family (s.spliceList i t l).nextWake (s.spliceList i t l).head
      (fun f => ((s.spliceList i t l).place f).list)
      (Function.update (Function.update L (.thread t) (L i ++ L (.thread t))) i []) := by
  apply (h.family.splice hi hl).congr
  intro g
  show (if s.place g = .listed i then Place.listed (.thread t) else s.place g).list = _
  by_cases hg : s.place g = .listed i
  · rw [if_pos hg, hg]
    simp [Place.list]
  · rw [if_neg hg, if_neg fun hg' => hg (hlisted g hg')]

omit [DecidableEq F] [DecidableEq T] [DecidableEq M] [DecidableEq C] in
/-- The walk from the head of a list ends at its last fiber. -/
theorem Lists.getLast (h : Lists s L) {i : WakeList F T M C} {n : ℕ} {f l : F}
    (hw : s.head i = some f) (hl : walk s.nextWake n f = some l) : (L i).getLast? = some l := by
  have hseg := h.family.seg i
  rw [hw] at hseg
  exact hseg.getLast_of_walk hl

/-- `notify_all` moves the list of the condition. -/
theorem Lists.notifyAll (h : Lists s L) (t : T) {k : CondId F M C} (n : ℕ)
    (hlisted : ∀ g, (s.place g).list = some (.cond k) → s.place g = .listed (.cond k)) :
    ∃ L', Lists (s.condNotifyAll t k n) L' := by
  unfold WakeState.condNotifyAll
  split
  · exact ⟨L, h⟩
  · next first hw =>
    split
    · exact ⟨L, h⟩
    · next l hl =>
      refine ⟨_, h.splice (by simp) (h.getLast hw hl) hlisted, ?_⟩
      intro m
      rw [Function.update_of_ne (by simp), Function.update_of_ne (by simp)]
      exact h.tail m

/-- `notify_one` moves the first fiber of the list. -/
theorem Lists.notifyOne (h : Lists s L) (t : T) (k : CondId F M C) :
    ∃ L', Lists (s.condNotifyOne t k) L' := by
  unfold WakeState.condNotifyOne
  split
  · exact ⟨L, h⟩
  · next f hw =>
    have hpop := h.family.pop hw
    have hpush := hpop.push (i := .thread t) (x := f) (by simp)
    rw [Function.update_of_ne (by simp), Function.update_idem,
      Function.update_comm (by simp)] at hpush
    refine ⟨_, hpush.congr fun g => list_update f g _, ?_⟩
    intro m
    rw [Function.update_of_ne (by simp), Function.update_of_ne (by simp)]
    exact h.tail m

/-- `wake_sleepers` moves the list of the mutex. -/
theorem Lists.wakeSleepers (h : Lists s L) (t : T) {m : MutexId F M}
    (hlisted : ∀ g, (s.place g).list = some (.mutex m) → s.place g = .listed (.mutex m)) :
    ∃ L', Lists (s.wakeSleepers t m) L' := by
  unfold WakeState.wakeSleepers
  split
  · next first l hw hl =>
    rw [h.tail m] at hl
    refine ⟨_, h.splice (by simp) hl hlisted, ?_⟩
    intro m'
    show Function.update s.tail m none m' = _
    by_cases hm : m' = m
    · rw [hm, Function.update_self, Function.update_self]
      rfl
    · rw [Function.update_of_ne hm, Function.update_of_ne (by simpa using hm),
        Function.update_of_ne (by simp)]
      exact h.tail m'
  · exact ⟨L, h⟩

/-- A fiber puts itself at the end of the list of a condition. -/
theorem Lists.condPush (h : Lists s L) (t : T) {k : CondId F M C} {f : F} {n : ℕ}
    (hf : (s.place f).list = none) (hw : (s.clearNext f).walks (.cond k) n) :
    ∃ L', Lists (s.condPush t k f n) L' := by
  have hclear : Lists (s.clearNext f) L := ⟨h.family.setNext hf, h.tail⟩
  unfold WakeState.condPush
  split
  · next hn =>
    have hpush := h.family.push (i := .cond k) hf
    rw [hn] at hpush
    refine ⟨_, hpush.congr fun g => list_update f g _, ?_⟩
    intro m
    rw [Function.update_of_ne (by simp)]
    exact h.tail m
  · next first hh =>
    dsimp only
    split
    · next hnone =>
      -- the walk was said to end
      have hnone' : walk (Function.update s.nextWake f none) n first = none := hnone
      rw [walks] at hw
      simp only [clearNext, hh, hnone'] at hw
      exact absurd hw (by simp)
    · next l hl =>
      have hlast : (L (.cond k)).getLast? = some l := hclear.getLast hh hl
      have happ := hclear.family.append (x := f) hf (by simp) hlast
      refine ⟨_, happ.congr fun g => list_update f g _, ?_⟩
      intro m
      rw [Function.update_of_ne (by simp)]
      exact h.tail m

omit [DecidableEq T] [DecidableEq M] [DecidableEq C] in
/-- The place of the fiber that a thread runs, when it is on no list. -/
theorem Stacks.list_eq_none (h : Stacks s) {f : F} {at_ : FiberStep F M C}
    (ht : s.doing t = .running f at_) (hm : ∀ c, at_ ≠ .switchMutex c)
    (hc : ∀ k, at_ ≠ .switchCond k) : (s.place f).list = none := by
  rw [h.running ht]
  cases at_ with
  | switchMutex c => exact absurd rfl (hm c)
  | switchCond k => exact absurd rfl (hc k)
  | _ => rfl

theorem Lists.step [Fintype T] (hinv : WakeInv s) (hm : Moves s t s') : ∃ L', Lists s' L' := by
  have hst := hinv.onStacks
  have hh := hinv.holds
  obtain ⟨L, h⟩ := hinv.lists
  cases hm with
  | fire f ht hf =>
    have hp : s.place f = .external := by
      by_contra hp
      rw [hinv.books.events f, if_neg hp] at hf
      exact hf rfl
    exact ⟨_, h.wakeAll (by rw [hp]; rfl) rfl rfl rfl rfl⟩
  | start f ht hf =>
    have hp : s.place f = .off := (hinv.books.off f).mpr (.inl hf)
    exact ⟨_, h.wakeAll (by rw [hp]; rfl) rfl rfl rfl rfl⟩
  | resume f ht hw => exact ⟨_, h.pop hw⟩
  | returnIdle ht hw hn => exact ⟨L, h.stay rfl rfl rfl fun _ => rfl⟩
  | returnTo g nest ht hn => exact ⟨L, h.stay rfl rfl rfl fun _ => rfl⟩
  | enter f at_ at_' ht hat => exact ⟨L, h.stay rfl rfl rfl fun _ => rfl⟩
  | notifyOne f m c ht ho => exact h.notifyOne t (.user m c)
  | notifyAll f m c n ht ho hw =>
    apply h.notifyAll t n
    intro g hg
    exact hst.listed_cond hh (k := .user m c) ht (by simp) ho hg
  | acquire f c ht hs => exact ⟨L, h.stay rfl rfl rfl fun _ => rfl⟩
  | sleep f c ht hs => exact ⟨L, h.stay rfl rfl rfl fun _ => rfl⟩
  | contend f c ht hs => exact ⟨L, h.stay rfl rfl rfl fun _ => rfl⟩
  | backOff f c ht => exact ⟨L, h.stay rfl rfl rfl fun _ => rfl⟩
  | push f c ht =>
    have hs := h.sleep (t := t) (m := c.mutex f) (hst.list_eq_none ht (by simp) (by simp))
    exact ⟨_, hs.stay rfl rfl rfl fun _ => rfl⟩
  | condPush f k n ht hw =>
    obtain ⟨L', h'⟩ := h.condPush t (hst.list_eq_none ht (by simp) (by simp)) hw
    exact ⟨L', h'.stay rfl rfl rfl fun _ => rfl⟩
  | exitNotify f n ht hw =>
    have ho : s.owner (.stop f) = some (.fiber f) := hh t _ _ (by rw [ht]; rfl)
    have hr : Lists { s with running := Function.update s.running f false } L :=
      h.stay rfl rfl rfl fun _ => rfl
    obtain ⟨L', h'⟩ := hr.notifyAll t (k := .stop f) n fun g hg =>
      hst.listed_cond hh ht (by simp) ho hg
    exact ⟨L', h'.stay rfl rfl rfl fun _ => rfl⟩
  | grab k m hk ht hs => exact ⟨L, h.stay rfl rfl rfl fun _ => rfl⟩
  | wake k m hk ht =>
    have hac : (s.doing t).access = some m := by
      rw [ht, hk.access_eq]
      rfl
    have hne : ∀ f c, s.doing t ≠ .running f (.switchMutex c) := by
      intro f c
      rw [ht]
      cases hk <;> simp
    obtain ⟨L', h'⟩ := h.wakeSleepers t fun g hg => hst.listed_mutex hinv.account hac hne hg
    exact ⟨L', h'.stay rfl rfl rfl fun _ => rfl⟩
  | release f c joined ht hs hj => exact ⟨L, h.stay rfl rfl rfl fun _ => rfl⟩
  | releaseParent f m ht hs => exact ⟨L, h.stay rfl rfl rfl fun _ => rfl⟩
  | switchMutex f c ht =>
    exact ⟨L, h.stay_fiber rfl rfl rfl rfl (by rw [hst.running ht]; rfl)⟩
  | switchCond f k ht =>
    exact ⟨L, h.stay_fiber rfl rfl rfl rfl (by rw [hst.running ht]; rfl)⟩
  | switchExternal f ht =>
    exact ⟨L, h.stay_fiber rfl rfl rfl rfl (by rw [hst.running ht]; rfl)⟩
  | switchExit f ht =>
    exact ⟨L, h.stay_fiber rfl rfl rfl rfl (by rw [hst.running ht]; rfl)⟩
  | decrement f m ht => exact ⟨L, h.stay rfl rfl rfl fun _ => rfl⟩
  | register f ht =>
    have hp : s.place f = .registering t := by
      rw [hst.current (t := t) (f := f) (by simp [ht, Doing.current]), ht]
      rfl
    exact ⟨L, h.stay_fiber rfl rfl rfl rfl (by rw [hp]; rfl)⟩
  | exit f ht =>
    have hp : s.place f = .exiting t := by
      rw [hst.current (t := t) (f := f) (by simp [ht, Doing.current]), ht]
      rfl
    exact ⟨L, h.stay_fiber rfl rfl rfl rfl (by rw [hp]; rfl)⟩

end Lists

/-! ## Nobody is left behind -/

section Drained

/-- Work on the lists by thread `t` leaves the heads of other threads alone, and those of the
mutexes in `keep`. -/
structure HeadWork (s s' : WakeState F T M C) (t : T) (keep : MutexId F M → Prop) : Prop where
  thread : ∀ t', t' ≠ t → s'.head (.thread t') = s.head (.thread t')
  mutex : ∀ m, keep m → s'.head (.mutex m) = s.head (.mutex m)

theorem headWork_splice (s : WakeState F T M C) (i : WakeList F T M C) (t : T) (l : F)
    (hi : ∀ t', i ≠ .thread t') :
    HeadWork s (s.spliceList i t l) t fun m => i ≠ .mutex m := by
  constructor
  · intro t' ht
    show Function.update (Function.update s.head (.thread t) (s.head i)) i none (.thread t') = _
    rw [Function.update_of_ne (hi t').symm, Function.update_of_ne (by simpa using ht)]
  · intro m hm
    show Function.update (Function.update s.head (.thread t) (s.head i)) i none (.mutex m) = _
    rw [Function.update_of_ne (Ne.symm hm), Function.update_of_ne (by simp)]

theorem headWork_condPush (s : WakeState F T M C) (t : T) (k : CondId F M C) (f : F) (n : ℕ) :
    HeadWork s (s.condPush t k f n) t fun _ => True := by
  unfold WakeState.condPush
  split
  · constructor
    · intro t' _
      simp
    · intro m _
      simp
  · dsimp only
    split
    · exact ⟨fun _ _ => rfl, fun _ _ => rfl⟩
    · exact ⟨fun _ _ => rfl, fun _ _ => rfl⟩

theorem headWork_notifyAll (s : WakeState F T M C) (t : T) (k : CondId F M C) (n : ℕ) :
    HeadWork s (s.condNotifyAll t k n) t fun _ => True := by
  unfold WakeState.condNotifyAll
  split
  · exact ⟨fun _ _ => rfl, fun _ _ => rfl⟩
  · split
    · exact ⟨fun _ _ => rfl, fun _ _ => rfl⟩
    · next l _ =>
      have hw := headWork_splice s (.cond k) t l (by simp)
      exact ⟨hw.thread, fun m _ => hw.mutex m (by simp)⟩

theorem headWork_notifyOne (s : WakeState F T M C) (t : T) (k : CondId F M C) :
    HeadWork s (s.condNotifyOne t k) t fun _ => True := by
  unfold WakeState.condNotifyOne
  split
  · exact ⟨fun _ _ => rfl, fun _ _ => rfl⟩
  · constructor
    · intro t' ht
      simp [ht]
    · intro m _
      simp

theorem headWork_wakeSleepers (s : WakeState F T M C) (t : T) (m : MutexId F M) :
    HeadWork s (s.wakeSleepers t m) t fun m' => m' ≠ m := by
  unfold WakeState.wakeSleepers
  split
  · next l _ _ =>
    have hw := headWork_splice s (.mutex m) t l (by simp)
    exact ⟨hw.thread, fun m' hm => hw.mutex m' (by simpa using Ne.symm hm)⟩
  · exact ⟨fun _ _ => rfl, fun _ _ => rfl⟩

omit [DecidableEq F] [DecidableEq T] [DecidableEq M] [DecidableEq C] in
theorem HeadWork.refl (t : T) : HeadWork s s t fun _ => True :=
  ⟨fun _ _ => rfl, fun _ _ => rfl⟩

/-- After `wake_sleepers` the list of the mutex is empty. -/
theorem Lists.head_wakeSleepers {L : WakeList F T M C → List F} (h : Lists s L)
    (t : T) (m : MutexId F M) : (s.wakeSleepers t m).head (.mutex m) = none := by
  unfold WakeState.wakeSleepers
  split
  · exact Function.update_self _ _ _
  · next hno =>
    apply (h.family.seg (.mutex m)).head_eq_none_iff.mpr
    rw [← List.getLast?_eq_none_iff, ← h.tail m]
    cases ht : s.tail m with
    | none => rfl
    | some l =>
      cases hw : s.head (.mutex m) with
      | some f => exact absurd ht (hno f l hw)
      | none =>
        have hnil := (h.family.seg (.mutex m)).head_eq_none_iff.mp hw
        rw [h.tail m, hnil] at ht
        exact absurd ht (by simp)

omit [DecidableEq F] [DecidableEq M] [DecidableEq C] in
/-- A step of thread `t` that keeps the heads of the mutexes. -/
theorem Drained.frame (h : Drained s) (hdoing : s'.doing = Function.update s.doing t d)
    (hnest : ∀ t', t' ≠ t → s'.nest t' = s.nest t')
    (howner : ∀ m, s'.owner m = none → s.owner m = none) (hw : HeadWork s s' t fun _ => True)
    (hidle : d ≠ .idle) (hrel : d.releasing = none) : Drained s' := by
  constructor
  · intro t' ht'
    rw [hdoing] at ht'
    by_cases ht : t' = t
    · rw [ht, Function.update_self] at ht'
      exact absurd ht' hidle
    · rw [Function.update_of_ne ht] at ht'
      rw [hw.thread t' ht, hnest t' ht]
      exact h.idle t' ht'
  · intro t' m hm
    rw [hdoing] at hm
    by_cases ht : t' = t
    · rw [ht, Function.update_self, hrel] at hm
      exact absurd hm (by simp)
    · rw [Function.update_of_ne ht] at hm
      rw [hw.mutex m trivial]
      exact h.releasing t' m hm
  · intro m hm
    rw [hw.mutex m trivial]
    exact h.free m (howner m hm)

omit [DecidableEq F] [DecidableEq T] [DecidableEq M] [DecidableEq C] in
theorem Doing.access_of_releasing {m : MutexId F M} (h : d.releasing = some m) :
    d.access = some m := by
  unfold Doing.releasing at h
  split at h
  · exact h
  · exact h
  · exact absurd h (by simp)

omit [DecidableEq C] in
/-- The end of an `unlock`. -/
theorem Drained.release (h : Drained s) {m₀ : MutexId F M}
    (hdoing : s'.doing = Function.update s.doing t d) (hnest : s'.nest = s.nest)
    (howner : s'.owner = Function.update s.owner m₀ none) (hhead : s'.head = s.head)
    (hm₀ : (s.doing t).releasing = some m₀) (hidle : d ≠ .idle) (hrel : d.releasing = none) :
    Drained s' := by
  constructor
  · intro t' ht'
    rw [hdoing] at ht'
    by_cases ht : t' = t
    · rw [ht, Function.update_self] at ht'
      exact absurd ht' hidle
    · rw [Function.update_of_ne ht] at ht'
      rw [hhead, hnest]
      exact h.idle t' ht'
  · intro t' m hm
    rw [hdoing] at hm
    by_cases ht : t' = t
    · rw [ht, Function.update_self, hrel] at hm
      exact absurd hm (by simp)
    · rw [Function.update_of_ne ht] at hm
      rw [hhead]
      exact h.releasing t' m hm
  · intro m hm
    rw [hhead]
    by_cases hmm : m = m₀
    · rw [hmm]
      exact h.releasing t m₀ hm₀
    · rw [howner, Function.update_of_ne hmm] at hm
      exact h.free m hm

omit [DecidableEq F] [DecidableEq M] [DecidableEq C] in
/-- A step of thread `t` that leaves all heads alone. -/
theorem Drained.frame_quiet (h : Drained s) (hdoing : s'.doing = Function.update s.doing t d)
    (hnest : s'.nest = s.nest) (howner : ∀ m, s'.owner m = none → s.owner m = none)
    (hhead : s'.head = s.head) (hidle : d ≠ .idle) (hrel : d.releasing = none) : Drained s' :=
  h.frame hdoing (fun _ _ => by rw [hnest]) howner
    ⟨fun _ _ => by rw [hhead], fun _ _ => by rw [hhead]⟩ hidle hrel

/-- A fiber that puts itself on the list of a mutex is in transit to it, so the mutex is held and
nobody is about to release it. -/
theorem Drained.push [Fintype T] (h : Drained s) (hac : Account s) {f : F} {c : Call F M}
    (ht : s.doing t = .running f (.push c)) :
    Drained ((s.sleepTillWoken t (c.mutex f) f).setDoing t (.running f (.switchMutex c))) := by
  have hacc : (s.doing t).access = some (c.mutex f) := by rw [ht]; rfl
  have hdoing : ∀ t', t' ≠ t → ((s.sleepTillWoken t (c.mutex f) f).setDoing t
      (.running f (.switchMutex c))).doing t' = s.doing t' :=
    fun t' htt => Function.update_of_ne htt _ _
  have hmutex : ∀ m, m ≠ c.mutex f →
      (s.sleepTillWoken t (c.mutex f) f).head (.mutex m) = s.head (.mutex m) := by
    intro m hm
    simp [hm]
  constructor
  · intro t' ht'
    by_cases htt : t' = t
    · subst htt
      simp at ht'
    · rw [hdoing t' htt] at ht'
      have hi := h.idle t' ht'
      simpa using hi
  · intro t' m hm
    by_cases htt : t' = t
    · subst htt
      simp [Doing.releasing] at hm
    · rw [hdoing t' htt] at hm
      have hne : m ≠ c.mutex f := by
        rintro rfl
        exact htt (hac.alone _ t' t (Doing.access_of_releasing hm) hacc)
      show (s.sleepTillWoken t (c.mutex f) f).head (.mutex m) = none
      rw [hmutex m hne]
      exact h.releasing t' m hm
  · intro m hm
    have hne : m ≠ c.mutex f := by
      rintro rfl
      exact hac.owner_of_transit (Doing.transit_of_access hacc) hm
    show (s.sleepTillWoken t (c.mutex f) f).head (.mutex m) = none
    rw [hmutex m hne]
    exact h.free m hm

/-- `wake_sleepers` empties the list that the `unlock` goes on to release. -/
theorem Drained.wake (h : Drained s) {L : WakeList F T M C → List F} (hL : Lists s L)
    {k : UnlockStep → Doing F M C} {m : MutexId F M} (hk : Unlocker k m) :
    Drained ((s.wakeSleepers t m).setDoing t (k .release)) := by
  have hl := listWork_wakeSleepers s t m
  have hw := headWork_wakeSleepers s t m
  have hempty := hL.head_wakeSleepers t m
  have hmutex : ∀ m', s.head (.mutex m') = none →
      (s.wakeSleepers t m).head (.mutex m') = none := by
    intro m' hm'
    by_cases hmm : m' = m
    · rw [hmm]
      exact hempty
    · rw [hw.mutex m' hmm]
      exact hm'
  constructor
  · intro t' ht'
    rw [hl.setDoing t] at ht'
    by_cases htt : t' = t
    · subst htt
      rw [Function.update_self] at ht'
      cases hk <;> exact absurd ht' (by simp)
    · rw [Function.update_of_ne htt] at ht'
      show (s.wakeSleepers t m).head (.thread t') = none ∧ (s.wakeSleepers t m).nest t' = []
      rw [hw.thread t' htt, hl.nest]
      exact h.idle t' ht'
  · intro t' m' hm'
    rw [hl.setDoing t] at hm'
    by_cases htt : t' = t
    · subst htt
      rw [Function.update_self] at hm'
      have hmm : m' = m := by
        cases hk <;> exact (Option.some.inj hm').symm
      rw [hmm]
      exact hempty
    · rw [Function.update_of_ne htt] at hm'
      exact hmutex m' (h.releasing t' m' hm')
  · intro m' hm'
    apply hmutex
    apply h.free m'
    rw [← hl.owner]
    exact hm'

theorem Drained.step [Fintype T] (hinv : WakeInv s) (hm : Moves s t s') : Drained s' := by
  have h := hinv.drained
  obtain ⟨L, hL⟩ := hinv.lists
  have howner : ∀ m, s.owner m = none → s.owner m = none := fun _ ho => ho
  cases hm with
  | fire f ht hf =>
    exact h.frame rfl (fun _ _ => rfl) howner
      ⟨fun t' ht' => by simp [ht'], fun m _ => by simp⟩ (by simp) rfl
  | start f ht hf =>
    exact h.frame rfl (fun t' ht' => by simp [ht']) howner
      ⟨fun t' ht' => by simp [ht'], fun m _ => by simp⟩ (by simp) rfl
  | resume f ht hw =>
    refine h.frame rfl (fun _ _ => rfl) howner
      ⟨fun t' ht' => by simp [ht'], fun m _ => by simp⟩ (by simp) ?_
    cases s.context f <;> rfl
  | returnIdle ht hw hn =>
    constructor
    · intro t' ht'
      by_cases htt : t' = t
      · subst htt
        exact ⟨hw, hn⟩
      · simp only [setDoing, Function.update_of_ne htt] at ht'
        exact h.idle t' ht'
    · intro t' m hm
      by_cases htt : t' = t
      · subst htt
        simp [Doing.releasing] at hm
      · simp only [setDoing, Function.update_of_ne htt] at hm
        exact h.releasing t' m hm
    · exact h.free
  | returnTo g nest ht hn =>
    exact h.frame rfl (fun t' ht' => by simp [ht']) howner ⟨fun _ _ => rfl, fun _ _ => rfl⟩
      (by simp) rfl
  | enter f at_ at_' ht hat =>
    refine h.frame_quiet rfl rfl howner rfl (by simp) ?_
    cases hat <;> rfl
  | notifyOne f m c ht ho =>
    have hl := listWork_notifyOne s t (.user m c)
    have hdoing : (s.condNotifyOne t (.user m c)).doing =
        Function.update s.doing t (.running f .user) := by
      rw [hl.doing, ← ht, Function.update_eq_self]
    exact h.frame hdoing (fun _ _ => by rw [hl.nest]) (fun _ => by rw [hl.owner]; exact id)
      (headWork_notifyOne s t _) (by simp) rfl
  | notifyAll f m c n ht ho hw =>
    have hl := listWork_notifyAll s t (.user m c) n
    have hdoing : (s.condNotifyAll t (.user m c) n).doing =
        Function.update s.doing t (.running f .user) := by
      rw [hl.doing, ← ht, Function.update_eq_self]
    exact h.frame hdoing (fun _ _ => by rw [hl.nest]) (fun _ => by rw [hl.owner]; exact id)
      (headWork_notifyAll s t _ n) (by simp) rfl
  | acquire f c ht hs =>
    refine h.frame_quiet rfl rfl ?_ rfl (by simp) ?_
    · intro m hm
      by_cases hmm : m = c.mutex f
      · rw [hmm] at hm
        simp at hm
      · simpa [hmm] using hm
    · cases c <;> rfl
  | sleep f c ht hs => exact h.frame_quiet rfl rfl howner rfl (by simp) rfl
  | contend f c ht hs => exact h.frame_quiet rfl rfl howner rfl (by simp) rfl
  | backOff f c ht => exact h.frame_quiet rfl rfl howner rfl (by simp) rfl
  | push f c ht => exact h.push hinv.account ht
  | condPush f k n ht hw =>
    have hl := listWork_condPush s t k f n
    have hh := headWork_condPush s t k f n
    exact h.frame (hl.setDoing t _) (fun t' _ => congrFun hl.nest t')
      (fun m hm => by rw [← hl.owner]; exact hm) ⟨hh.thread, hh.mutex⟩ (by simp) rfl
  | exitNotify f n ht hw =>
    have hl := listWork_notifyAll { s with running := Function.update s.running f false } t
      (.stop f) n
    have hh := headWork_notifyAll { s with running := Function.update s.running f false } t
      (.stop f) n
    exact h.frame (hl.setDoing t _) (fun t' _ => congrFun hl.nest t')
      (fun m hm => by rw [← show _ = s.owner from hl.owner]; exact hm) ⟨hh.thread, hh.mutex⟩
      (by simp) rfl
  | grab k m hk ht hs =>
    refine h.frame_quiet rfl rfl howner rfl ?_ ?_
    · cases hk <;> simp
    · cases hk <;> rfl
  | wake k m hk ht => exact h.wake hL hk
  | release f c joined ht hs hj =>
    refine h.release rfl rfl rfl rfl (by rw [ht]; rfl) (by simp) ?_
    cases c <;> rfl
  | releaseParent f m ht hs =>
    exact h.release rfl rfl rfl rfl (by rw [ht]; rfl) (by simp) rfl
  | switchMutex f c ht => exact h.frame_quiet rfl rfl howner rfl (by simp) rfl
  | switchCond f k ht =>
    refine h.frame_quiet rfl rfl ?_ rfl (by simp) rfl
    intro m hm
    by_cases hmm : m = k.mutex
    · rw [hmm] at hm
      simp at hm
    · simpa [hmm] using hm
  | switchExternal f ht => exact h.frame_quiet rfl rfl howner rfl (by simp) rfl
  | switchExit f ht => exact h.frame_quiet rfl rfl howner rfl (by simp) rfl
  | decrement f m ht => exact h.frame_quiet rfl rfl howner rfl (by simp) rfl
  | register f ht => exact h.frame_quiet rfl rfl howner rfl (by simp) rfl
  | exit f ht => exact h.frame_quiet rfl rfl howner rfl (by simp) rfl

end Drained

/-! ## Suspended fibers -/

section Reachable

variable [Fintype T]

theorem wakeInv_init : WakeInv (wakeMachine F T M C).init where
  account :=
    { state_eq := fun m => by
        have h0 : count (Doing.share m) (fun _ : T => (Doing.idle : Doing F M C)) = 0 :=
          count_eq_zero fun _ => rfl
        show (0 : ℤ) = 0 + count (Doing.share m) fun _ => Doing.idle
        rw [h0]
        rfl
      free := fun _ _ => rfl
      alone := fun m t t' ht => absurd ht (by simp [wakeMachine, Doing.access, Doing.transit]) }
  holds := fun t m p hp => absurd hp (by simp [wakeMachine, Doing.holding])
  onStacks :=
    { place_iff := fun t f p hp => by
        simp only [wakeMachine, Doing.occupies, Doing.current, List.not_mem_nil, if_false,
          reduceCtorEq, iff_false]
        rintro rfl
        exact absurd hp (by simp [Place.thread])
      nodup := fun t => by simp [wakeMachine, Doing.current] }
  books :=
    { events := fun f => by simp [wakeMachine]
      off := fun f => by simp [wakeMachine]
      exiting := fun f => by simp [wakeMachine] }
  lists := by
    refine ⟨fun _ => [], ⟨fun _ => rfl, fun _ => List.nodup_nil, fun i f => ?_⟩, fun _ => rfl⟩
    simp [wakeMachine, Place.list]
  drained :=
    { idle := fun _ _ => ⟨rfl, rfl⟩
      releasing := fun _ _ _ => rfl
      free := fun _ _ => rfl }

/-- Every move keeps the invariant. -/
theorem WakeInv.step (h : WakeInv s) (hm : Moves s t s') : WakeInv s' where
  account := h.account.step h.holds hm
  holds := h.holds.step h.account h.onStacks hm
  onStacks := Stacks.step h hm
  books := Books.step h hm
  lists := Lists.step h hm
  drained := Drained.step h hm

theorem wakeInv_of_reachable {P : WakeState F T M C → WakeAction F T M C → Prop}
    (hs : (wakeMachine F T M C).Reachable P s) : WakeInv s :=
  hs.invariant wakeInv_init fun _ _ h _ he => h.step (moves_of_enabled he)

theorem WakeInv.onList_iff (h : WakeInv s) {i : WakeList F T M C} {f : F} :
    s.onList i f ↔ (s.place f).list = some i := by
  obtain ⟨L, hL⟩ := h.lists
  exact hL.family.onList_iff

theorem WakeInv.registering_iff (h : WakeInv s) {f : F} :
    s.registering t f ↔ s.place f = .registering t := by
  constructor
  · intro ht
    have hd : s.doing t = .handle f .register := ht
    rw [h.onStacks.current (t := t) (f := f) (by simp [hd, Doing.current]), hd]
    rfl
  · intro hp
    have hth : (s.place f).thread = some t := by rw [hp]; rfl
    rcases h.onStacks.of_thread hth with ⟨-, hq⟩ | ⟨hc, hq⟩
    · rw [hp] at hq
      exact absurd hq (by simp)
    · rw [hp] at hq
      rcases Doing.of_current hc with ⟨at_, ht⟩ | ht | ht
      · rw [ht] at hq
        cases at_ <;> exact absurd hq (by simp [Doing.place, FiberStep.place])
      · exact ht
      · rw [ht] at hq
        exact absurd hq (by simp [Doing.place])

/-- A fiber at a place of its own, off the threads, is suspended. -/
theorem WakeInv.suspended (h : WakeInv s) {f : F} (hth : (s.place f).thread = none)
    (ho : s.place f ≠ .off) : s.suspended f := by
  constructor
  · apply h.books.live ho
    intro t ht
    rw [ht] at hth
    exact absurd hth (by simp [Place.thread])
  · intro t ht
    rw [h.onStacks.thread_of_onStack ht] at hth
    exact absurd hth (by simp)

/-- A fiber that runs is live. -/
theorem WakeInv.life_of_running (h : WakeInv s) {f : F} {at_ : FiberStep F M C}
    (ht : s.doing t = .running f at_) : s.life f = .live := by
  have hp := h.onStacks.running ht
  have hq := Place.quiet_ne (FiberStep.quiet_place (M := M) (C := C) t f at_)
  apply h.books.live
  · rw [hp]
    exact hq.1
  · intro t'
    rw [hp]
    exact hq.2.2 t'

/-- The parent is not done with a fiber that it has in its hands. -/
theorem WakeInv.life_of_exit (h : WakeInv s) {f : F}
    (ht : s.doing t = .handle f .exit) : s.life f = .ended := by
  apply (h.books.exiting f).mp
  refine ⟨t, ?_⟩
  rw [h.onStacks.current (t := t) (f := f) (by simp [ht, Doing.current]), ht]
  rfl

/-- Where a suspended fiber can be. -/
theorem WakeInv.place_of_suspended (h : WakeInv s) {f : F} (hf : s.suspended f) :
    (∃ i, s.place f = .listed i) ∨ s.place f = .external ∨ ∃ t, s.place f = .registering t := by
  obtain ⟨hlive, hoff⟩ := hf
  cases hp : s.place f with
  | listed i => exact .inl ⟨i, rfl⟩
  | external => exact .inr (.inl rfl)
  | registering t => exact .inr (.inr ⟨t, rfl⟩)
  | off =>
    rcases (h.books.off f).mp hp with hl | hl
    · rw [hlive] at hl
      exact absurd hl (by simp)
    · rw [hlive] at hl
      exact absurd hl (by simp)
  | exiting t =>
    have hl := (h.books.exiting f).mp ⟨t, hp⟩
    rw [hlive] at hl
    exact absurd hl (by simp)
  | switching t i =>
    obtain ⟨at_, ht, -⟩ := h.onStacks.of_switching hp
    exact absurd (Or.inl ⟨at_, ht⟩) (hoff t)
  | executing t =>
    -- running, or a parent
    have hth : (s.place f).thread = some t := by rw [hp]; rfl
    rcases h.onStacks.of_thread hth with ⟨hn, -⟩ | ⟨hc, hq⟩
    · exact absurd (Or.inr hn) (hoff t)
    · rcases Doing.of_current hc with ht | ht | ht
      · exact absurd (Or.inl ht) (hoff t)
      · rw [hp, ht] at hq
        exact absurd hq (by simp [Doing.place])
      · rw [hp, ht] at hq
        exact absurd hq (by simp [Doing.place])

/-- A suspended fiber waits in exactly one way. -/
theorem WakeInv.waits (h : WakeInv s) {f : F} (hf : s.suspended f) : s.waits f := by
  have hev := h.books.events f
  rcases h.place_of_suspended hf with ⟨i, hp⟩ | hp | ⟨t, hp⟩
  · left
    refine ⟨⟨i, h.onList_iff.mpr (by rw [hp]; rfl), fun j hj => ?_⟩, ?_, fun t ht => ?_⟩
    · have hj' : (s.place f).list = some j := h.onList_iff.mp hj
      rw [hp] at hj'
      exact (Option.some.inj hj').symm
    · rw [hev, hp, if_neg (by simp)]
    · rw [h.registering_iff, hp] at ht
      exact absurd ht (by simp)
  · right
    left
    refine ⟨fun i hi => ?_, ?_, fun t ht => ?_⟩
    · rw [h.onList_iff, hp] at hi
      exact absurd hi (by simp [Place.list])
    · rw [hev, hp, if_pos rfl]
    · rw [h.registering_iff, hp] at ht
      exact absurd ht (by simp)
  · right
    right
    refine ⟨fun i hi => ?_, ?_, ⟨t, h.registering_iff.mpr hp, fun t' ht' => ?_⟩⟩
    · rw [h.onList_iff, hp] at hi
      exact absurd hi (by simp [Place.list])
    · rw [hev, hp, if_neg (by simp)]
    · have hp' : s.place f = .registering t' := h.registering_iff.mp ht'
      rw [hp] at hp'
      exact (Place.registering.inj hp').symm

/-- A fiber on a list is suspended, or about to switch away. -/
theorem WakeInv.of_onList (h : WakeInv s) {i : WakeList F T M C} {f : F} (hf : s.onList i f) :
    s.suspended f ∨ (∃ t, s.switches t f) ∧ ∀ t, i ≠ .thread t := by
  rcases Place.of_list (h.onList_iff.mp hf) with hp | ⟨t, hp⟩
  · left
    exact h.suspended (by rw [hp]; rfl) (by rw [hp]; simp)
  · right
    obtain ⟨at_, ht, hat⟩ := h.onStacks.of_switching hp
    rcases FiberStep.of_place hat with ⟨c, rfl, rfl⟩ | ⟨k, rfl, rfl⟩
    · exact ⟨⟨t, .inl ⟨c, ht⟩⟩, by simp⟩
    · exact ⟨⟨t, .inr ⟨k, ht⟩⟩, by simp⟩

/-- Wake lists partition the suspended fibers, whatever the interleaving. Every head enters a
finite list; no fiber is on two lists; a suspended fiber is on exactly one list, or waits for
exactly one event; what a thread or an event is about to resume has switched away, and a fiber
on another list has done so or is about to; and the lists of idle threads and of free mutexes are
empty, so no fiber is left behind there. -/
theorem wake_lists_partition (hs : (wakeMachine F T M C).Reachable Machine.anyStep s) :
    (∀ i, ∃ xs : List F, Seg s.nextWake (s.head i) xs none ∧ xs.Nodup) ∧
    (∀ i j f, s.onList i f → s.onList j f → i = j) ∧
    (∀ f, s.suspended f → s.waits f) ∧
    (∀ t f, s.onList (.thread t) f → s.suspended f) ∧
    (∀ f, s.events f ≠ 0 → s.suspended f) ∧
    (∀ i f, s.onList i f → s.suspended f ∨ ∃ t, s.switches t f) ∧
    (∀ t, s.doing t = .idle → s.head (.thread t) = none) ∧
    (∀ m, s.state m = 0 → s.head (.mutex m) = none) := by
  have h := wakeInv_of_reachable hs
  obtain ⟨L, hL⟩ := h.lists
  refine ⟨fun i => ⟨L i, hL.family.seg i, hL.family.nodup i⟩, ?_, fun f => h.waits, ?_, ?_, ?_,
    fun t ht => (h.drained.idle t ht).1,
    fun m hm => h.drained.free m (h.account.owner_eq_none hm)⟩
  · intro i j f hi hj
    rw [h.onList_iff] at hi hj
    exact Option.some.inj (hi.symm.trans hj)
  · intro t f hf
    rcases h.of_onList hf with hsus | ⟨-, hne⟩
    · exact hsus
    · exact absurd rfl (hne t)
  · intro f hf
    have hp : s.place f = .external := by
      by_contra hp
      rw [h.books.events f, if_neg hp] at hf
      exact hf rfl
    exact h.suspended (by rw [hp]; rfl) (by rw [hp]; simp)
  · intro i f hf
    rcases h.of_onList hf with hsus | ⟨hsw, -⟩
    · exact .inl hsus
    · exact .inr hsw

end Reachable

/-- One fiber waits on a condition; the other one takes the mutex and notifies it. -/
def notifiedRun : List (WakeAction Bool Bool Unit Unit) :=
  [.start false false, .resume false, .lock false (), .step false 0, .wait false () (),
    .step false 0, .step false 0, .step false 0, .step false 0, .step false 0, .return_ false,
    .start true true, .resume true, .lock true (), .step true 0, .notifyOne true () ()]

/-- A run in which a fiber, on the list of the thread that notified it, waits there alone. -/
theorem wake_lists_partition_notified : ∃ s : WakeState Bool Bool Unit Unit,
    s.onList (.thread true) false ∧ s.suspended false ∧ s.waits false := by
  have hrun : ((wakeMachine Bool Bool Unit Unit).replay Machine.anyStep notifiedRun
      (wakeMachine Bool Bool Unit Unit).init).any
        (fun s => decide (s.head (.thread true) = some false)) = true := by
    decide +kernel
  obtain ⟨s, hs, hp⟩ := Machine.reachable_of_replay hrun
  rw [decide_eq_true_eq] at hp
  have hlist : s.onList (.thread true) false := ⟨[], s.nextWake false, hp, rfl⟩
  have hall := wake_lists_partition hs
  have hsus := hall.2.2.2.1 true false hlist
  exact ⟨s, hlist, hsus, hall.2.2.1 false hsus⟩

end Anon.Fiber.Wake
