import Anon.IoDispatch.Timer
import Anon.Lib.Lock

/-!
# Every timer task has its place

A task that was scheduled is in exactly one place: in the map, among the ready tasks of a thread
that handles an expiration, executed, or removed. While tasks are in the map, something is on its
way to them.

* `Moves`: what a step can do.
* `Counted`: the places of a task.
* `Covered`: what is on its way to the map.
* `timer_holds`: both, in every run.
-/

namespace Anon.IoDispatch

open TimerState

namespace Timer

variable {A : Type} [Fintype A] [DecidableEq A] {s s' : TimerState A} {x : TimerAction A} {a : A}

/-! ## What a step can do -/

/-- One step of the machine, with what its guard gives and the state it leads to. -/
inductive Moves (s : TimerState A) : TimerAction A → TimerState A → Prop
  | schedule (a : A) (id : ℕ) (when_ : Timespec) (ha : s.pc a = .user)
      (hm : s.taskMutex = none) :
      Moves s (.schedule a id when_)
        ({ s with
          taskMutex := some a
          taskMap := s.taskMap.insert when_ id
          scheduled := id :: s.scheduled }.setPc a (.inserted when_))
  | arm (a : A) (when_ : Timespec) (ha : s.pc a = .inserted when_) :
      Moves s (.arm a) (s.armNext a when_)
  | removeTrue (a : A) (task : ScheduledTask) (m : Multimap Timespec ℕ) (ha : s.pc a = .user)
      (hm : s.taskMutex = none) (hr : removeTask task s.taskMap = some m) :
      Moves s (.remove a task) { s with taskMap := m, removed := task.id :: s.removed }
  | removeFalse (a : A) (task : ScheduledTask) (hr : removeTask task s.taskMap = none) :
      Moves s (.remove a task) s
  | event (a : A) (ha : s.pc a = .user) (hr : s.readable = true) :
      Moves s (.event a) (s.setPc a .timerEvent)
  | readSome (a : A) (ha : s.pc a = .timerEvent) (hr : s.readable = true) :
      Moves s (.read a) ({ s with readable := false }.setPc a .hasRead)
  | readNone (a : A) (ha : s.pc a = .timerEvent) (hr : s.readable = false) :
      Moves s (.read a) (s.setPc a .user)
  | takeNow (a : A) (ha : s.pc a = .hasRead) : Moves s (.takeNow a) (s.setPc a (.hasNow s.clock))
  | lockTasks (a : A) (now : Timespec) (ha : s.pc a = .hasNow now) (hm : s.taskMutex = none) :
      Moves s (.lockTasks a) ({ s with taskMutex := some a }.setPc a (.popping now))
  | pop (a : A) (now : Timespec) (e : Timespec × ℕ) (rest : Multimap Timespec ℕ)
      (ha : s.pc a = .popping now) (hm : s.taskMap = e :: rest) (he : e.1 ≤ now) :
      Moves s (.pop a)
        { s with
          taskMap := rest
          readyTasks := Function.update s.readyTasks a (s.readyTasks a ++ [e.2]) }
  | rearm (a : A) (now : Timespec) (ha : s.pc a = .popping now) :
      Moves s (.rearm a) (s.rearmNext a)
  | exec (a : A) (id : ℕ) (rest : List ℕ) (ha : s.pc a = .user)
      (hr : s.readyTasks a = id :: rest) :
      Moves s (.exec a)
        { s with
          readyTasks := Function.update s.readyTasks a rest
          executed := id :: s.executed }
  | expire (when_ : Timespec) (ha : s.armed = some when_) (hc : when_ ≤ s.clock) :
      Moves s .expire { s with armed := none, readable := true }
  | tick (clock : Timespec) : Moves s (.tick clock) { s with clock := clock }

omit [Fintype A] in
/-- Every enabled action is one of the moves. -/
theorem moves_of_enabled (h : s.enabled x) : Moves s x (s.next x) := by
  cases x with
  | schedule a id when_ => exact .schedule a id when_ h.1 h.2
  | event a => exact .event a h.1 h.2.2
  | takeNow a => exact .takeNow a h
  | tick clock => exact .tick clock
  | arm a =>
    simp only [TimerState.enabled] at h
    split at h
    · next when_ ha =>
      simp only [TimerState.next, ha]
      exact .arm a when_ ha
    · exact h.elim
  | remove a task =>
    simp only [TimerState.next]
    split
    · next m hr => exact .removeTrue a task m h.1 h.2 hr
    · next hr => exact .removeFalse a task hr
  | read a =>
    simp only [TimerState.next]
    split
    · next hr => exact .readSome a h hr
    · next hr => exact .readNone a h (by simpa using hr)
  | lockTasks a =>
    simp only [TimerState.enabled] at h
    split at h
    · next now ha =>
      simp only [TimerState.next, ha]
      exact .lockTasks a now ha h
    · exact h.elim
  | pop a =>
    simp only [TimerState.enabled] at h
    split at h
    · next now e rest ha hm =>
      simp only [TimerState.next, hm]
      exact .pop a now e rest ha hm h
    · exact h.elim
  | rearm a =>
    simp only [TimerState.enabled] at h
    split at h
    · next now ha hm => exact .rearm a now ha
    · next now e rest ha hm => exact .rearm a now ha
    · exact h.elim
  | exec a =>
    obtain ⟨ha, hr⟩ := h
    cases htasks : s.readyTasks a with
    | nil => exact absurd htasks hr
    | cons id rest =>
      simp only [TimerState.next, htasks]
      exact .exec a id rest ha htasks
  | expire =>
    simp only [TimerState.enabled] at h
    split at h
    · next when_ ha => exact .expire when_ ha h
    · exact h.elim

/-! ## Removing a task -/

/-- The loop of `remove_task` erases one entry, and that is a task with the given id. -/
theorem removeFrom_eq_some {task : ScheduledTask} {m m' : Multimap Timespec ℕ}
    (h : removeFrom task m = some m') :
    ∃ e : Timespec × ℕ, e.2 = task.id ∧ m.Perm (e :: m') ∧ m'.Sublist m := by
  induction m generalizing m' with
  | nil => exact absurd h (by simp [removeFrom])
  | cons e rest ih =>
    unfold removeFrom at h
    split at h
    · next he =>
      rw [← Option.some.inj h]
      exact ⟨e, he, List.Perm.refl _, List.sublist_cons_self e rest⟩
    · split at h
      · obtain ⟨m'', hm'', rfl⟩ := Option.map_eq_some_iff.mp h
        obtain ⟨e', he', hperm, hsub⟩ := ih hm''
        exact ⟨e', he', (hperm.cons e).trans (List.Perm.swap e' e m''), hsub.cons_cons e⟩
      · exact absurd h (by simp)

theorem removeTask_eq_some {task : ScheduledTask} {m m' : Multimap Timespec ℕ}
    (h : removeTask task m = some m') :
    ∃ e : Timespec × ℕ, e.2 = task.id ∧ m.Perm (e :: m') ∧ m'.Sublist m := by
  unfold removeTask at h
  obtain ⟨m'', hm'', rfl⟩ := Option.map_eq_some_iff.mp h
  obtain ⟨e, he, hperm, hsub⟩ := removeFrom_eq_some hm''
  have hsplit := Multimap.before_append_find task.when_ m
  refine ⟨e, he, ?_, ?_⟩
  · have happend := hperm.append_left (m.before task.when_)
    rw [hsplit] at happend
    exact happend.trans List.perm_middle
  · have happend := hsub.append_left (m.before task.when_)
    rwa [hsplit] at happend

/-! ## The places of a task -/

/-- How often the task `id` is in the map. -/
def inMap (m : Multimap Timespec ℕ) (id : ℕ) : ℤ := (m.map Prod.snd).count id

/-- How often it is among the ready tasks of the threads. -/
def inReady (ready : A → List ℕ) (id : ℕ) : ℤ := count (fun l => (l.count id : ℤ)) ready

/-- How often it is in any place. -/
def places (s : TimerState A) (id : ℕ) : ℤ :=
  inMap s.taskMap id + inReady s.readyTasks id + s.executed.count id + s.removed.count id

/-- A task that was scheduled is in one place, and no other task is in any. -/
def Counted (s : TimerState A) : Prop :=
  ∀ id, places s id = if id ∈ s.scheduled then 1 else 0

/-- The ids of the tasks are unique, and their times are points in time the timer can be set to. -/
def Valid (s : TimerState A) : TimerAction A → Prop
  | .schedule _ id when_ => id ∉ s.scheduled ∧ when_.Normal ∧ when_ ≠ Timespec.zero
  | _ => True

instance (s : TimerState A) (x : TimerAction A) : Decidable (Valid s x) :=
  match x with
  | .schedule _ _ _ => inferInstanceAs (Decidable (_ ∧ _ ∧ _))
  | .arm _ | .remove _ _ | .event _ | .read _ | .takeNow _ | .lockTasks _ | .pop _ | .rearm _
  | .exec _ | .expire | .tick _ => isTrue trivial

/-- One if the two ids are the same. -/
def same (id id' : ℕ) : ℤ := if id = id' then 1 else 0

theorem count_cons_same (id id' : ℕ) (l : List ℕ) :
    ((id :: l).count id' : ℤ) = l.count id' + same id id' := by
  rw [List.count_cons, same]
  by_cases h : id = id' <;> simp [h]

theorem inMap_of_perm {m m' : Multimap Timespec ℕ} {e : Timespec × ℕ} (h : m.Perm (e :: m'))
    (id : ℕ) : inMap m id = inMap m' id + same e.2 id := by
  rw [inMap, (h.map Prod.snd).count_eq, List.map_cons, count_cons_same, inMap]

/-- A ready task that is added behind the others. -/
theorem inReady_append (ready : A → List ℕ) (id id' : ℕ) :
    inReady (Function.update ready a (ready a ++ [id])) id' = inReady ready id' + same id id' := by
  have hone : (([id] : List ℕ).count id' : ℤ) = same id id' := by
    rw [count_cons_same, List.count_nil]
    exact zero_add _
  rw [inReady, count_update, List.count_append, Nat.cast_add, hone, inReady]
  omega

/-- The first ready task leaves. -/
theorem inReady_tail {ready : A → List ℕ} {id : ℕ} {rest : List ℕ} (hr : ready a = id :: rest)
    (id' : ℕ) : inReady (Function.update ready a rest) id' = inReady ready id' - same id id' := by
  rw [inReady, count_update, hr, count_cons_same, inReady]
  omega

omit [DecidableEq A] in
theorem Counted.schedule (h : Counted s) {id : ℕ} {when_ : Timespec} (hid : id ∉ s.scheduled)
    (hmap : s'.taskMap = s.taskMap.insert when_ id) (hready : s'.readyTasks = s.readyTasks)
    (hexecuted : s'.executed = s.executed) (hremoved : s'.removed = s.removed)
    (hscheduled : s'.scheduled = id :: s.scheduled) : Counted s' := by
  intro id'
  have hold := h id'
  have hin : inMap s'.taskMap id' = inMap s.taskMap id' + same id id' := by
    rw [hmap]
    exact inMap_of_perm (Multimap.perm_insert when_ id s.taskMap) id'
  have hplaces : places s' id' = places s id' + same id id' := by
    rw [places, hin, hready, hexecuted, hremoved, places]
    omega
  rw [hplaces, hold, hscheduled, same]
  by_cases hsame : id = id'
  · subst hsame
    rw [if_neg hid, if_pos rfl, if_pos List.mem_cons_self]
    rfl
  · rw [if_neg hsame, add_zero]
    refine if_congr ?_ rfl rfl
    rw [List.mem_cons, or_iff_right (Ne.symm hsame)]

omit [DecidableEq A] in
/-- A step that only moves a task from one place to another. -/
theorem Counted.frame (h : Counted s) (hscheduled : s'.scheduled = s.scheduled)
    (hplaces : ∀ id, places s' id = places s id) : Counted s' := by
  intro id
  rw [hplaces, hscheduled]
  exact h id

omit [Fintype A] in
/-- What `timerfd_settime` and the mutex do to the places: nothing. -/
theorem armNext_lists (when_ : Timespec) : (s.armNext a when_).taskMap = s.taskMap ∧
    (s.armNext a when_).readyTasks = s.readyTasks ∧ (s.armNext a when_).executed = s.executed ∧
    (s.armNext a when_).removed = s.removed ∧ (s.armNext a when_).scheduled = s.scheduled := by
  unfold armNext
  split
  · split <;> exact ⟨rfl, rfl, rfl, rfl, rfl⟩
  · exact ⟨rfl, rfl, rfl, rfl, rfl⟩

omit [Fintype A] in
theorem rearmNext_lists : (s.rearmNext a).taskMap = s.taskMap ∧
    (s.rearmNext a).readyTasks = s.readyTasks ∧ (s.rearmNext a).executed = s.executed ∧
    (s.rearmNext a).removed = s.removed ∧ (s.rearmNext a).scheduled = s.scheduled := by
  unfold rearmNext
  split <;> exact ⟨rfl, rfl, rfl, rfl, rfl⟩

omit [DecidableEq A] in
theorem places_congr (hmap : s'.taskMap = s.taskMap) (hready : s'.readyTasks = s.readyTasks)
    (hexecuted : s'.executed = s.executed) (hremoved : s'.removed = s.removed) (id : ℕ) :
    places s' id = places s id := by
  rw [places, hmap, hready, hexecuted, hremoved, places]

theorem Counted.step (h : Counted s) (hm : Moves s x s') (hv : Valid s x) : Counted s' := by
  cases hm with
  | schedule a id when_ ha hmutex => exact h.schedule hv.1 rfl rfl rfl rfl rfl
  | arm a when_ ha =>
    obtain ⟨hmap, hready, hexecuted, hremoved, hscheduled⟩ := armNext_lists (s := s) (a := a) when_
    exact h.frame hscheduled (places_congr hmap hready hexecuted hremoved)
  | rearm a now ha =>
    obtain ⟨hmap, hready, hexecuted, hremoved, hscheduled⟩ := rearmNext_lists (s := s) (a := a)
    exact h.frame hscheduled (places_congr hmap hready hexecuted hremoved)
  | removeTrue a task m ha hmutex hr =>
    refine h.frame rfl fun id => ?_
    obtain ⟨e, he, hperm, -⟩ := removeTask_eq_some hr
    show inMap m id + inReady s.readyTasks id + s.executed.count id +
      ((task.id :: s.removed).count id : ℤ) = places s id
    rw [places, inMap_of_perm hperm, he, count_cons_same]
    omega
  | pop a now e rest ha hmap he =>
    refine h.frame rfl fun id => ?_
    have hperm : s.taskMap.Perm (e :: rest) := by rw [hmap]
    show inMap rest id +
      inReady (Function.update s.readyTasks a (s.readyTasks a ++ [e.2])) id +
      s.executed.count id + s.removed.count id = places s id
    rw [places, inMap_of_perm hperm, inReady_append]
    omega
  | exec a id rest ha hr =>
    refine h.frame rfl fun id' => ?_
    show inMap s.taskMap id' + inReady (Function.update s.readyTasks a rest) id' +
      ((id :: s.executed).count id' : ℤ) + s.removed.count id' = places s id'
    rw [places, inReady_tail hr, count_cons_same]
    omega
  | _ => exact h.frame rfl fun _ => rfl

/-! ## Something is on its way -/

/-- The thread has read the timer and will look at the map. -/
def handles : TimerPc → Bool
  | .hasRead | .hasNow _ | .popping _ => true
  | _ => false

/-- The thread has locked `task_mutex_`. -/
def holdsMutex : TimerPc → Bool
  | .inserted _ | .popping _ => true
  | _ => false

/-- The timer is armed for no later than the first task, or it has expired, or a thread that has
read it will look at the map, or one that has inserted the first task will set it. -/
inductive Covered (s : TimerState A) : Prop
  | armed (when_ : Timespec) (ha : s.armed = some when_) (hle : ∀ e ∈ s.taskMap, when_ ≤ e.1)
  | readable (hr : s.readable = true)
  | handled (a : A) (ha : handles (s.pc a) = true)
  | inserted (a : A) (e : Timespec × ℕ) (rest : Multimap Timespec ℕ) (hm : s.taskMap = e :: rest)
      (ha : s.pc a = .inserted e.1)

/-- What holds of the map and its timer. -/
structure Timed (s : TimerState A) : Prop where
  mutex : Holds s.taskMutex holdsMutex s.pc
  sorted : s.taskMap.Sorted
  nonzero : ∀ e ∈ s.taskMap, e.1 ≠ Timespec.zero
  covered : s.taskMap ≠ [] → Covered s

omit [Fintype A] in
/-- A step of a thread that neither handles an expiration nor has inserted a task. -/
theorem Covered.frame (h : Covered s) {pc : TimerPc} (hmap : s'.taskMap = s.taskMap)
    (harmed : s'.armed = s.armed) (hreadable : s'.readable = s.readable)
    (hpc : s'.pc = Function.update s.pc a pc) (hhandles : handles (s.pc a) = false)
    (hinserted : ∀ when_, s.pc a ≠ .inserted when_) : Covered s' := by
  have hother : ∀ b, b ≠ a → s'.pc b = s.pc b := by
    intro b hb
    rw [hpc, Function.update_of_ne hb]
  cases h with
  | armed when_ ha hle => exact .armed when_ (harmed.trans ha) (hmap ▸ hle)
  | readable hr => exact .readable (hreadable.trans hr)
  | handled b hb =>
    have hba : b ≠ a := by
      rintro rfl
      rw [hhandles] at hb
      exact absurd hb Bool.false_ne_true
    exact .handled b (by rwa [hother b hba])
  | inserted b e rest hm hb =>
    have hba : b ≠ a := by
      rintro rfl
      exact hinserted _ hb
    exact .inserted b e rest (hmap.trans hm) ((hother b hba).trans hb)

omit [Fintype A] in
/-- A task is inserted: either it comes first, or the first task is the one from before. -/
theorem Timed.schedule (h : Timed s) {id : ℕ} {when_ : Timespec} (ha : s.pc a = .user)
    (hmutex : s.taskMutex = none) (hzero : when_ ≠ Timespec.zero) :
    Timed ({ s with
      taskMutex := some a
      taskMap := s.taskMap.insert when_ id
      scheduled := id :: s.scheduled }.setPc a (.inserted when_)) := by
  have hsorted := h.sorted.insert when_ id
  have hperm := Multimap.perm_insert when_ id s.taskMap
  refine ⟨?_, hsorted, ?_, fun _ => ?_⟩
  · exact h.mutex.step (by simp [LockStep, ha, holdsMutex, hmutex])
  · intro e he
    obtain rfl | he := List.mem_cons.mp (hperm.mem_iff.mp he)
    · exact hzero
    · exact h.nonzero e he
  · cases hnew : s.taskMap.insert when_ id with
    | nil =>
      rw [hnew] at hperm
      exact absurd hperm.length_eq (by simp)
    | cons e rest =>
      obtain hfirst | hold := Multimap.head?_insert when_ id s.taskMap
      · obtain rfl : e = (when_, id) := by simpa [hnew] using hfirst
        exact .inserted a _ rest rfl (by simp)
      · have hhead : s.taskMap.head? = some e := by rw [← hold, hnew, List.head?_cons]
        obtain ⟨tail, htail⟩ := List.head?_eq_some_iff.mp hhead
        cases h.covered (by rw [htail]; exact List.cons_ne_nil _ _) with
        | armed when' harmed hle =>
          refine .armed when' harmed fun e' he' => ?_
          have hfirst := hle e (by rw [htail]; exact List.mem_cons_self)
          rw [hnew] at hsorted
          exact hfirst.trans (hsorted.head_le he')
        | readable hr => exact .readable hr
        | handled b hb =>
          have hba : b ≠ a := by
            rintro rfl
            rw [ha] at hb
            exact absurd hb Bool.false_ne_true
          refine .handled b ?_
          show handles (Function.update s.pc a _ b) = true
          rwa [Function.update_of_ne hba]
        | inserted b e' rest' hm hb =>
          -- Nobody else has the mutex.
          have hfree := (hmutex ▸ h.mutex).of_none b
          rw [hb] at hfree
          exact absurd hfree (by simp [holdsMutex])

omit [Fintype A] in
/-- The thread that has inserted a task sets the timer if the task comes first. -/
theorem Timed.arm (h : Timed s) {when_ : Timespec} (ha : s.pc a = .inserted when_) :
    Timed (s.armNext a when_) := by
  obtain ⟨hmap, -⟩ := armNext_lists (s := s) (a := a) when_
  refine ⟨?_, by rw [hmap]; exact h.sorted, by rw [hmap]; exact h.nonzero, ?_⟩
  · have hlock : (s.armNext a when_).taskMutex = none ∧
        (s.armNext a when_).pc = Function.update s.pc a .user := by
      unfold armNext
      split
      · split <;> exact ⟨rfl, rfl⟩
      · exact ⟨rfl, rfl⟩
    rw [hlock.1, hlock.2]
    exact h.mutex.release (by rw [ha]; rfl) rfl
  · rw [hmap]
    intro hne
    cases hm : s.taskMap with
    | nil => exact absurd hm hne
    | cons e rest =>
      by_cases he : e.1 = when_
      · have hnonzero : when_ ≠ Timespec.zero := by
          rw [← he]
          exact h.nonzero e (by rw [hm]; exact List.mem_cons_self)
        refine .armed when_ ?_ ?_
        · simp [armNext, hm, he, setTimer, hnonzero]
        · rw [hmap]
          intro e' he'
          rw [← he]
          have hsorted := h.sorted
          rw [hm] at hsorted he'
          exact hsorted.head_le he'
      · have hkeep : (s.armNext a when_).armed = s.armed ∧
            (s.armNext a when_).readable = s.readable ∧
            (s.armNext a when_).pc = Function.update s.pc a .user := by
          simp [armNext, hm, he]
        obtain ⟨harmed, hreadable, hpc⟩ := hkeep
        cases h.covered hne with
        | armed when' hw hle => exact .armed when' (harmed.trans hw) (by rwa [hmap])
        | readable hr => exact .readable (hreadable.trans hr)
        | handled b hb =>
          have hba : b ≠ a := by
            rintro rfl
            rw [ha] at hb
            exact absurd hb Bool.false_ne_true
          refine .handled b ?_
          rwa [hpc, Function.update_of_ne hba]
        | inserted b e' rest' hm' hb =>
          -- The thread itself is the one that has the mutex, and its task does not come first.
          have hba : b = a := h.mutex.unique (by rw [hb]; rfl) (by rw [ha]; rfl)
          rw [hba, ha] at hb
          rw [hm] at hm'
          rw [(List.cons.inj hm').1] at he
          exact absurd (TimerPc.inserted.inj hb).symm he

omit [Fintype A] in
/-- The handler sets the timer for the first task that it leaves. -/
theorem Timed.rearm (h : Timed s) {now : Timespec} (ha : s.pc a = .popping now) :
    Timed (s.rearmNext a) := by
  obtain ⟨hmap, -⟩ := rearmNext_lists (s := s) (a := a)
  refine ⟨?_, by rw [hmap]; exact h.sorted, by rw [hmap]; exact h.nonzero, ?_⟩
  · have hlock : (s.rearmNext a).taskMutex = none ∧
        (s.rearmNext a).pc = Function.update s.pc a .user := by
      unfold rearmNext
      split <;> exact ⟨rfl, rfl⟩
    rw [hlock.1, hlock.2]
    exact h.mutex.release (by rw [ha]; rfl) rfl
  · rw [hmap]
    intro hne
    cases hm : s.taskMap with
    | nil => exact absurd hm hne
    | cons e rest =>
      have hnonzero := h.nonzero e (by rw [hm]; exact List.mem_cons_self)
      refine .armed e.1 ?_ ?_
      · simp [rearmNext, hm, setTimer, hnonzero]
      · rw [hmap]
        intro e' he'
        have hsorted := h.sorted
        rw [hm] at hsorted he'
        exact hsorted.head_le he'

omit [Fintype A] [DecidableEq A] in
/-- A task that is removed leaves the others covered. -/
theorem Timed.remove (h : Timed s) {task : ScheduledTask} {m : Multimap Timespec ℕ}
    (hmutex : s.taskMutex = none) (hr : removeTask task s.taskMap = some m) :
    Timed { s with taskMap := m, removed := task.id :: s.removed } := by
  obtain ⟨e, -, hperm, hsub⟩ := removeTask_eq_some hr
  refine ⟨h.mutex, h.sorted.sublist hsub, fun e he => h.nonzero e (hsub.subset he), fun hne => ?_⟩
  have hold : s.taskMap ≠ [] := by
    intro hnil
    rw [hnil] at hperm
    exact absurd hperm.length_eq (by simp)
  cases h.covered hold with
  | armed when_ ha hle => exact .armed when_ ha fun e he => hle e (hsub.subset he)
  | readable hr => exact .readable hr
  | handled b hb => exact .handled b hb
  | inserted b e' rest' hm hb =>
    have hfree := (hmutex ▸ h.mutex).of_none b
    rw [hb] at hfree
    exact absurd hfree (by simp [holdsMutex])

omit [Fintype A] in
theorem Timed.step (h : Timed s) (hm : Moves s x s') (hv : Valid s x) : Timed s' := by
  cases hm with
  | schedule a id when_ ha hmutex => exact h.schedule ha hmutex hv.2.2
  | arm a when_ ha => exact h.arm ha
  | rearm a now ha => exact h.rearm ha
  | removeTrue a task m ha hmutex hr => exact h.remove hmutex hr
  | removeFalse a task hr => exact h
  | event a ha hr =>
    refine ⟨h.mutex.keep (by rw [ha]; rfl), h.sorted, h.nonzero, fun hne => ?_⟩
    exact (h.covered hne).frame rfl rfl rfl rfl (by rw [ha]; rfl) (by simp [ha])
  | readNone a ha hr =>
    refine ⟨h.mutex.keep (by rw [ha]; rfl), h.sorted, h.nonzero, fun hne => ?_⟩
    exact (h.covered hne).frame rfl rfl rfl rfl (by rw [ha]; rfl) (by simp [ha])
  -- The thread that acts handles an expiration.
  | readSome a ha hr =>
    exact ⟨h.mutex.keep (by rw [ha]; rfl), h.sorted, h.nonzero,
      fun _ => .handled a (by simp [handles])⟩
  | takeNow a ha =>
    exact ⟨h.mutex.keep (by rw [ha]; rfl), h.sorted, h.nonzero,
      fun _ => .handled a (by simp [handles])⟩
  | lockTasks a now ha hmutex =>
    refine ⟨?_, h.sorted, h.nonzero, fun _ => .handled a (by simp [handles])⟩
    exact h.mutex.step (by simp [LockStep, ha, holdsMutex, hmutex])
  | pop a now e rest ha hmap he =>
    have hsub : rest.Sublist s.taskMap := by
      rw [hmap]
      exact List.sublist_cons_self e rest
    exact ⟨h.mutex, h.sorted.sublist hsub, fun e' he' => h.nonzero e' (hsub.subset he'),
      fun _ => .handled a (by simp [ha, handles])⟩
  | expire when_ ha hc => exact ⟨h.mutex, h.sorted, h.nonzero, fun _ => .readable rfl⟩
  -- Neither the timer nor the map is touched.
  | exec a id rest ha hr =>
    refine ⟨h.mutex, h.sorted, h.nonzero, fun hne => ?_⟩
    cases h.covered hne with
    | armed when_ ha hle => exact .armed when_ ha hle
    | readable hr => exact .readable hr
    | handled b hb => exact .handled b hb
    | inserted b e rest hm hb => exact .inserted b e rest hm hb
  | tick clock =>
    refine ⟨h.mutex, h.sorted, h.nonzero, fun hne => ?_⟩
    cases h.covered hne with
    | armed when_ ha hle => exact .armed when_ ha hle
    | readable hr => exact .readable hr
    | handled b hb => exact .handled b hb
    | inserted b e rest hm hb => exact .inserted b e rest hm hb

/-! ## Every run -/

/-- What is on its way to the map while its lock is free. -/
def Served (s : TimerState A) : Prop :=
  (∃ when_, s.armed = some when_ ∧ ∀ e ∈ s.taskMap, when_ ≤ e.1) ∨ s.readable = true ∨
    ∃ a, handles (s.pc a) = true

/-- A scheduled task is in one place and no task is executed twice; a removed task is not
executed and stays removed; a map with tasks has something on its way to it. -/
structure TimerHolds (s : TimerState A) : Prop where
  place : ∀ id ∈ s.scheduled, places s id = 1
  once : s.executed.Nodup
  removed : ∀ id ∈ s.removed, id ∉ s.executed ∧ ∀ x, id ∈ (s.next x).removed
  served : s.taskMutex = none → s.taskMap ≠ [] → Served s

omit [Fintype A] [DecidableEq A] in
theorem inMap_nonneg (m : Multimap Timespec ℕ) (id : ℕ) : 0 ≤ inMap m id := Int.natCast_nonneg _

omit [DecidableEq A] in
theorem inReady_nonneg (ready : A → List ℕ) (id : ℕ) : 0 ≤ inReady ready id :=
  count_nonneg fun _ => Int.natCast_nonneg _

omit [DecidableEq A] in
/-- No task is in two places, or twice in one. -/
theorem Counted.executed_add_removed_le (h : Counted s) (id : ℕ) :
    s.executed.count id + s.removed.count id ≤ 1 := by
  have hplaces := h id
  have hmap := inMap_nonneg s.taskMap id
  have hready := inReady_nonneg s.readyTasks id
  unfold places at hplaces
  split at hplaces <;> omega

omit [Fintype A] in
/-- A task that was removed stays so. -/
theorem removed_next (x : TimerAction A) {id : ℕ} (hid : id ∈ s.removed) :
    id ∈ (s.next x).removed := by
  cases x with
  | remove a task =>
    simp only [TimerState.next]
    split
    · exact List.mem_cons_of_mem _ hid
    · exact hid
  | arm a =>
    simp only [TimerState.next]
    split
    · next when_ ha =>
      obtain ⟨-, -, -, hremoved, -⟩ := armNext_lists (s := s) (a := a) when_
      rwa [hremoved]
    · exact hid
  | rearm a =>
    obtain ⟨-, -, -, hremoved, -⟩ := rearmNext_lists (s := s) (a := a)
    simp only [TimerState.next]
    rwa [hremoved]
  | read a | lockTasks a | pop a | exec a =>
    simp only [TimerState.next]
    split <;> exact hid
  | _ => exact hid

omit [Fintype A] [DecidableEq A] in
/-- With the lock free, nobody has inserted a task and not yet set the timer for it. -/
theorem Timed.served (h : Timed s) (hmutex : s.taskMutex = none) (hne : s.taskMap ≠ []) :
    Served s := by
  cases h.covered hne with
  | armed when_ ha hle => exact .inl ⟨when_, ha, hle⟩
  | readable hr => exact .inr (.inl hr)
  | handled a ha => exact .inr (.inr ⟨a, ha⟩)
  | inserted a e rest hm ha =>
    have hfree := (hmutex ▸ h.mutex).of_none a
    rw [ha] at hfree
    exact absurd hfree (by simp [holdsMutex])

theorem counted_of_reachable (hs : (timerMachine A).Reachable Valid s) : Counted s := by
  apply hs.invariant
  · intro id
    have hready : inReady (fun _ : A => []) id = 0 := count_eq_zero fun _ => rfl
    show inMap [] id + inReady (fun _ : A => []) id + 0 + 0 = 0
    rw [hready]
    rfl
  · intro s x hc hv he
    exact hc.step (moves_of_enabled he) hv

omit [Fintype A] in
theorem timed_of_reachable (hs : (timerMachine A).Reachable Valid s) : Timed s := by
  apply hs.invariant
  · refine ⟨fun a => ?_, List.Pairwise.nil, ?_, ?_⟩
    · simp [timerMachine, holdsMutex]
    · intro e he
      exact absurd he List.not_mem_nil
    · intro hne
      exact absurd rfl hne
  · intro s x ht hv he
    exact ht.step (moves_of_enabled he) hv

/-- However the threads schedule, remove and handle tasks. -/
theorem timer_holds (hs : (timerMachine A).Reachable Valid s) : TimerHolds s := by
  have hcounted := counted_of_reachable hs
  refine ⟨fun id hid => ?_, ?_, fun id hid => ⟨fun hex => ?_, fun x => removed_next x hid⟩, ?_⟩
  · rw [hcounted id, if_pos hid]
  · rw [List.nodup_iff_count_le_one]
    intro id
    have hle := hcounted.executed_add_removed_le id
    omega
  · have hle := hcounted.executed_add_removed_le id
    have hin := List.count_pos_iff.mpr hid
    have hout := List.count_pos_iff.mpr hex
    omega
  · exact (timed_of_reachable hs).served

/-- Two threads; two tasks with the same time and a later one. One of the first two is removed,
the other one is executed, and the timer is set for the third. -/
theorem timer_holds_three : ∃ s : TimerState (Fin 2), TimerHolds s ∧ s.executed = [1] ∧
    s.removed = [0] ∧ s.taskMap = [(⟨2, 0⟩, 2)] ∧ s.armed = some ⟨2, 0⟩ := by
  have h : ∃ s, (timerMachine (Fin 2)).Reachable Valid s ∧
      decide (s.executed = [1] ∧ s.removed = [0] ∧ s.taskMap = [(⟨2, 0⟩, 2)] ∧
        s.armed = some ⟨2, 0⟩) = true := by
    apply Machine.reachable_of_replay (l := [.schedule 0 0 ⟨1, 0⟩, .arm 0,
      .schedule 1 1 ⟨1, 0⟩, .arm 1, .schedule 0 2 ⟨2, 0⟩, .arm 0, .remove 0 ⟨⟨1, 0⟩, 0⟩,
      .tick ⟨1, 0⟩, .expire, .event 0, .event 1, .read 1, .read 0, .takeNow 1, .lockTasks 1,
      .pop 1, .rearm 1, .exec 1])
    decide +kernel
  obtain ⟨s, hs, hstate⟩ := h
  exact ⟨s, timer_holds hs, of_decide_eq_true hstate⟩

end Timer

end Anon.IoDispatch
