import Anon.Sproc.Manager

/-!
# One server at a time

The manager is meant to run one server, the one of `current_srv_pid`, and to tell the one that it
replaces to stop. A restart does not keep `current_srv_pid` up to date, and `stop_server` loses
the server that it should tell. Without these two the manager does what it is meant to do.

* `ManagerHolds`: what is meant.
* `Orderly`: the condition on the steps.
* `Inv`: the invariant, with `Inv.step` for every action.
* `manager_holds`: every run whose steps meet the condition.
-/

namespace Anon.Sproc

/-- The server with this pipe was told to stop. -/
def State.told (s : State) (pipe : ℕ) : Prop := (pipe, Cmd.stop) ∈ s.sent

/-- At most one server is meant to run, and it is the one of `current_srv_pid`; a server that was
replaced or stopped was told so once. -/
structure ManagerHolds (s : State) : Prop where
  one : ∀ e ∈ s.runningProcsMap, ∀ e' ∈ s.runningProcsMap,
    ¬s.told e.2.cmdPipe → ¬s.told e'.2.cmdPipe → e = e'
  current : ∀ e ∈ s.runningProcsMap, ¬s.told e.2.cmdPipe → e.1 = s.currentSrvPid
  stopped : ∀ pipe ∈ s.retired, s.sent.count (pipe, .stop) = 1

/-- `stop_server` finds no server to stop, and no server is restarted, unless under the process id
that it had. -/
def Orderly (s : State) : Action → Prop
  | .stopServer => s.runningProcsMap.get s.currentSrvPid = none
  | .watched pid newPid => s.runningProcsMap.get pid = none ∨ newPid = s.currentSrvPid
  | _ => True

instance (s : State) (a : Action) : Decidable (Orderly s a) :=
  match a with
  | .startChild _ _ => isTrue trivial
  | .startFails _ _ => isTrue trivial
  | .startServer _ _ => isTrue trivial
  | .stopServer => inferInstanceAs (Decidable (_ = _))
  | .sendSync => isTrue trivial
  | .exit _ => isTrue trivial
  | .wait _ => isTrue trivial
  | .unwatch _ => isTrue trivial
  | .watched _ _ => inferInstanceAs (Decidable (_ ∨ _))

/-! ## The invariant -/

/-- The pipes of the servers that were not told anything yet. -/
def State.heldPipes (s : State) : List ℕ :=
  s.runningPipes ++ s.starting.map fun child => child.2.cmdPipe

structure Inv (s : State) : Prop where
  sorted : s.runningProcsMap.Sorted
  current : ∀ e ∈ s.runningProcsMap, e.1 = s.currentSrvPid
  held_nodup : s.heldPipes.Nodup
  held_lt : ∀ pipe ∈ s.heldPipes, pipe < s.pipes
  held_retired : ∀ pipe ∈ s.heldPipes, pipe ∉ s.retired
  held_told : ∀ pipe ∈ s.heldPipes, ¬s.told pipe
  retired_lt : ∀ pipe ∈ s.retired, pipe < s.pipes
  sent_lt : ∀ c ∈ s.sent, c.1 < s.pipes
  stopped : ∀ pipe ∈ s.retired, s.sent.count (pipe, .stop) = 1

theorem inv_init : Inv manager.init where
  sorted := OrderedMap.sorted_nil
  current := fun _ he => absurd he List.not_mem_nil
  held_nodup := List.nodup_nil
  held_lt := fun _ hp => absurd hp List.not_mem_nil
  held_retired := fun _ hp => absurd hp List.not_mem_nil
  held_told := fun _ hp => absurd hp List.not_mem_nil
  retired_lt := fun _ hp => absurd hp List.not_mem_nil
  sent_lt := fun _ hc => absurd hc List.not_mem_nil
  stopped := fun _ hp => absurd hp List.not_mem_nil

variable {s : State}

/-- What is meant follows from the invariant. -/
theorem Inv.holds (h : Inv s) : ManagerHolds s where
  one := by
    intro e he e' he' _ _
    have hkey : e.1 = e'.1 := (h.current e he).trans (h.current e' he').symm
    have hget : s.runningProcsMap.get e.1 = some e.2 := h.sorted.get_eq_some_iff.mpr he
    have hget' : s.runningProcsMap.get e'.1 = some e'.2 := h.sorted.get_eq_some_iff.mpr he'
    rw [← hkey, hget] at hget'
    exact Prod.ext hkey (Option.some.inj hget')
  current := fun e he _ => h.current e he
  stopped := h.stopped

/-- The map is empty, or holds the current server and no other one. -/
theorem Inv.map_eq (h : Inv s) :
    (s.runningProcsMap = [] ∧ s.runningProcsMap.get s.currentSrvPid = none) ∨
    ∃ pp, s.runningProcsMap = [(s.currentSrvPid, pp)] ∧
      s.runningProcsMap.get s.currentSrvPid = some pp := by
  match hmap : s.runningProcsMap with
  | [] => exact .inl ⟨rfl, rfl⟩
  | [e] =>
    right
    have hkey : e.1 = s.currentSrvPid := by
      apply h.current
      rw [hmap]
      exact List.mem_cons_self
    refine ⟨e.2, by rw [← hkey], ?_⟩
    rw [← hkey]
    simp [OrderedMap.get]
  | e :: e' :: rest =>
    -- two keys would both be the current one
    have hsorted := h.sorted
    have hcurrent := h.current
    rw [hmap] at hsorted hcurrent
    have hlt : e.1 < e'.1 := hsorted.head_lt List.mem_cons_self
    rw [hcurrent e List.mem_cons_self,
      hcurrent e' (List.mem_cons_of_mem e List.mem_cons_self)] at hlt
    exact absurd hlt (lt_irrefl _)

/-- A command that is not to stop is of no concern. -/
theorem Inv.send (h : Inv s) {pipe : ℕ} {cmd : Cmd} (hpipe : pipe < s.pipes) (hcmd : cmd ≠ .stop) :
    Inv { s with sent := (pipe, cmd) :: s.sent } where
  sorted := h.sorted
  current := h.current
  held_nodup := h.held_nodup
  held_lt := h.held_lt
  held_retired := h.held_retired
  held_told := by
    intro p hp htold
    obtain heq | hin := List.mem_cons.mp htold
    · exact hcmd (Prod.mk.inj heq).2.symm
    · exact h.held_told p hp hin
  retired_lt := h.retired_lt
  sent_lt := by
    intro c hc
    obtain rfl | hc := List.mem_cons.mp hc
    · exact hpipe
    · exact h.sent_lt c hc
  stopped := by
    intro p hp
    rw [List.count_cons_of_ne]
    · exact h.stopped p hp
    · intro heq
      exact hcmd (Prod.mk.inj heq).2

/-- Only the pipes that are held matter, and they may become fewer. -/
theorem Inv.hold (h : Inv s) {map : OrderedMap ℕ ProcInfo} {current : ℕ}
    {starting : List (ℕ × ProcInfo)} (hsorted : map.Sorted) (hcurrent : ∀ e ∈ map, e.1 = current)
    (hheld : ((map.map fun e => e.2.cmdPipe) ++ starting.map fun child => child.2.cmdPipe).Subperm
      s.heldPipes) :
    Inv { s with runningProcsMap := map, currentSrvPid := current, starting := starting } where
  sorted := hsorted
  current := hcurrent
  held_nodup := by
    obtain ⟨l, hperm, hsub⟩ := hheld
    exact hperm.nodup_iff.mp (h.held_nodup.sublist hsub)
  held_lt := fun pipe hp => h.held_lt pipe (hheld.subset hp)
  held_retired := fun pipe hp => h.held_retired pipe (hheld.subset hp)
  held_told := fun pipe hp => h.held_told pipe (hheld.subset hp)
  retired_lt := h.retired_lt
  sent_lt := h.sent_lt
  stopped := h.stopped

/-- The current server is told to stop, and leaves the map. -/
theorem Inv.stopCurrent (h : Inv s) {pp : ProcInfo}
    (hmap : s.runningProcsMap = [(s.currentSrvPid, pp)]) :
    Inv { s with
      runningProcsMap := []
      sent := (pp.cmdPipe, .stop) :: s.sent
      retired := pp.cmdPipe :: s.retired } := by
  have hheld : s.heldPipes = pp.cmdPipe :: s.starting.map fun child => child.2.cmdPipe := by
    rw [State.heldPipes, State.runningPipes, hmap]
    rfl
  have hnodup := h.held_nodup
  have hpp : pp.cmdPipe ∈ s.heldPipes := by
    rw [hheld]
    exact List.mem_cons_self
  rw [hheld] at hnodup
  have hmem : ∀ pipe ∈ s.starting.map (fun child => child.2.cmdPipe), pipe ∈ s.heldPipes := by
    intro pipe hp
    rw [hheld]
    exact List.mem_cons_of_mem _ hp
  have hne : ∀ pipe ∈ s.starting.map (fun child => child.2.cmdPipe), pipe ≠ pp.cmdPipe := by
    rintro pipe hp rfl
    exact (List.nodup_cons.mp hnodup).1 hp
  refine ⟨OrderedMap.sorted_nil, fun e he => absurd he List.not_mem_nil,
    (List.nodup_cons.mp hnodup).2, fun pipe hp => h.held_lt pipe (hmem pipe hp), ?_, ?_, ?_, ?_, ?_⟩
  · intro pipe hp hretired
    obtain heq | hretired := List.mem_cons.mp hretired
    · exact hne pipe hp heq
    · exact h.held_retired pipe (hmem pipe hp) hretired
  · intro pipe hp htold
    obtain heq | htold := List.mem_cons.mp htold
    · exact hne pipe hp (Prod.mk.inj heq).1
    · exact h.held_told pipe (hmem pipe hp) htold
  · intro pipe hp
    obtain rfl | hp := List.mem_cons.mp hp
    · exact h.held_lt _ hpp
    · exact h.retired_lt pipe hp
  · intro c hc
    obtain rfl | hc := List.mem_cons.mp hc
    · exact h.held_lt _ hpp
    · exact h.sent_lt c hc
  · intro pipe hp
    obtain rfl | hp := List.mem_cons.mp hp
    · -- this is the first time
      rw [List.count_cons_self, List.count_eq_zero.mpr (h.held_told _ hpp)]
    · have hother : (pp.cmdPipe, Cmd.stop) ≠ (pipe, Cmd.stop) := by
        intro heq
        exact h.held_retired _ hpp ((Prod.mk.inj heq).1 ▸ hp)
      rw [List.count_cons_of_ne hother]
      exact h.stopped pipe hp

/-! ## The actions -/

theorem Inv.startChild (h : Inv s) (pid : ℕ) (unexpectedRestart : Bool) :
    Inv (s.next (.startChild pid unexpectedRestart)) := by
  have hperm : (s.next (.startChild pid unexpectedRestart)).heldPipes.Perm
      (s.pipes :: s.heldPipes) := List.perm_middle
  have hmem : ∀ pipe, pipe ∈ (s.next (.startChild pid unexpectedRestart)).heldPipes ↔
      pipe = s.pipes ∨ pipe ∈ s.heldPipes := by
    intro pipe
    rw [hperm.mem_iff, List.mem_cons]
  refine ⟨h.sorted, h.current, ?_, ?_, ?_, ?_, ?_, ?_, h.stopped⟩
  · rw [hperm.nodup_iff, List.nodup_cons]
    exact ⟨fun hp => absurd (h.held_lt _ hp) (lt_irrefl _), h.held_nodup⟩
  · intro pipe hp
    obtain rfl | hp := (hmem pipe).mp hp
    · exact Nat.lt_succ_self _
    · exact (h.held_lt pipe hp).trans (Nat.lt_succ_self _)
  · intro pipe hp hretired
    obtain rfl | hp := (hmem pipe).mp hp
    · exact absurd (h.retired_lt _ hretired) (lt_irrefl _)
    · exact h.held_retired pipe hp hretired
  · intro pipe hp htold
    obtain rfl | hp := (hmem pipe).mp hp
    · exact absurd (h.sent_lt _ htold) (lt_irrefl _)
    · exact h.held_told pipe hp htold
  · intro pipe hp
    exact (h.retired_lt pipe hp).trans (Nat.lt_succ_self _)
  · intro c hc
    exact (h.sent_lt c hc).trans (Nat.lt_succ_self _)

/-- A child that was started and replaces nothing. -/
theorem Inv.launch (h : Inv s) (hmap : s.runningProcsMap = []) {child : ℕ × ProcInfo}
    (hchild : child ∈ s.starting) :
    Inv ({ s with
      currentSrvPid := child.1
      starting := s.starting.erase child }.launch child.1 child.2) := by
  have hheld : s.heldPipes = s.starting.map fun child => child.2.cmdPipe := by
    rw [State.heldPipes, State.runningPipes, hmap]
    rfl
  have hpipe : child.2.cmdPipe < s.pipes := by
    apply h.held_lt
    rw [hheld]
    exact List.mem_map_of_mem hchild
  have hperm : (child.2.cmdPipe :: (s.starting.erase child).map fun child => child.2.cmdPipe).Perm
      s.heldPipes := by
    rw [hheld]
    exact ((List.perm_cons_erase hchild).map fun child => child.2.cmdPipe).symm
  have hsent : Inv { s with sent := (child.2.cmdPipe, .start) :: s.sent } :=
    h.send hpipe (by decide)
  have hsorted : OrderedMap.Sorted [child] := List.pairwise_singleton _ _
  have hcurrent : ∀ e ∈ [child], e.1 = child.1 := by
    intro e he
    rw [List.mem_singleton.mp he]
  have hinstalled := hsent.hold hsorted hcurrent hperm.subperm
  have hlaunch : { s with
      currentSrvPid := child.1
      starting := s.starting.erase child }.launch child.1 child.2 =
        { s with
          runningProcsMap := [child]
          currentSrvPid := child.1
          starting := s.starting.erase child
          sent := (child.2.cmdPipe, .start) :: s.sent
          polling := child.1 :: s.polling } := by
    simp only [State.launch, State.insertProc, hmap]
    rfl
  rw [hlaunch]
  exact ⟨hinstalled.sorted, hinstalled.current, hinstalled.held_nodup, hinstalled.held_lt,
    hinstalled.held_retired, hinstalled.held_told, hinstalled.retired_lt, hinstalled.sent_lt,
    hinstalled.stopped⟩

theorem erase_singleton (pid : ℕ) (pi : ProcInfo) :
    OrderedMap.erase pid [(pid, pi)] = [] := by
  simp [OrderedMap.erase]

theorem Inv.startServer (h : Inv s) {child : ℕ × ProcInfo} (hchild : child ∈ s.starting)
    (replied : Bool) : Inv (s.startServer child replied) := by
  obtain ⟨hmap, hget⟩ | ⟨pp, hmap, hget⟩ := h.map_eq
  · have hnone : s.startServer child replied = { s with
        currentSrvPid := child.1
        starting := s.starting.erase child }.launch child.1 child.2 := by
      simp only [State.startServer, State.runningPipes, hmap]
      rfl
    rw [hnone]
    exact h.launch hmap hchild
  · have hstopped := h.stopCurrent hmap
    have herase := erase_singleton s.currentSrvPid pp
    cases replied with
    | true =>
      have hsome : s.startServer child true = { s with
          runningProcsMap := []
          sent := (pp.cmdPipe, .stop) :: s.sent
          retired := pp.cmdPipe :: s.retired
          currentSrvPid := child.1
          starting := s.starting.erase child }.launch child.1 child.2 := by
        unfold State.startServer
        rw [hget]
        simp only [State.runningPipes, hmap, herase]
        rfl
      rw [hsome]
      exact hstopped.launch rfl hchild
    | false =>
      have hsome : s.startServer child false = { s with
          runningProcsMap := []
          sent := (pp.cmdPipe, .stop) :: s.sent
          retired := pp.cmdPipe :: s.retired
          currentSrvPid := child.1
          starting := s.starting.erase child } := by
        unfold State.startServer
        rw [hget]
        simp only [State.runningPipes, hmap, herase]
        rfl
      rw [hsome]
      apply hstopped.hold OrderedMap.sorted_nil (fun e he => absurd he List.not_mem_nil)
      exact ((List.erase_sublist.map fun child : ℕ × ProcInfo => child.2.cmdPipe)).subperm

theorem Inv.stopServer (h : Inv s) (hnone : s.runningProcsMap.get s.currentSrvPid = none) :
    Inv s.stopServer := by
  obtain ⟨hmap, -⟩ | ⟨pp, -, hsome⟩ := h.map_eq
  · have hstate : s.stopServer = { s with currentSrvPid := 0 } := by
      simp only [State.stopServer, State.runningPipes, hmap]
      rfl
    rw [hstate]
    refine h.hold h.sorted (fun e he => ?_) (List.Subperm.refl _)
    rw [hmap] at he
    exact absurd he List.not_mem_nil
  · rw [hnone] at hsome
    exact absurd hsome (by simp)

theorem Inv.sendSync (h : Inv s) : Inv s.sendSync := by
  unfold State.sendSync
  cases hget : s.runningProcsMap.get s.currentSrvPid with
  | none => exact h
  | some pp =>
    apply h.send _ (by decide)
    apply h.held_lt
    exact List.mem_append_left _
      (List.mem_map_of_mem (f := fun e : ℕ × ProcInfo => e.2.cmdPipe)
        (h.sorted.get_eq_some_iff.mp hget))

/-- A server that keeps its process id is still the current one. -/
theorem Inv.watched (h : Inv s) {pid newPid : ℕ}
    (horderly : s.runningProcsMap.get pid = none ∨ newPid = s.currentSrvPid) :
    Inv (s.watched pid newPid) := by
  unfold State.watched
  cases hget : s.runningProcsMap.get pid with
  | none =>
    exact ⟨h.sorted, h.current, h.held_nodup, h.held_lt, h.held_retired, h.held_told, h.retired_lt,
      h.sent_lt, h.stopped⟩
  | some pi =>
    obtain hnone | rfl := horderly
    · rw [hget] at hnone
      exact absurd hnone (by simp)
    · have hpid : pid = s.currentSrvPid := h.current _ (h.sorted.get_eq_some_iff.mp hget)
      subst hpid
      obtain ⟨-, hnone⟩ | ⟨pi', hmap, hget'⟩ := h.map_eq
      · rw [hget] at hnone
        exact absurd hnone (by simp)
      · rw [hget] at hget'
        obtain rfl := Option.some.inj hget'
        have hpipe : pi.cmdPipe < s.pipes := by
          apply h.held_lt
          rw [State.heldPipes, State.runningPipes, hmap]
          exact List.mem_cons_self
        have hsent : Inv { s with sent := (pi.cmdPipe, .start) :: s.sent } :=
          h.send hpipe (by decide)
        have herase := erase_singleton s.currentSrvPid pi
        have hlaunch : ({ s with
            waited := s.waited.erase s.currentSrvPid
            runningProcsMap := OrderedMap.erase s.currentSrvPid s.runningProcsMap
            pids := Function.update s.pids s.currentSrvPid .running }.launch s.currentSrvPid pi) =
              { s with
                waited := s.waited.erase s.currentSrvPid
                pids := Function.update s.pids s.currentSrvPid .running
                sent := (pi.cmdPipe, .start) :: s.sent
                polling := s.currentSrvPid :: s.polling } := by
          simp only [State.launch, State.insertProc, hmap, herase]
          rfl
        simp only [hlaunch]
        split
        · exact ⟨hsent.sorted, hsent.current, hsent.held_nodup, hsent.held_lt, hsent.held_retired,
            hsent.held_told, hsent.retired_lt, hsent.sent_lt, hsent.stopped⟩
        · exact ⟨hsent.sorted, hsent.current, hsent.held_nodup, hsent.held_lt, hsent.held_retired,
            hsent.held_told, hsent.retired_lt, hsent.sent_lt, hsent.stopped⟩

theorem Inv.step (h : Inv s) {a : Action} (horderly : Orderly s a) (he : s.enabled a) :
    Inv (s.next a) := by
  match a with
  | .startChild pid unexpectedRestart => exact h.startChild pid unexpectedRestart
  | .startFails pid killed =>
    exact ⟨h.sorted, h.current, h.held_nodup, fun pipe hp => (h.held_lt pipe hp).trans
      (Nat.lt_succ_self _), h.held_retired, h.held_told, fun pipe hp => (h.retired_lt pipe hp).trans
      (Nat.lt_succ_self _), fun c hc => (h.sent_lt c hc).trans (Nat.lt_succ_self _), h.stopped⟩
  | .startServer child replied => exact h.startServer he.2 replied
  | .stopServer => exact h.stopServer horderly
  | .sendSync => exact h.sendSync
  | .exit pid | .wait pid | .unwatch pid =>
    exact ⟨h.sorted, h.current, h.held_nodup, h.held_lt, h.held_retired, h.held_told, h.retired_lt,
      h.sent_lt, h.stopped⟩
  | .watched pid newPid => exact h.watched horderly

/-! ## Runs -/

/-- In every run whose steps meet the condition. -/
theorem manager_holds (hs : manager.Reachable Orderly s) : ManagerHolds s := by
  have hinv : Inv s := by
    apply hs.invariant inv_init
    intro s a h horderly he
    exact h.step horderly he
  exact hinv.holds

/-- A server is replaced by another one, which exits and is waited for. -/
theorem manager_holds_replaced : ∃ s, ManagerHolds s ∧
    s.runningProcsMap = [(6, ⟨1, true⟩)] ∧ s.retired = [0] := by
  have h : ∃ s, manager.Reachable Orderly s ∧
      decide (s.runningProcsMap = [(6, ⟨1, true⟩)] ∧ s.retired = [0]) = true := by
    apply Machine.reachable_of_replay (l := [.startChild 5 false, .startServer (5, ⟨0, false⟩) true,
      .sendSync, .startChild 6 true, .startServer (6, ⟨1, true⟩) true, .exit 5, .wait 5,
      .watched 5 7])
    decide +kernel
  obtain ⟨s, hs, hstate⟩ := h
  exact ⟨s, manager_holds hs, of_decide_eq_true hstate⟩

/-- A server that exits is restarted as another process than `current_srv_pid`, and a server that
is stopped is not told so. -/
theorem manager_breaks :
    (∃ s, manager.Reachable Machine.anyStep s ∧ s.retired = [] ∧ ¬ManagerHolds s) ∧
      ∃ s, manager.Reachable Machine.anyStep s ∧ s.runningProcsMap = [] ∧ ¬ManagerHolds s := by
  constructor
  · have h : ∃ s, manager.Reachable Machine.anyStep s ∧
        decide (s.retired = [] ∧ ∃ e ∈ s.runningProcsMap, (e.2.cmdPipe, Cmd.stop) ∉ s.sent ∧
          e.1 ≠ s.currentSrvPid) = true := by
      apply Machine.reachable_of_replay (l := [.startChild 5 false,
        .startServer (5, ⟨0, false⟩) true, .exit 5, .wait 5, .watched 5 6])
      decide +kernel
    obtain ⟨s, hs, hstate⟩ := h
    obtain ⟨hretired, e, he, htold, hpid⟩ := of_decide_eq_true hstate
    exact ⟨s, hs, hretired, fun hholds => hpid (hholds.current e he htold)⟩
  · have h : ∃ s, manager.Reachable Machine.anyStep s ∧
        decide (s.runningProcsMap = [] ∧
          ∃ pipe ∈ s.retired, s.sent.count (pipe, Cmd.stop) = 0) = true := by
      apply Machine.reachable_of_replay (l := [.startChild 5 false,
        .startServer (5, ⟨0, false⟩) true, .stopServer])
      decide +kernel
    obtain ⟨s, hs, hstate⟩ := h
    obtain ⟨hmap, pipe, hpipe, hcount⟩ := of_decide_eq_true hstate
    refine ⟨s, hs, hmap, fun hholds => ?_⟩
    have hone := hholds.stopped pipe hpipe
    rw [hcount] at hone
    exact absurd hone (by decide)

end Anon.Sproc
