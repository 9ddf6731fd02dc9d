import Anon.Fiber.RunInFiber

/-!
# Every function is run once, and waited for

* `Owners`: the objects and the functions, and who has them.
* `Pipes`: what is in the pipes are whole commands, and at the end of `on_one_pipe_` the beginning
  of the one that is being written.
* `Counts`: the number of running fibers, and the threads that wait for it.
* `run_in_fiber_accounts`: all of it in every run.
-/

namespace Anon.Fiber

variable {s : SpawnState} {tc : Pointer} {id : ℕ} {ch : Channel}

/-! ## Owners -/

/-- The objects and the functions, and who has them. -/
structure Owners (s : SpawnState) : Prop where
  owned : Distributed s.commands {tc | (s.caller tc).isSome}
  placed : Distributed s.functions {id | id ∈ s.starts}
  startsOnce : s.starts.Nodup
  startsLt : ∀ id ∈ s.starts, id < s.made
  /-- Each function is in one object. -/
  unique : ∀ tc tc' id, s.caller tc = some id → s.caller tc' = some id → tc = tc'
  called : ∀ tc id, s.caller tc = some id →
    id < s.made ∧ (id ∈ s.starts ↔ tc ∈ s.commands .started)
  kept : ∀ id < s.made, id ∈ s.starts ∨ ∃ tc, s.caller tc = some id
  dangling : s.dangling = false

theorem Owners.exists_caller (h : Owners s) {place : CommandPlace} (htc : tc ∈ s.commands place) :
    ∃ id, s.caller tc = some id :=
  Option.isSome_iff_exists.mp ((h.owned.mem_iff tc).mp ⟨place, htc⟩)

/-- An object that is not started goes to another place. -/
theorem Owners.moveCommand (h : Owners s) {a b : CommandPlace} (hab : a ≠ b)
    (htc : tc ∈ s.commands a) (ha : a ≠ .started) (hb : b ≠ .started) :
    Owners (s.moveCommand tc a b) where
  owned := h.owned.transfer hab htc
  placed := h.placed
  startsOnce := h.startsOnce
  startsLt := h.startsLt
  unique := h.unique
  called tc' id hid := by
    have hstarted : (s.moveCommand tc a b).commands .started = s.commands .started :=
      transfer_of_ne ha.symm hb.symm
    rw [hstarted]
    exact h.called tc' id hid
  kept := h.kept
  dangling := h.dangling

theorem Owners.moveFunction (h : Owners s) {a b : FunctionPlace} (hab : a ≠ b)
    (hid : id ∈ s.functions a) : Owners (s.moveFunction id a b) where
  owned := h.owned
  placed := h.placed.transfer hab hid
  startsOnce := h.startsOnce
  startsLt := h.startsLt
  unique := h.unique
  called := h.called
  kept := h.kept
  dangling := h.dangling

/-- Fields that are not about owners. -/
theorem Owners.congr (h : Owners s) {s' : SpawnState} (hcaller : s'.caller = s.caller)
    (hcommands : s'.commands = s.commands) (hfunctions : s'.functions = s.functions)
    (hstarts : s'.starts = s.starts) (hmade : s'.made = s.made)
    (hdangling : s'.dangling = s.dangling) : Owners s' := by
  refine ⟨?_, ?_, ?_, ?_, ?_, ?_, ?_, ?_⟩
  · rw [hcommands, hcaller]
    exact h.owned
  · rw [hfunctions, hstarts]
    exact h.placed
  · rw [hstarts]
    exact h.startsOnce
  · rw [hstarts, hmade]
    exact h.startsLt
  · rw [hcaller]
    exact h.unique
  · rw [hcaller, hmade, hstarts, hcommands]
    exact h.called
  · rw [hmade, hstarts, hcaller]
    exact h.kept
  · rw [hdangling]
    exact h.dangling

theorem owners_runInFiber (h : Owners s) {fromFiber : Bool} (htc : s.caller tc = none) :
    Owners (s.next (.runInFiber fromFiber tc)) := by
  have hnew : tc ∉ {tc | (s.caller tc).isSome} := by simp [htc]
  have hplace : (if fromFiber then CommandPlace.wanting else .sending) ≠ .started := by
    cases fromFiber <;> decide
  have hother (tc' : Pointer) (id : ℕ)
      (hid : (s.next (.runInFiber fromFiber tc)).caller tc' = some id) :
      tc' = tc ∧ id = s.made ∨ s.caller tc' = some id ∧ id < s.made := by
    by_cases heq : tc' = tc
    · left
      have hnow : Function.update s.caller tc (some s.made) tc' = some id := hid
      rw [heq, Function.update_self] at hnow
      exact ⟨heq, (Option.some.inj hnow).symm⟩
    · right
      have hcaller : s.caller tc' = some id := (Function.update_of_ne heq _ _).symm.trans hid
      exact ⟨hcaller, (h.called tc' id hcaller).1⟩
  have hstarted : (s.next (.runInFiber fromFiber tc)).commands .started = s.commands .started :=
    Function.update_of_ne hplace.symm _ _
  refine ⟨?_, h.placed, h.startsOnce, fun id hid => Nat.lt_succ_of_lt (h.startsLt id hid), ?_, ?_,
    ?_, h.dangling⟩
  · have hset : {tc' | ((s.next (.runInFiber fromFiber tc)).caller tc').isSome} =
        insert tc {tc' | (s.caller tc').isSome} := by
      ext tc'
      show (Function.update s.caller tc (some s.made) tc').isSome = true ↔ _
      by_cases heq : tc' = tc
      · simp [heq]
      · rw [Function.update_of_ne heq]
        simp [heq]
    rw [hset]
    exact h.owned.append hnew
  · intro tc₁ tc₂ id h₁ h₂
    rcases hother tc₁ id h₁ with ⟨rfl, rfl⟩ | ⟨h₁, hlt₁⟩
    · rcases hother tc₂ _ h₂ with ⟨rfl, -⟩ | ⟨-, hlt₂⟩
      · rfl
      · exact absurd hlt₂ (Nat.lt_irrefl _)
    · rcases hother tc₂ id h₂ with ⟨-, rfl⟩ | ⟨h₂, -⟩
      · exact absurd hlt₁ (Nat.lt_irrefl _)
      · exact h.unique tc₁ tc₂ id h₁ h₂
  · intro tc' id hid
    rw [hstarted]
    rcases hother tc' id hid with ⟨rfl, rfl⟩ | ⟨hcaller, hlt⟩
    · refine ⟨Nat.lt_succ_self _, iff_of_false ?_ ?_⟩
      · exact fun hmem => absurd (h.startsLt _ hmem) (Nat.lt_irrefl _)
      · exact fun hmem => h.owned.notMem hnew _ hmem
    · exact ⟨Nat.lt_succ_of_lt hlt, (h.called tc' id hcaller).2⟩
  · intro id hid
    rcases Nat.lt_succ_iff_lt_or_eq.mp hid with hlt | rfl
    · rcases h.kept id hlt with hmem | ⟨tc', hcaller⟩
      · exact Or.inl hmem
      · refine Or.inr ⟨tc', ?_⟩
        have hne : tc' ≠ tc := by
          rintro rfl
          rw [htc] at hcaller
          exact absurd hcaller (by simp)
        exact (Function.update_of_ne hne _ _).trans hcaller
    · exact Or.inr ⟨tc, Function.update_self _ _ _⟩

theorem owners_construct (h : Owners s) : Owners (s.next .construct) := by
  have hnew : s.made ∉ s.starts := fun hmem => absurd (h.startsLt _ hmem) (Nat.lt_irrefl _)
  refine ⟨h.owned, ?_, List.nodup_cons.mpr ⟨hnew, h.startsOnce⟩, ?_, h.unique, ?_, ?_, h.dangling⟩
  · have hset : {id | id ∈ (s.next .construct).starts} = insert s.made {id | id ∈ s.starts} := by
      ext id
      exact List.mem_cons
    rw [hset]
    exact h.placed.append hnew
  · intro id hid
    rcases List.mem_cons.mp hid with rfl | hid
    · exact Nat.lt_succ_self _
    · exact Nat.lt_succ_of_lt (h.startsLt id hid)
  · intro tc id hid
    obtain ⟨hlt, hiff⟩ := h.called tc id hid
    refine ⟨Nat.lt_succ_of_lt hlt, Iff.trans ?_ hiff⟩
    exact List.mem_cons.trans (or_iff_right (Nat.ne_of_lt hlt))
  · intro id hid
    rcases Nat.lt_succ_iff_lt_or_eq.mp hid with hlt | rfl
    · exact (h.kept id hlt).imp_left (List.mem_cons_of_mem _)
    · exact Or.inl List.mem_cons_self

theorem exec_of_caller (hid : s.caller tc = some id) :
    s.next (.exec tc) = (s.moveCommand tc .executing .started).start id := by
  simp only [SpawnState.next, hid]

/-- The function of an object is started. -/
theorem owners_exec (h : Owners s) (htc : tc ∈ s.commands .executing) :
    Owners (s.next (.exec tc)) := by
  obtain ⟨id, hid⟩ := h.exists_caller htc
  have hnext := exec_of_caller hid
  obtain ⟨hlt, hiff⟩ := h.called tc id hid
  have hnew : id ∉ s.starts := by
    rw [hiff]
    exact fun hmem => absurd (h.owned.unique _ _ _ hmem htc) (by decide)
  have hstarted : (s.moveCommand tc .executing .started).commands .started =
      s.commands .started ++ [tc] := by
    show transfer s.commands tc .executing .started .started = _
    exact transfer_target
  rw [hnext]
  refine ⟨h.owned.transfer (by decide) htc, ?_, List.nodup_cons.mpr ⟨hnew, h.startsOnce⟩, ?_,
    h.unique, ?_, ?_, h.dangling⟩
  · have hset : {id' | id' ∈ id :: s.starts} = insert id {id' | id' ∈ s.starts} := by
      ext id'
      exact List.mem_cons
    show Distributed _ {id' | id' ∈ id :: s.starts}
    rw [hset]
    exact h.placed.append hnew
  · intro id' hid'
    rcases List.mem_cons.mp hid' with rfl | hid'
    · exact hlt
    · exact h.startsLt id' hid'
  · intro tc' id' hid'
    obtain ⟨hlt', hiff'⟩ := h.called tc' id' hid'
    refine ⟨hlt', ?_⟩
    show id' ∈ id :: s.starts ↔ tc' ∈ (s.moveCommand tc .executing .started).commands .started
    rw [hstarted, List.mem_cons, List.mem_append, List.mem_singleton, hiff', or_comm]
    apply or_congr_right
    constructor
    · rintro rfl
      exact h.unique tc' tc _ hid' hid
    · rintro rfl
      exact Option.some.inj (hid'.symm.trans hid)
  · exact fun id' hid' => (h.kept id' hid').imp_left (List.mem_cons_of_mem _)

theorem owners_delete (h : Owners s) (htc : tc ∈ s.commands .started) :
    Owners (s.next (.delete tc)) := by
  obtain ⟨id, hid⟩ := h.exists_caller htc
  have hne {tc' : Pointer} {id' : ℕ} (hid' : (s.next (.delete tc)).caller tc' = some id') :
      tc' ≠ tc ∧ s.caller tc' = some id' := by
    have hne : tc' ≠ tc := by
      rintro rfl
      exact absurd ((Function.update_self _ _ _).symm.trans hid') (by simp)
    exact ⟨hne, (Function.update_of_ne hne _ _).symm.trans hid'⟩
  refine ⟨?_, h.placed, h.startsOnce, h.startsLt, ?_, ?_, ?_, ?_⟩
  · have hset : {tc' | ((s.next (.delete tc)).caller tc').isSome} =
        {tc' | (s.caller tc').isSome} \ {tc} := by
      ext tc'
      show (Function.update s.caller tc none tc').isSome = true ↔ _
      by_cases heq : tc' = tc
      · simp [heq]
      · rw [Function.update_of_ne heq]
        simp [heq]
    rw [hset]
    exact h.owned.discard htc
  · exact fun tc₁ tc₂ id' h₁ h₂ => h.unique tc₁ tc₂ id' (hne h₁).2 (hne h₂).2
  · intro tc' id' hid'
    obtain ⟨hne, hid'⟩ := hne hid'
    obtain ⟨hlt, hiff⟩ := h.called tc' id' hid'
    refine ⟨hlt, hiff.trans ?_⟩
    exact (mem_discard_of_ne hne).symm
  · intro id' hlt
    rcases h.kept id' hlt with hmem | ⟨tc', hid'⟩
    · exact Or.inl hmem
    · by_cases heq : tc' = tc
      · subst heq
        exact Or.inl ((h.called tc' id' hid').2.mpr htc)
      · exact Or.inr ⟨tc', (Function.update_of_ne heq _ _).trans hid'⟩
  · show (s.dangling || (s.caller tc).isNone) = false
    rw [h.dangling, hid]
    rfl

/-! ## Pipes -/

/-- The bytes of a command that are written already. -/
def SpawnState.current (s : SpawnState) : Channel → Bytes
  | .sendCtl => []
  | .onOne => (s.commands .writing).flatMap fun tc => (onOneCommand tc).take s.totalBytesWritten

/-- What was written to a pipe and not read, if a handler reads whole commands. -/
def SpawnState.sent (s : SpawnState) (ch : Channel) : Bytes :=
  (s.commands (.queued ch)).flatMap onOneCommand ++ s.current ch

/-- How much a handler has read of the first command. -/
def HandlerPhase.taken : HandlerPhase → ℕ
  | .reading => 1
  | _ => 0

/-- What is in the pipes. -/
structure Pipes (s : SpawnState) : Prop where
  oneWriter : (s.commands .writing).length ≤ 1
  written : s.totalBytesWritten < ooCommandBufSize
  idle : s.commands .writing = [] → s.totalBytesWritten = 0
  stream : ∀ ch, s.stream ch = (s.sent ch).drop (s.handler ch).taken
  reading : ∀ ch, s.handler ch = .reading → s.sent ch ≠ []
  commanded : ∀ ch, s.handler ch ≠ .ignored
  cut : s.cut = false → s.totalBytesWritten = 0
  framed : s.failed = true → s.cut = true

theorem length_onOneCommand (tc : Pointer) : (onOneCommand tc).length = ooCommandBufSize := by
  simp [onOneCommand, ooCommandBufSize]

/-- More is written to a pipe. -/
theorem Pipes.drop_append (h : Pipes s) (ch : Channel) (bytes : Bytes) :
    (s.sent ch ++ bytes).drop (s.handler ch).taken = s.stream ch ++ bytes := by
  rw [h.stream ch]
  apply List.drop_append_of_le_length
  cases hphase : s.handler ch with
  | reading => exact List.length_pos_iff.mpr (h.reading ch hphase)
  | _ => exact Nat.zero_le _

/-- Fields that are not about pipes. -/
theorem Pipes.congr (h : Pipes s) {s' : SpawnState}
    (hwriting : s'.commands .writing = s.commands .writing)
    (hqueued : ∀ ch, s'.commands (.queued ch) = s.commands (.queued ch))
    (hwritten : s'.totalBytesWritten = s.totalBytesWritten) (hstream : s'.stream = s.stream)
    (hhandler : s'.handler = s.handler) (hcut : s'.cut = s.cut) (hfailed : s'.failed = s.failed) :
    Pipes s' := by
  have hsent (ch : Channel) : s'.sent ch = s.sent ch := by
    cases ch with
    | sendCtl => simp only [SpawnState.sent, SpawnState.current, hqueued]
    | onOne => simp only [SpawnState.sent, SpawnState.current, hqueued, hwriting, hwritten]
  refine ⟨?_, ?_, ?_, fun ch => ?_, fun ch hreading => ?_, fun ch => ?_, ?_, ?_⟩
  · rw [hwriting]
    exact h.oneWriter
  · rw [hwritten]
    exact h.written
  · rw [hwriting, hwritten]
    exact h.idle
  · rw [hstream, hhandler, hsent]
    exact h.stream ch
  · rw [hhandler] at hreading
    rw [hsent]
    exact h.reading ch hreading
  · rw [hhandler]
    exact h.commanded ch
  · rw [hcut, hwritten]
    exact h.cut
  · rw [hfailed, hcut]
    exact h.framed

/-- A thread writes a whole command. -/
theorem pipes_send (h : Pipes s) : Pipes (s.next (.send tc)) := by
  have hqueued (ch : Channel) : (s.next (.send tc)).commands (.queued ch) =
      s.commands (.queued ch) ++ if ch = .sendCtl then [tc] else [] := by
    show transfer s.commands tc .sending (.queued .sendCtl) (.queued ch) = _
    cases ch with
    | sendCtl => exact transfer_target
    | onOne =>
      rw [transfer_of_ne (by decide) (by decide), if_neg (by decide), List.append_nil]
  have hwriting : (s.next (.send tc)).commands .writing = s.commands .writing := by
    show transfer s.commands tc .sending (.queued .sendCtl) .writing = _
    exact transfer_of_ne (by decide) (by decide)
  have hsent (ch : Channel) : (s.next (.send tc)).sent ch =
      s.sent ch ++ if ch = .sendCtl then onOneCommand tc else [] := by
    cases ch with
    | sendCtl => simp [SpawnState.sent, SpawnState.current, hqueued]
    | onOne =>
      have hcurrent : (s.next (.send tc)).current .onOne = s.current .onOne := by
        simp only [SpawnState.current, hwriting]
        rfl
      simp [SpawnState.sent, hqueued, hcurrent]
  have hstream (ch : Channel) : (s.next (.send tc)).stream ch =
      s.stream ch ++ if ch = .sendCtl then onOneCommand tc else [] := by
    show Function.update s.stream .sendCtl (s.stream .sendCtl ++ onOneCommand tc) ch = _
    cases ch with
    | sendCtl => exact Function.update_self _ _ _
    | onOne => simp
  refine ⟨?_, h.written, ?_, fun ch => ?_, fun ch hreading => ?_, h.commanded, h.cut, h.framed⟩
  · rw [hwriting]
    exact h.oneWriter
  · rw [hwriting]
    exact h.idle
  · rw [hstream, hsent]
    exact (h.drop_append ch _).symm
  · rw [hsent]
    exact List.append_ne_nil_of_left_ne_nil (h.reading ch hreading) _

/-- A fiber locks the mutex and has written nothing. -/
theorem pipes_lock (h : Pipes s) (hfree : s.commands .writing = []) :
    Pipes (s.next (.lock tc)) := by
  have hwriting : (s.next (.lock tc)).commands .writing = [tc] := by
    show transfer s.commands tc .wanting .writing .writing = _
    rw [transfer_target, hfree]
    rfl
  have hqueued (ch : Channel) :
      (s.next (.lock tc)).commands (.queued ch) = s.commands (.queued ch) := by
    show transfer s.commands tc .wanting .writing (.queued ch) = _
    exact transfer_of_ne (by simp) (by simp)
  have hsent (ch : Channel) : (s.next (.lock tc)).sent ch = s.sent ch := by
    have hcurrent : (s.next (.lock tc)).current ch = s.current ch := by
      cases ch with
      | sendCtl => rfl
      | onOne =>
        simp only [SpawnState.current, hwriting, hfree]
        rfl
    rw [SpawnState.sent, SpawnState.sent, hqueued, hcurrent]
  refine ⟨?_, ?_, ?_, fun ch => ?_, fun ch hreading => ?_, h.commanded, fun _ => rfl, h.framed⟩
  · rw [hwriting]
    exact Nat.le_refl 1
  · exact Nat.succ_pos 8
  · rw [hwriting]
    exact fun hnil => absurd hnil (List.cons_ne_nil _ _)
  · rw [hsent]
    exact h.stream ch
  · rw [hsent]
    exact h.reading ch hreading

/-- What a fiber has written is the beginning of its command. -/
theorem pipes_write (h : Pipes s) {n : ℕ} (hen : s.enabled (.write n)) :
    Pipes (s.next (.write n)) := by
  obtain ⟨-, hne, hpos, hle⟩ := hen
  obtain ⟨tc, hwriting⟩ : ∃ tc, s.commands .writing = [tc] := by
    cases hlist : s.commands .writing with
    | nil => exact absurd hlist hne
    | cons tc rest =>
      have hone := h.oneWriter
      rw [hlist, List.length_cons] at hone
      have hrest : rest = [] := List.eq_nil_of_length_eq_zero (by omega)
      exact ⟨tc, by rw [hrest]⟩
  have hcurrent : s.current .onOne = (onOneCommand tc).take s.totalBytesWritten := by
    simp [SpawnState.current, hwriting]
  let buf := ((onOneCommand tc).drop s.totalBytesWritten).take n
  have htake : (onOneCommand tc).take s.totalBytesWritten ++ buf =
      (onOneCommand tc).take (s.totalBytesWritten + n) := List.take_add.symm
  have hstream (ch : Channel) : (s.push .onOne buf).stream ch =
      s.stream ch ++ if ch = .onOne then buf else [] := by
    show Function.update s.stream .onOne (s.stream .onOne ++ buf) ch = _
    cases ch with
    | sendCtl => simp
    | onOne => exact Function.update_self _ _ _
  have hnext : s.next (.write n) =
      if s.totalBytesWritten + n < ooCommandBufSize then
        { s.push .onOne buf with totalBytesWritten := s.totalBytesWritten + n, cut := true }
      else
        { (s.push .onOne buf).moveCommand tc .writing (.queued .onOne) with
          totalBytesWritten := 0 } := by
    simp only [SpawnState.next, hwriting]
    rfl
  rw [hnext]
  by_cases hlt : s.totalBytesWritten + n < ooCommandBufSize
  · rw [if_pos hlt]
    generalize hs' : SpawnState.mk _ _ _ _ _ _ _ _ _ _ _ _ _ _ = s'
    have hsent (ch : Channel) : s'.sent ch = s.sent ch ++ if ch = .onOne then buf else [] := by
      rw [← hs']
      cases ch with
      | sendCtl => simp [SpawnState.sent, SpawnState.current, SpawnState.push]
      | onOne =>
        simp only [SpawnState.sent, hcurrent, List.append_assoc, if_true, htake]
        simp [SpawnState.current, SpawnState.push, hwriting]
    have hstream' (ch : Channel) :
        s'.stream ch = s.stream ch ++ if ch = .onOne then buf else [] := by
      rw [← hs']
      exact hstream ch
    have hhandler : s'.handler = s.handler := by rw [← hs']; rfl
    refine ⟨?_, ?_, ?_, fun ch => ?_, fun ch hreading => ?_, ?_, ?_, ?_⟩
    · rw [← hs']
      exact h.oneWriter
    · rw [← hs']
      exact hlt
    · rw [← hs']
      exact fun hnil => absurd hnil hne
    · rw [hstream', hsent, hhandler]
      exact (h.drop_append ch _).symm
    · rw [hhandler] at hreading
      rw [hsent]
      exact List.append_ne_nil_of_left_ne_nil (h.reading ch hreading) _
    · rw [hhandler]
      exact h.commanded
    · rw [← hs']
      exact fun hcut => absurd hcut (by simp)
    · rw [← hs']
      exact fun _ => rfl
  · rw [if_neg hlt]
    have hall : s.totalBytesWritten + n = ooCommandBufSize := by omega
    rw [hall, ← length_onOneCommand tc, List.take_length] at htake
    generalize hs' : SpawnState.mk _ _ _ _ _ _ _ _ _ _ _ _ _ _ = s'
    have hwriting' : s'.commands .writing = [] := by
      rw [← hs']
      show transfer s.commands tc .writing (.queued .onOne) .writing = _
      exact transfer_source_cons (by decide) hwriting
    have hqueued : s'.commands (.queued .onOne) = s.commands (.queued .onOne) ++ [tc] := by
      rw [← hs']
      show transfer s.commands tc .writing (.queued .onOne) (.queued .onOne) = _
      exact transfer_target
    have hqueued' : s'.commands (.queued .sendCtl) = s.commands (.queued .sendCtl) := by
      rw [← hs']
      show transfer s.commands tc .writing (.queued .onOne) (.queued .sendCtl) = _
      exact transfer_of_ne (by decide) (by decide)
    have hsent (ch : Channel) : s'.sent ch = s.sent ch ++ if ch = .onOne then buf else [] := by
      cases ch with
      | sendCtl => simp [SpawnState.sent, SpawnState.current, hqueued']
      | onOne =>
        simp only [SpawnState.sent, hcurrent, List.append_assoc, if_true, htake]
        simp [SpawnState.current, hwriting', hqueued]
    have hstream' (ch : Channel) :
        s'.stream ch = s.stream ch ++ if ch = .onOne then buf else [] := by
      rw [← hs']
      exact hstream ch
    have hhandler : s'.handler = s.handler := by rw [← hs']; rfl
    have hwritten : s'.totalBytesWritten = 0 := by rw [← hs']
    refine ⟨?_, ?_, fun _ => hwritten, fun ch => ?_, fun ch hreading => ?_, ?_, fun _ => hwritten,
      ?_⟩
    · rw [hwriting']
      exact Nat.zero_le 1
    · rw [hwritten]
      exact Nat.succ_pos 8
    · rw [hstream', hsent, hhandler]
      exact (h.drop_append ch _).symm
    · rw [hhandler] at hreading
      rw [hsent]
      exact List.append_ne_nil_of_left_ne_nil (h.reading ch hreading) _
    · rw [hhandler]
      exact h.commanded
    · rw [← hs']
      exact h.framed

/-- What is in a pipe begins with a command, or with the beginning of one. -/
theorem Pipes.sent_cases (h : Pipes s) (ch : Channel) :
    s.sent ch = [] ∨ (∃ tc rest, s.commands (.queued ch) = tc :: rest) ∨
      ch = .onOne ∧ s.commands (.queued ch) = [] ∧ ∃ tc, 0 < s.totalBytesWritten ∧
        s.sent ch = (onOneCommand tc).take s.totalBytesWritten := by
  cases hqueued : s.commands (.queued ch) with
  | cons tc rest => exact Or.inr (Or.inl ⟨tc, rest, rfl⟩)
  | nil =>
    cases ch with
    | sendCtl =>
      left
      simp [SpawnState.sent, SpawnState.current, hqueued]
    | onOne =>
      cases hwriting : s.commands .writing with
      | nil =>
        left
        simp [SpawnState.sent, SpawnState.current, hqueued, hwriting]
      | cons tc rest =>
        have hone := h.oneWriter
        rw [hwriting, List.length_cons] at hone
        have hrest : rest = [] := List.eq_nil_of_length_eq_zero (by omega)
        have hsent : s.sent .onOne = (onOneCommand tc).take s.totalBytesWritten := by
          simp [SpawnState.sent, SpawnState.current, hqueued, hwriting, hrest]
        rcases Nat.eq_zero_or_pos s.totalBytesWritten with hzero | hpos
        · left
          rw [hsent, hzero, List.take_zero]
        · exact Or.inr (Or.inr ⟨rfl, rfl, tc, hpos, hsent⟩)

/-- The first byte of what is in a pipe. -/
theorem Pipes.head_sent (h : Pipes s) {ch : Channel} (hne : s.sent ch ≠ []) :
    ∃ rest, s.sent ch = kOnOne :: rest := by
  rcases h.sent_cases ch with hnil | ⟨tc, rest, hqueued⟩ | ⟨-, -, tc, hpos, hsent⟩
  · exact absurd hnil hne
  · rw [SpawnState.sent, hqueued]
    exact ⟨_, rfl⟩
  · obtain ⟨k, hk⟩ := Nat.exists_eq_succ_of_ne_zero (Nat.ne_of_gt hpos)
    rw [hsent, hk]
    exact ⟨_, rfl⟩

/-- A handler finds the first byte of a command. -/
theorem pipes_ioAvail (h : Pipes s) (harmed : s.handler ch = .armed) (hne : s.stream ch ≠ []) :
    Pipes (s.next (.ioAvail ch)) := by
  have hstream : s.stream ch = s.sent ch := by
    rw [h.stream ch, harmed]
    rfl
  rw [hstream] at hne
  obtain ⟨rest, hsent⟩ := h.head_sent hne
  have hnext : s.next (.ioAvail ch) =
      { s with
        stream := Function.update s.stream ch rest
        handler := Function.update s.handler ch .reading } := by
    simp only [SpawnState.next, hstream.trans hsent, if_true]
  have hstream' (ch' : Channel) : Function.update s.stream ch rest ch' = (s.sent ch').drop
      (Function.update s.handler ch HandlerPhase.reading ch').taken := by
    by_cases heq : ch' = ch
    · subst heq
      rw [Function.update_self, Function.update_self, hsent]
      rfl
    · rw [Function.update_of_ne heq, Function.update_of_ne heq]
      exact h.stream ch'
  rw [hnext]
  refine ⟨h.oneWriter, h.written, h.idle, hstream', fun ch' hreading => ?_, fun ch' => ?_, h.cut,
    h.framed⟩
  · by_cases heq : ch' = ch
    · rw [heq]
      exact hne
    · exact h.reading ch' ((Function.update_of_ne heq _ _).symm.trans hreading)
  · show Function.update s.handler ch HandlerPhase.reading ch' ≠ .ignored
    by_cases heq : ch' = ch
    · rw [heq, Function.update_self]
      decide
    · rw [Function.update_of_ne heq]
      exact h.commanded ch'

/-- What a handler reads is the pointer of the first command, or a cut one. -/
theorem readCaller_cases (h : Pipes s) (hreading : s.handler ch = .reading) :
    (∃ tc rest, s.commands (.queued ch) = tc :: rest ∧ s.next (.readCaller ch) =
      { s.moveCommand tc (.queued ch) .executing with
        stream := Function.update s.stream ch (rest.flatMap onOneCommand ++ s.current ch)
        handler := Function.update s.handler ch .armed }) ∨
    s.cut = true ∧ s.next (.readCaller ch) = { s with failed := true } := by
  have hstream : s.stream ch = (s.sent ch).drop 1 := by
    rw [h.stream ch, hreading]
    rfl
  rcases h.sent_cases ch with hnil | ⟨tc, rest, hqueued⟩ | ⟨-, -, tc, hpos, hsent⟩
  · exact absurd hnil (h.reading ch hreading)
  · left
    have hsplit : s.stream ch = tc.toList ++ (rest.flatMap onOneCommand ++ s.current ch) := by
      rw [hstream, SpawnState.sent, hqueued, List.flatMap_cons, onOneCommand]
      simp
    have htake : (s.stream ch).take 8 = tc.toList := by
      rw [hsplit]
      exact List.take_left' (by simp)
    have hdrop : (s.stream ch).drop 8 = rest.flatMap onOneCommand ++ s.current ch := by
      rw [hsplit]
      exact List.drop_left' (by simp)
    refine ⟨tc, rest, hqueued, ?_⟩
    have hsize : ((s.stream ch).take 8).toArray.size = 8 := by
      rw [htake]
      simp
    have hpointer : (⟨((s.stream ch).take 8).toArray, hsize⟩ : Pointer) = tc := by
      apply Vector.toArray_inj.mp
      show ((s.stream ch).take 8).toArray = tc.toArray
      rw [htake]
      rfl
    show (if h : ((s.stream ch).take 8).toArray.size = 8 then _ else _) = _
    rw [dif_pos hsize, hpointer, hdrop]
  · right
    have hcut : s.cut = true := by
      by_contra hno
      have hzero := h.cut (Bool.eq_false_iff.mpr hno)
      omega
    have hwritten := h.written
    have hshort : ((s.stream ch).take 8).toArray.size ≠ 8 := by
      rw [hstream, hsent, List.size_toArray, List.length_take, List.length_drop, List.length_take,
        length_onOneCommand]
      unfold ooCommandBufSize at *
      omega
    refine ⟨hcut, ?_⟩
    show (if h : ((s.stream ch).take 8).toArray.size = 8 then _ else _) = _
    rw [dif_neg hshort]

theorem pipes_readCaller (h : Pipes s) (hreading : s.handler ch = .reading) :
    Pipes (s.next (.readCaller ch)) := by
  rcases readCaller_cases h hreading with ⟨tc, rest, hqueued, hnext⟩ | ⟨hcut, hnext⟩
  · have hwriting : (s.moveCommand tc (.queued ch) .executing).commands .writing =
        s.commands .writing := by
      show transfer s.commands tc (.queued ch) .executing .writing = _
      exact transfer_of_ne (by simp) (by decide)
    have hsent (ch' : Channel) : (s.next (.readCaller ch)).sent ch' =
        if ch' = ch then rest.flatMap onOneCommand ++ s.current ch else s.sent ch' := by
      have hcurrent : (s.next (.readCaller ch)).current ch' = s.current ch' := by
        rw [hnext]
        cases ch' with
        | sendCtl => rfl
        | onOne =>
          simp only [SpawnState.current, hwriting]
          rfl
      rw [SpawnState.sent, hcurrent, hnext]
      by_cases heq : ch' = ch
      · subst heq
        rw [if_pos rfl]
        have hqueued' : transfer s.commands tc (.queued ch') .executing (.queued ch') = rest :=
          transfer_source_cons (by simp) hqueued
        show (transfer s.commands tc (.queued ch') .executing (.queued ch')).flatMap _ ++ _ = _
        rw [hqueued']
      · have hqueued' : transfer s.commands tc (.queued ch) .executing (.queued ch') =
            s.commands (.queued ch') := transfer_of_ne (by simpa using heq) (by simp)
        show (transfer s.commands tc (.queued ch) .executing (.queued ch')).flatMap _ ++ _ = _
        rw [hqueued', if_neg heq, SpawnState.sent]
    have hhandler (ch' : Channel) : (s.next (.readCaller ch)).handler ch' =
        if ch' = ch then .armed else s.handler ch' := by
      rw [hnext]
      exact Function.update_apply _ _ _ _
    have hstream (ch' : Channel) : (s.next (.readCaller ch)).stream ch' =
        if ch' = ch then rest.flatMap onOneCommand ++ s.current ch else s.stream ch' := by
      rw [hnext]
      exact Function.update_apply _ _ _ _
    refine ⟨?_, ?_, ?_, fun ch' => ?_, fun ch' hreading' => ?_, fun ch' => ?_, ?_, ?_⟩
    · rw [hnext]
      exact (congrArg List.length hwriting).trans_le h.oneWriter
    · rw [hnext]
      exact h.written
    · rw [hnext]
      exact fun hnil => h.idle (hwriting.symm.trans hnil)
    · rw [hstream, hhandler, hsent]
      by_cases heq : ch' = ch
      · simp only [if_pos heq]
        rfl
      · simp only [if_neg heq]
        exact h.stream ch'
    · rw [hhandler] at hreading'
      rw [hsent]
      by_cases heq : ch' = ch
      · rw [if_pos heq] at hreading'
        exact absurd hreading' (by decide)
      · rw [if_neg heq] at hreading' ⊢
        exact h.reading ch' hreading'
    · rw [hhandler]
      split
      · decide
      · exact h.commanded ch'
    · rw [hnext]
      exact h.cut
    · rw [hnext]
      exact h.framed
  · rw [hnext]
    exact ⟨h.oneWriter, h.written, h.idle, h.stream, h.reading, h.commanded, h.cut, fun _ => hcut⟩

/-! ## Counts -/

/-- The number of running fibers, and the threads that wait for it. -/
structure Counts (s : SpawnState) : Prop where
  counted : s.numRunningFibers + (s.functions .done).length = s.made
  waited : ∀ n ∈ s.returns, ∀ id < n, id ∈ s.functions .done
  asleep : ∀ w, s.waiter w = .asleep → s.numRunningFibers ≠ 0

theorem Owners.done_lt (h : Owners s) (hid : id ∈ s.functions .done) : id < s.made :=
  h.startsLt id ((h.placed.mem_iff id).mp ⟨_, hid⟩)

theorem Owners.length_done_le (h : Owners s) : (s.functions .done).length ≤ s.made := by
  have hsub : s.functions .done ⊆ List.range s.made := fun id hid =>
    List.mem_range.mpr (h.done_lt hid)
  have hle := (List.subperm_of_subset (h.placed.nodup .done) hsub).length_le
  rwa [List.length_range] at hle

/-- If there are as many ends as calls, each function has ended. -/
theorem Owners.all_done (h : Owners s) (hlen : (s.functions .done).length = s.made) :
    ∀ id < s.made, id ∈ s.functions .done := by
  have hsub : s.functions .done ⊆ List.range s.made := fun id hid =>
    List.mem_range.mpr (h.done_lt hid)
  have hperm : (s.functions .done).Perm (List.range s.made) := by
    apply (List.subperm_of_subset (h.placed.nodup .done) hsub).perm_of_length_le
    rw [List.length_range, hlen]
  exact fun id hid => hperm.mem_iff.mpr (List.mem_range.mpr hid)

/-- One more call. -/
theorem Counts.call (h : Counts s) (ho : Owners s) {s' : SpawnState}
    (hnum : s'.numRunningFibers = s.numRunningFibers + 1) (hmade : s'.made = s.made + 1)
    (hdone : s'.functions .done = s.functions .done) (hreturns : s'.returns = s.returns) :
    Counts s' := by
  have hcounted := h.counted
  have hle := ho.length_done_le
  refine ⟨?_, ?_, fun _ _ => ?_⟩
  · rw [hnum, hmade, hdone]
    omega
  · rw [hreturns, hdone]
    exact h.waited
  · rw [hnum]
    omega

/-- Fields that are not about counts. -/
theorem Counts.congr (h : Counts s) {s' : SpawnState}
    (hnum : s'.numRunningFibers = s.numRunningFibers) (hmade : s'.made = s.made)
    (hdone : s'.functions .done = s.functions .done) (hreturns : s'.returns = s.returns)
    (hwaiter : s'.waiter = s.waiter) : Counts s' := by
  refine ⟨?_, ?_, ?_⟩
  · rw [hnum, hmade, hdone]
    exact h.counted
  · rw [hreturns, hdone]
    exact h.waited
  · rw [hwaiter, hnum]
    exact h.asleep

/-- The end of a fiber: who sleeps is woken by the last one. -/
theorem counts_exitFiber (h : Counts s) : Counts (s.next (.exitFiber id)) := by
  have hcounted := h.counted
  have hdone : (s.next (.exitFiber id)).functions .done = s.functions .done ++ [id] := by
    have hmove : transfer s.functions id .exiting .done .done = s.functions .done ++ [id] :=
      transfer_target
    show (if s.numRunningFibers - 1 = 0 then _ else _ : SpawnState).functions .done = _
    split <;> exact hmove
  have hnum : (s.next (.exitFiber id)).numRunningFibers = s.numRunningFibers - 1 := by
    show (if s.numRunningFibers - 1 = 0 then _ else _ : SpawnState).numRunningFibers = _
    split <;> rfl
  have hmade : (s.next (.exitFiber id)).made = s.made := by
    show (if s.numRunningFibers - 1 = 0 then _ else _ : SpawnState).made = _
    split <;> rfl
  have hreturns : (s.next (.exitFiber id)).returns = s.returns := by
    show (if s.numRunningFibers - 1 = 0 then _ else _ : SpawnState).returns = _
    split <;> rfl
  refine ⟨?_, ?_, fun w hw hzero => ?_⟩
  · rw [hnum, hdone, hmade, List.length_append, List.length_singleton]
    omega
  · rw [hreturns, hdone]
    exact fun n hn id' hid' => List.mem_append_left _ (h.waited n hn id' hid')
  · rw [hnum] at hzero
    have hwaiter : (s.next (.exitFiber id)).waiter w =
        if s.waiter w = .asleep then .woken else s.waiter w := by
      show (if s.numRunningFibers - 1 = 0 then _ else _ : SpawnState).waiter w = _
      rw [if_pos hzero]
      rfl
    rw [hwaiter] at hw
    split at hw
    · exact absurd hw (by decide)
    · next hne => exact hne hw

/-- A thread tests the number of running fibers. -/
theorem counts_testZero (h : Counts s) (ho : Owners s) (w : ℕ) : Counts (s.testZero w) := by
  have hcounted := h.counted
  unfold SpawnState.testZero
  split
  · next hne => exact ⟨h.counted, h.waited, fun _ _ => hne⟩
  · next heq =>
    have hzero : s.numRunningFibers = 0 := not_not.mp heq
    refine ⟨h.counted, fun n hn => ?_, fun w' hw' => ?_⟩
    · rcases List.mem_cons.mp hn with rfl | hn
      · exact ho.all_done (by omega)
      · exact h.waited n hn
    · by_cases hsame : w' = w
      · rw [hsame] at hw'
        exact absurd ((Function.update_self _ _ _).symm.trans hw') (by decide)
      · exact h.asleep w' ((Function.update_of_ne hsame _ _).symm.trans hw')

/-! ## Runs -/

structure SpawnInv (s : SpawnState) : Prop where
  owners : Owners s
  pipes : Pipes s
  counts : Counts s

theorem spawnInv_init : SpawnInv spawnMachine.init := by
  refine ⟨⟨?_, ?_, List.nodup_nil, ?_, ?_, ?_, ?_, rfl⟩, ⟨?_, ?_, ?_, ?_, ?_, ?_, ?_, ?_⟩,
    ⟨rfl, ?_, ?_⟩⟩
  · exact ⟨⟨fun _ => List.nodup_nil, fun _ _ _ hx => absurd hx List.not_mem_nil⟩,
      fun _ => ⟨fun ⟨_, hx⟩ => absurd hx List.not_mem_nil, fun hx => absurd hx Bool.false_ne_true⟩⟩
  · exact ⟨⟨fun _ => List.nodup_nil, fun _ _ _ hx => absurd hx List.not_mem_nil⟩,
      fun _ => ⟨fun ⟨_, hx⟩ => absurd hx List.not_mem_nil, fun hx => absurd hx List.not_mem_nil⟩⟩
  · exact fun id hid => absurd hid List.not_mem_nil
  · exact fun _ _ id hid => absurd hid (by simp [spawnMachine])
  · exact fun _ id hid => absurd hid (by simp [spawnMachine])
  · exact fun id hid => absurd hid (Nat.not_lt_zero id)
  · exact Nat.zero_le 1
  · exact Nat.succ_pos 8
  · exact fun _ => rfl
  · intro ch
    cases ch <;> rfl
  · exact fun ch hreading => absurd hreading (by simp [spawnMachine])
  · exact fun ch => by simp [spawnMachine]
  · exact fun _ => rfl
  · exact fun hfailed => absurd hfailed Bool.false_ne_true
  · exact fun n hn => absurd hn List.not_mem_nil
  · exact fun w hw => absurd hw (by simp [spawnMachine])

theorem spawnInv_runInFiber (h : SpawnInv s) {fromFiber : Bool} (htc : s.caller tc = none) :
    SpawnInv (s.next (.runInFiber fromFiber tc)) := by
  have hplace (place : CommandPlace) (hwant : place ≠ .wanting) (hsend : place ≠ .sending) :
      (s.next (.runInFiber fromFiber tc)).commands place = s.commands place := by
    cases fromFiber with
    | false => exact Function.update_of_ne hsend _ _
    | true => exact Function.update_of_ne hwant _ _
  refine ⟨owners_runInFiber h.owners htc, ?_, h.counts.call h.owners rfl rfl rfl rfl⟩
  exact h.pipes.congr (hplace _ (by decide) (by decide))
    (fun ch => hplace _ (by simp) (by simp)) rfl rfl rfl rfl rfl

theorem spawnInv_send (h : SpawnInv s) (htc : tc ∈ s.commands .sending) :
    SpawnInv (s.next (.send tc)) :=
  ⟨(h.owners.moveCommand (by decide) htc (by decide) (by decide)).congr rfl rfl rfl rfl rfl rfl,
    pipes_send h.pipes, h.counts.congr rfl rfl rfl rfl rfl⟩

theorem spawnInv_lock (h : SpawnInv s) (htc : tc ∈ s.commands .wanting)
    (hfree : s.commands .writing = []) : SpawnInv (s.next (.lock tc)) :=
  ⟨(h.owners.moveCommand (by decide) htc (by decide) (by decide)).congr rfl rfl rfl rfl rfl rfl,
    pipes_lock h.pipes hfree, h.counts.congr rfl rfl rfl rfl rfl⟩

theorem spawnInv_write (h : SpawnInv s) {n : ℕ} (hen : s.enabled (.write n)) :
    SpawnInv (s.next (.write n)) := by
  have hpipes := pipes_write h.pipes hen
  obtain ⟨-, hne, -, -⟩ := hen
  obtain ⟨tc, rest, hwriting⟩ := List.exists_cons_of_ne_nil hne
  have htc : tc ∈ s.commands .writing := by
    rw [hwriting]
    exact List.mem_cons_self
  have hstay : Owners (s.next (.write n)) ∧ Counts (s.next (.write n)) := by
    simp only [SpawnState.next, hwriting]
    split
    · exact ⟨h.owners.congr rfl rfl rfl rfl rfl rfl, h.counts.congr rfl rfl rfl rfl rfl⟩
    · refine ⟨?_, h.counts.congr rfl rfl rfl rfl rfl⟩
      exact (h.owners.moveCommand (b := .queued .onOne) (by decide) htc (by decide)
        (by decide)).congr rfl rfl rfl rfl rfl rfl
  exact ⟨hstay.1, hpipes, hstay.2⟩

theorem spawnInv_ioAvail (h : SpawnInv s) (harmed : s.handler ch = .armed)
    (hne : s.stream ch ≠ []) : SpawnInv (s.next (.ioAvail ch)) := by
  obtain ⟨cmd, rest, hstream⟩ := List.exists_cons_of_ne_nil hne
  have hstay : Owners (s.next (.ioAvail ch)) ∧ Counts (s.next (.ioAvail ch)) := by
    simp only [SpawnState.next, hstream]
    exact ⟨h.owners.congr rfl rfl rfl rfl rfl rfl, h.counts.congr rfl rfl rfl rfl rfl⟩
  exact ⟨hstay.1, pipes_ioAvail h.pipes harmed hne, hstay.2⟩

theorem spawnInv_readCaller (h : SpawnInv s) (hreading : s.handler ch = .reading) :
    SpawnInv (s.next (.readCaller ch)) := by
  have hpipes := pipes_readCaller h.pipes hreading
  rcases readCaller_cases h.pipes hreading with ⟨tc, rest, hqueued, hnext⟩ | ⟨-, hnext⟩
  · have htc : tc ∈ s.commands (.queued ch) := by
      rw [hqueued]
      exact List.mem_cons_self
    rw [hnext] at hpipes ⊢
    exact ⟨(h.owners.moveCommand (by simp) htc (by simp) (by decide)).congr rfl rfl rfl rfl rfl rfl,
      hpipes, h.counts.congr rfl rfl rfl rfl rfl⟩
  · rw [hnext] at hpipes ⊢
    exact ⟨h.owners.congr rfl rfl rfl rfl rfl rfl, hpipes, h.counts.congr rfl rfl rfl rfl rfl⟩

theorem spawnInv_exec (h : SpawnInv s) (htc : tc ∈ s.commands .executing) :
    SpawnInv (s.next (.exec tc)) := by
  have howners := owners_exec h.owners htc
  obtain ⟨id, hid⟩ := h.owners.exists_caller htc
  have hnext := exec_of_caller hid
  have hplace (place : CommandPlace) (hex : place ≠ .executing) (hst : place ≠ .started) :
      transfer s.commands tc .executing .started place = s.commands place :=
    transfer_of_ne hex hst
  rw [hnext] at howners ⊢
  refine ⟨howners, ?_, h.counts.congr rfl rfl rfl rfl rfl⟩
  exact h.pipes.congr (hplace .writing (by decide) (by decide))
    (fun ch => hplace (.queued ch) (by simp) (by simp)) rfl rfl rfl rfl rfl

theorem spawnInv_delete (h : SpawnInv s) (htc : tc ∈ s.commands .started) :
    SpawnInv (s.next (.delete tc)) := by
  have hplace (place : CommandPlace) (hne : place ≠ .started) :
      discard s.commands tc .started place = s.commands place := Function.update_of_ne hne _ _
  refine ⟨owners_delete h.owners htc, ?_, h.counts.congr rfl rfl rfl rfl rfl⟩
  exact h.pipes.congr (hplace .writing (by decide)) (fun ch => hplace (.queued ch) (by simp)) rfl
    rfl rfl rfl rfl

theorem spawnInv_stopFiber (h : SpawnInv s) (hid : id ∈ s.functions .running) :
    SpawnInv (s.next (.stopFiber id)) := by
  have hdone : transfer s.functions id .running .exiting .done = s.functions .done :=
    transfer_of_ne (by decide) (by decide)
  exact ⟨h.owners.moveFunction (by decide) hid,
    h.pipes.congr rfl (fun _ => rfl) rfl rfl rfl rfl rfl, h.counts.congr rfl rfl hdone rfl rfl⟩

theorem spawnInv_exitFiber (h : SpawnInv s) (hid : id ∈ s.functions .exiting) :
    SpawnInv (s.next (.exitFiber id)) := by
  have howners : Owners (s.moveFunction id .exiting .done) := h.owners.moveFunction (by decide) hid
  have hstay : Owners (s.next (.exitFiber id)) ∧ Pipes (s.next (.exitFiber id)) := by
    simp only [SpawnState.next]
    split
    · exact ⟨howners.congr rfl rfl rfl rfl rfl rfl,
        h.pipes.congr rfl (fun _ => rfl) rfl rfl rfl rfl rfl⟩
    · exact ⟨howners.congr rfl rfl rfl rfl rfl rfl,
        h.pipes.congr rfl (fun _ => rfl) rfl rfl rfl rfl rfl⟩
  exact ⟨hstay.1, hstay.2, counts_exitFiber h.counts⟩

theorem spawnInv_testZero (h : SpawnInv s) (w : ℕ) : SpawnInv (s.testZero w) := by
  have hstay : Owners (s.testZero w) ∧ Pipes (s.testZero w) := by
    unfold SpawnState.testZero
    split
    · exact ⟨h.owners.congr rfl rfl rfl rfl rfl rfl,
        h.pipes.congr rfl (fun _ => rfl) rfl rfl rfl rfl rfl⟩
    · exact ⟨h.owners.congr rfl rfl rfl rfl rfl rfl,
        h.pipes.congr rfl (fun _ => rfl) rfl rfl rfl rfl rfl⟩
  exact ⟨hstay.1, hstay.2, counts_testZero h.counts h.owners w⟩

theorem spawnInv_next {x : SpawnAction} (h : SpawnInv s) (hen : s.enabled x) :
    SpawnInv (s.next x) := by
  cases x with
  | runInFiber fromFiber tc => exact spawnInv_runInFiber h hen.2
  | construct =>
    exact ⟨owners_construct h.owners, h.pipes.congr rfl (fun _ => rfl) rfl rfl rfl rfl rfl,
      h.counts.call h.owners rfl rfl rfl rfl⟩
  | send tc => exact spawnInv_send h hen.2
  | lock tc => exact spawnInv_lock h hen.2.1 hen.2.2
  | write n => exact spawnInv_write h hen
  | ioAvail ch => exact spawnInv_ioAvail h hen.2.1 hen.2.2
  | readCaller ch => exact spawnInv_readCaller h hen.2
  | exec tc => exact spawnInv_exec h hen.2
  | delete tc => exact spawnInv_delete h hen.2
  | stopFiber id => exact spawnInv_stopFiber h hen.2
  | exitFiber id => exact spawnInv_exitFiber h hen.2
  | waitForZeroFibers w => exact spawnInv_testZero h w
  | wake w => exact spawnInv_testZero h w

/-- A function is started, or waits. -/
theorem Owners.started_iff (h : Owners s) (hid : id < s.made) : id ∈ s.starts ↔ ¬s.Waiting id := by
  constructor
  · rintro hstarted ⟨place, tc, hne, htc, hcaller⟩
    have hmem := (h.called tc id hcaller).2.mp hstarted
    exact hne (h.owned.unique _ _ _ htc hmem)
  · intro hno
    by_contra hstarted
    obtain ⟨tc, hcaller⟩ := (h.kept id hid).resolve_left hstarted
    obtain ⟨place, htc⟩ := (h.owned.mem_iff tc).mpr (Option.isSome_iff_exists.mpr ⟨id, hcaller⟩)
    refine hno ⟨place, tc, ?_, htc, hcaller⟩
    rintro rfl
    exact hstarted ((h.called tc id hcaller).2.mpr htc)

/-- A pipe is not at rest with something in it. -/
theorem SpawnInv.queued_eq_nil (h : SpawnInv s) (hfailed : s.failed = false) (hrest : s.AtRest)
    (ch : Channel) : s.commands (.queued ch) = [] := by
  by_contra hne
  obtain ⟨tc, rest, hqueued⟩ := List.exists_cons_of_ne_nil hne
  cases hphase : s.handler ch with
  | ignored => exact h.pipes.commanded ch hphase
  | reading => exact hrest (.readCaller ch) ⟨hfailed, hphase⟩
  | armed =>
    refine hrest (.ioAvail ch) ⟨hfailed, hphase, ?_⟩
    rw [h.pipes.stream ch, hphase, SpawnState.sent, hqueued]
    exact List.cons_ne_nil _ _

/-- Nothing waits for a fiber at rest. -/
theorem SpawnInv.not_waiting (h : SpawnInv s) (hfailed : s.failed = false) (hrest : s.AtRest) :
    ¬s.Waiting id := by
  rintro ⟨place, tc, hne, htc, -⟩
  have hwriting : s.commands .writing = [] := by
    by_contra hsome
    have hwritten := h.pipes.written
    exact hrest (.write 1) ⟨hfailed, hsome, Nat.one_pos, hwritten⟩
  cases place with
  | sending => exact hrest (.send tc) ⟨hfailed, htc⟩
  | wanting => exact hrest (.lock tc) ⟨hfailed, htc, hwriting⟩
  | writing =>
    rw [hwriting] at htc
    exact List.not_mem_nil htc
  | queued ch =>
    rw [h.queued_eq_nil hfailed hrest ch] at htc
    exact List.not_mem_nil htc
  | executing => exact hrest (.exec tc) ⟨hfailed, htc⟩
  | started => exact hne rfl

/-- When no function is running, the last one to end has woken everybody. -/
theorem SpawnInv.not_asleep (h : SpawnInv s) (hfailed : s.failed = false) (hrest : s.AtRest)
    (hrunning : s.functions .running = []) (w : ℕ) : s.waiter w ≠ .asleep := by
  intro hasleep
  have hdone (id : ℕ) (hid : id < s.made) : id ∈ s.functions .done := by
    have hstarted := (h.owners.started_iff hid).mpr (h.not_waiting hfailed hrest)
    obtain ⟨place, hplace⟩ := (h.owners.placed.mem_iff id).mpr hstarted
    cases place with
    | running =>
      rw [hrunning] at hplace
      exact absurd hplace List.not_mem_nil
    | exiting => exact False.elim (hrest (.exitFiber id) ⟨hfailed, hplace⟩)
    | done => exact hplace
  have hsub : List.range s.made ⊆ s.functions .done := fun id hid =>
    hdone id (List.mem_range.mp hid)
  have hle := (List.subperm_of_subset List.nodup_range hsub).length_le
  rw [List.length_range] at hle
  have hcounted := h.counts.counted
  have hle' := h.owners.length_done_le
  exact h.counts.asleep w hasleep (by omega)

/-- In every run, each function that is passed to `run_in_fiber` is run once, the commands of
threads and fibers do not mix, no object is lost or used after its end, and `wait_for_zero_fibers`
returns when the functions have ended that were counted before. -/
theorem run_in_fiber_accounts (hs : spawnMachine.Reachable Machine.anyStep s) : s.Accounts := by
  have h : SpawnInv s := by
    apply Machine.Reachable.invariant _ _ hs
    · exact spawnInv_init
    · exact fun s x h _ hen => spawnInv_next h hen
  refine ⟨h.owners.startsOnce, fun id hid => h.owners.started_iff hid, h.owners.placed,
    h.owners.owned, h.owners.dangling, h.counts.counted, h.counts.waited, h.pipes.framed,
    h.pipes.commanded, fun hrest hfailed => ⟨fun id hid => ?_, fun hrunning w => ?_⟩⟩
  · exact (h.owners.started_iff hid).mpr (h.not_waiting hfailed hrest)
  · exact h.not_asleep hfailed hrest hrunning w

/-- A thread and two fibers call, one of the fibers with two writes, while a thread waits. -/
theorem run_in_fiber_accounts_three : ∃ s : SpawnState,
    (s.starts = [2, 1, 0] ∧ s.functions .done = [1, 0, 2] ∧ s.returns = [3] ∧ s.cut = true ∧
      s.numRunningFibers = 0) ∧ s.Accounts := by
  let tc (b : UInt8) : Pointer := Vector.replicate 8 b
  have hreplay : (spawnMachine.replay Machine.anyStep
      [.runInFiber false (tc 1), .send (tc 1), .waitForZeroFibers 0, .runInFiber true (tc 2),
        .runInFiber true (tc 3), .lock (tc 2), .ioAvail .sendCtl, .write 4, .write 5, .lock (tc 3),
        .readCaller .sendCtl, .exec (tc 1), .ioAvail .onOne, .readCaller .onOne, .write 9,
        .exec (tc 2), .stopFiber 1, .exitFiber 1, .delete (tc 2), .wake 0, .stopFiber 0,
        .ioAvail .onOne, .readCaller .onOne, .exitFiber 0, .exec (tc 3), .stopFiber 2,
        .exitFiber 2, .wake 0, .delete (tc 3), .delete (tc 1)]
      spawnMachine.init).any (fun s => decide
        (s.starts = [2, 1, 0] ∧ s.functions .done = [1, 0, 2] ∧ s.returns = [3] ∧ s.cut = true ∧
          s.numRunningFibers = 0)) = true := by
    decide +kernel
  obtain ⟨s, hs, hp⟩ := Machine.reachable_of_replay hreplay
  exact ⟨s, of_decide_eq_true hp, run_in_fiber_accounts hs⟩

end Anon.Fiber
