import Anon.Fiber.NetPipes
import Anon.IoDispatch.AtRestTheorems

/-!
# The places of pipes and sweeps

* `NetMoves` says once what a step can do; every invariant is a case analysis over it.
* `Fits`: what a thread can be in the middle of, by where it is in `io_dispatch`.
* `Account`: the counter of the mutex, and its one holder.
-/

namespace Anon.Fiber.NetPipes

open Anon.IoDispatch NetState

variable {A : Type} [Fintype A] [DecidableEq A] {io : A → Bool}

/-! ## What a step of `io_dispatch` does -/

section Dispatch

variable {d d' : PauseState A} {x : PauseAction A} {b : A}

/-- In a call of `while_paused2` whose function has not been called. -/
def inPause2 : Pc → Bool
  | .locked k _ | .writing k _ _ | .pauseWait k _ _ | .calling k _ => k.fromIo
  | _ => false

theorem inPause2_awake (pc : Pc) : inPause2 pc.awake = inPause2 pc := by
  cases pc <;> rfl

/-- Whoever is in a call of `while_paused2` calls the function next, or stays in it. -/
theorem inPause2_step (hp : Places io d) (hm : IoDispatch.Moves io d x d')
    (hb : inPause2 (d.pc b) = true) (hx : ∀ throws, x ≠ .call b throws) :
    inPause2 (d'.pc b) = true := by
  by_cases hbx : b = x.actor
  · subst hbx
    cases hm with
    | callWhilePaused2 a p throws ha => exact absurd rfl (hx throws)
    | spurious a pc ha =>
      have hself : (d.setPc a pc).pc a = pc := Function.update_self _ _ _
      rw [PauseAction.actor, hself, role_congr inPause2_awake (Pc.awake_of_spurious ha)]
      exact hb
    | _ => simp_all [inPause2]
  · rw [role_congr inPause2_awake (hm.awake_of_ne hp hbx)]
    exact hb

/-- An io thread gets into a callback through an event only. -/
theorem dispatches_step (hp : Places io d) (hm : IoDispatch.Moves io d x d')
    (hb : (d'.pc b).dispatches = true) (hx : x ≠ .event b) : (d.pc b).dispatches = true := by
  by_cases hbx : b = x.actor
  · subst hbx
    cases hm with
    | event a ha => exact absurd rfl hx
    | resumed a p ha hc hn =>
      have hpc : (d.wakeNext io a).pc a = .top := by
        simp only [PauseState.wakeNext, ha, if_pos hn]
        split <;> simp [Pc.notifyResume2]
      rw [PauseAction.actor, hpc] at hb
      exact absurd hb (by decide)
    | top a ha =>
      simp only [PauseState.topNext] at hb
      split at hb
      · simp [Pc.dispatches] at hb
      · split at hb <;> simp [Pc.dispatches] at hb
    | spurious a pc ha =>
      have hself : (d.setPc a pc).pc a = pc := Function.update_self _ _ _
      rw [PauseAction.actor, hself,
        role_congr Pc.dispatches_awake (Pc.awake_of_spurious ha)] at hb
      exact hb
    | _ => simp_all [Pc.dispatches]
  · rwa [role_congr Pc.dispatches_awake (hm.awake_of_ne hp hbx)] at hb

/-- How a thread comes to the at-rest functions that it has before it. -/
theorem resting_step (hp : Places io d) (hm : IoDispatch.Moves io d x d') {todo : List ℕ}
    (hb : (d'.pc b).resting = some todo) :
    (d.pc b).resting = some todo ∨ x = .lockAtRest b ∧ todo = d.atRestFunctions ∨
      x = .runAtRest b ∧ ∃ f, d.pc b = .atRest (f :: todo) := by
  by_cases hbx : b = x.actor
  · subst hbx
    cases hm with
    | lockAtRest a ha hc =>
      simp only [PauseAction.actor, PauseState.setPc, Function.update_self] at hb
      exact .inr (.inl ⟨rfl, (Option.some.inj hb).symm⟩)
    | runAtRest a f todo' ha =>
      simp only [PauseAction.actor, PauseState.setPc, Function.update_self] at hb
      have htodo : todo' = todo := Option.some.inj hb
      exact .inr (.inr ⟨rfl, f, by rw [← htodo]; exact ha⟩)
    | callWhilePaused a p throws ha =>
      cases throws <;> simp [PauseState.endWhilePaused, Pc.resting] at hb
    | callWhilePaused2 a p throws ha =>
      simp only [PauseState.endWhilePaused2] at hb
      split at hb <;> simp [Pc.resting] at hb
    | resumed a p ha hc hn =>
      have hpc : (d.wakeNext io a).pc a = .top := by
        simp only [PauseState.wakeNext, ha, if_pos hn]
        split <;> simp [Pc.notifyResume2]
      rw [PauseAction.actor, hpc] at hb
      exact absurd hb (by simp [Pc.resting])
    | top a ha =>
      simp only [PauseState.topNext] at hb
      split at hb
      · simp [Pc.resting] at hb
      · split at hb <;> simp [Pc.resting] at hb
    | beginEach a ha ho =>
      simp only [PauseState.beginEachNext] at hb
      split at hb <;> simp [PauseState.endEach, Pc.resting] at hb
    | spurious a pc ha =>
      have hself : (d.setPc a pc).pc a = pc := Function.update_self _ _ _
      rw [PauseAction.actor, hself,
        role_congr Pc.resting_awake (Pc.awake_of_spurious ha)] at hb
      exact .inl hb
    | _ => simp_all [Pc.resting, PauseState.endEach]
  · rw [role_congr Pc.resting_awake (hm.awake_of_ne hp hbx)] at hb
    exact .inl hb

/-- A registered function waits until the list is cleared. -/
theorem mem_atRestFunctions_step (hm : IoDispatch.Moves io d x d') {f : ℕ}
    (hf : f ∈ d.atRestFunctions) :
    f ∈ d'.atRestFunctions ∨ d.pc x.actor = .atRest [] := by
  cases hm with
  | endAtRest a ha => exact .inr ha
  | callWhilePaused a p throws ha => cases throws <;> exact .inl hf
  | callWhilePaused2 a p throws ha =>
    simp only [PauseState.endWhilePaused2]
    cases throws <;> split <;> simp [hf]
  | resumed a p ha hc hn =>
    simp only [PauseState.wakeNext, ha, if_pos hn]
    split <;> exact .inl hf
  | top a ha =>
    simp only [PauseState.topNext]
    split
    · exact .inl hf
    · split <;> exact .inl hf
  | beginEach a ha ho =>
    simp only [PauseState.beginEachNext]
    split <;> exact .inl hf
  | count a w p ha hc hw =>
    simp only [PauseState.countPaused]
    split <;> cases w <;> exact .inl hf
  | exec a w c ha ho hw =>
    simp only [PauseState.passOn]
    split <;> cases w <;> exact .inl hf
  | _ => exact .inl hf

theorem registrations_step (hm : IoDispatch.Moves io d x d') :
    d.registrations ≤ d'.registrations := by
  cases hm with
  | callWhilePaused a p throws ha => cases throws <;> exact le_rfl
  | callWhilePaused2 a p throws ha =>
    simp only [PauseState.endWhilePaused2]
    split <;> exact Nat.le_succ _
  | resumed a p ha hc hn =>
    simp only [PauseState.wakeNext, ha, if_pos hn]
    split <;> exact le_rfl
  | top a ha =>
    simp only [PauseState.topNext]
    split
    · exact le_rfl
    · split <;> exact le_rfl
  | beginEach a ha ho =>
    simp only [PauseState.beginEachNext]
    split <;> exact le_rfl
  | count a w p ha hc hw =>
    simp only [PauseState.countPaused]
    split <;> cases w <;> exact le_rfl
  | exec a w c ha ho hw =>
    simp only [PauseState.passOn]
    split <;> cases w <;> exact le_rfl
  | _ => exact le_rfl

end Dispatch

/-! ## What a step can do -/

variable {s s' : NetState A} {y : NetAction A} {a b : A} {c : NetCall}

/-- One step of the machine, with what its guard gives and the state it leads to. -/
inductive NetMoves (io : A → Bool) (s : NetState A) : NetAction A → NetState A → Prop
  | io (x : PauseAction A) (d : PauseState A) (hd : IoDispatch.Moves io s.dispatch x d)
      (hbusy : s.busy x.actor = false) (hcalls : s.callsSweep x = false) :
      NetMoves io s (.io x) { s with dispatch := d }
  | newCaller : NetMoves io s .newCaller { s with callers := s.callers + 1 }
  | enter (a : A) (c : NetCall) (ha : s.runsFiber io a) (hc : c.inFiber = true) (n : ℕ) :
      NetMoves io s (.enter a c) ({ s with pipes := n }.setCall a (.lock c))
  | hibernate (a : A) (ha : s.runsFiber io a) (hout : s.sweep a = .out) :
      NetMoves io s (.hibernate a) (s.setSweep a (.start true))
  | runTask (a : A) (e : ScheduledTask × Bool) (ha : s.runsFiber io a) (hout : s.sweep a = .out)
      (he : e ∈ s.tasks) :
      NetMoves io s (.runTask a e) ({ s with tasks := s.tasks.erase e }.setSweep a (.start e.2))
  | pause (a : A) (h : Bool) (d : PauseState A) (ha : s.sweep a = .start h)
      (hd : IoDispatch.Moves io s.dispatch (.begin_ .whilePaused2 a) d) :
      NetMoves io s (.pause a) ({ s with dispatch := d }.setSweep a (.pausing h))
  | refuseHibernating (a : A) (now : Timespec) (ha : s.sweep a = .start true) :
      NetMoves io s (.refuse a now) ((s.scheduleSweep now true).setSweep a .out)
  | refuseRegular (a : A) (now : Timespec) (ha : s.sweep a = .start false) :
      NetMoves io s (.refuse a now) ((s.setSweep a .out).setCall a (.lock .refused))
  | detach (a : A) (h throws : Bool) (d : PauseState A) (ha : s.sweep a = .pausing h)
      (hd : IoDispatch.Moves io s.dispatch (.call a throws) d) :
      NetMoves io s (.detach a throws)
        ({ s with
          dispatch := d
          restFunctions :=
            if throws then s.restFunctions
            else (s.dispatch.registrations, h) :: s.restFunctions }.setSweep a .out)
  | expire (a : A) (h : Bool) (d : PauseState A) (f : ℕ) (todo : List ℕ)
      (ha : s.dispatch.pc a = .atRest (f :: todo))
      (hd : IoDispatch.Moves io s.dispatch (.runAtRest a) d)
      (hbusy : s.busy a = false) (hf : (f, h) ∈ s.restFunctions) :
      NetMoves io s (.expire a h)
        ({ s with
          dispatch := d
          restFunctions := s.restFunctions.erase (f, h) }.setSweep a (.waking h))
  | expiredHibernating (a : A) (ha : s.sweep a = .waking true) (hc : s.call a = .out) :
      NetMoves io s (.expired a) (s.setSweep a .out)
  | expiredRegular (a : A) (ha : s.sweep a = .waking false) (hc : s.call a = .out) :
      NetMoves io s (.expired a) ((s.setSweep a .out).setCall a (.lock .swept))
  | takes (a : A) (c : NetCall) (ha : s.call a = .lock c) (hz : s.state = 0) :
      NetMoves io s (.fetchAdd a) ({ s with state := 1 }.setCall a (.locked c))
  | finds (a : A) (c : NetCall) (pc : LockPc) (ha : s.call a = .lock c) (hz : s.state ≠ 0)
      (hpc : pc = .sleep c ∨ pc = .backOff c) :
      NetMoves io s (.fetchAdd a) ({ s with state := s.state + 1 }.setCall a pc)
  | backOff (a : A) (c : NetCall) (ha : s.call a = .backOff c) :
      NetMoves io s (.backOff a) ({ s with state := s.state - 1 }.setCall a (.lock c))
  | sleep (a : A) (c : NetCall) (ha : s.call a = .sleep c) (hc : c.inFiber = true) :
      NetMoves io s (.sleep a) ({ s with asleep := c :: s.asleep }.setCall a (.suspended c))
  | handle (a : A) (c : NetCall) (ha : s.call a = .suspended c) :
      NetMoves io s (.handle a) ({ s with state := s.state - 1 }.setCall a .out)
  | update (a : A) (c : NetCall) (now : Timespec) (ha : s.call a = .locked c) :
      NetMoves io s (.update a now) (s.updateNext a c now)
  | assign (a : A) (c : NetCall) (task : ScheduledTask) (ha : s.call a = .assign c task) :
      NetMoves io s (.assign a) ({ s with nextPipeSweep := task }.setCall a (.unlock c))
  | tryUnlock (a : A) (c : NetCall) (ha : s.call a = .unlock c) (h1 : s.state = 1) :
      NetMoves io s (.tryUnlock a) ({ s with state := 2 }.setCall a (.wake c))
  | wakeSleepers (a : A) (c : NetCall) (ha : s.call a = .wake c) :
      NetMoves io s (.wakeSleepers a)
        ({ s with
          asleep := []
          woken := Function.update s.woken a (s.asleep ++ s.woken a) }.setCall a (.release c))
  | release (a : A) (c : NetCall) (ha : s.call a = .release c) (h2 : s.state = 2) (n : ℕ) :
      NetMoves io s (.release a) ({ s with state := 0, pipes := n }.setCall a .out)
  | resume (a : A) (c : NetCall) (rest : List NetCall) (ha : s.runsFiber io a)
      (hw : s.woken a = c :: rest) :
      NetMoves io s (.resume a)
        ({ s with woken := Function.update s.woken a rest }.setCall a (.lock c))

/-- Every enabled action is one of the moves. -/
theorem netMoves_of_enabled (h : s.enabled io y) : NetMoves io s y (s.next io y) := by
  cases y with
  | io x => exact .io x _ (IoDispatch.moves_of_enabled h.1) h.2.1 h.2.2
  | newCaller => exact .newCaller
  | enter a c => exact .enter a c h.1 h.2.1 _
  | hibernate a => exact .hibernate a h.1 h.2
  | runTask a e => exact .runTask a e h.1 h.2.1 h.2.2
  | pause a =>
    simp only [NetState.enabled] at h
    split at h
    · next hibernating ha =>
      simp only [NetState.next, ha]
      exact .pause a hibernating _ ha (IoDispatch.moves_of_enabled h)
    · exact h.elim
  | refuse a now =>
    simp only [NetState.enabled] at h
    split at h
    · next hibernating ha =>
      simp only [NetState.next]
      cases hibernating with
      | true =>
        rw [ha]
        exact .refuseHibernating a now ha
      | false =>
        rw [ha]
        exact .refuseRegular a now ha
    · exact h.elim
  | detach a throws =>
    simp only [NetState.enabled] at h
    split at h
    · next hibernating ha =>
      simp only [NetState.next, ha]
      exact .detach a hibernating throws _ ha (IoDispatch.moves_of_enabled h)
    · exact h.elim
  | expire a hibernating =>
    simp only [NetState.enabled] at h
    split at h
    · next f todo ha =>
      simp only [NetState.next, ha]
      refine .expire a hibernating _ f todo ha (IoDispatch.moves_of_enabled ?_) h.1 h.2
      simp only [PauseState.enabled, ha]
      exact List.cons_ne_nil _ _
    · exact h.elim
  | expired a =>
    simp only [NetState.enabled] at h
    split at h
    · next hibernating ha =>
      simp only [NetState.next]
      cases hibernating with
      | true =>
        rw [ha]
        exact .expiredHibernating a ha h
      | false =>
        rw [ha]
        exact .expiredRegular a ha h
    · exact h.elim
  | fetchAdd a =>
    simp only [NetState.enabled] at h
    split at h
    · next c ha =>
      simp only [NetState.next, ha]
      by_cases hz : s.state = 0
      · rw [if_pos hz, hz]
        exact .takes a c ha hz
      · rw [if_neg hz]
        apply NetMoves.finds a c _ ha hz
        split
        · exact .inl rfl
        · exact .inr rfl
    · exact h.elim
  | backOff a =>
    simp only [NetState.enabled] at h
    split at h
    · next c ha =>
      simp only [NetState.next, ha]
      exact .backOff a c ha
    · exact h.elim
  | sleep a =>
    simp only [NetState.enabled] at h
    split at h
    · next c ha =>
      simp only [NetState.next, ha]
      exact .sleep a c ha h
    · exact h.elim
  | handle a =>
    simp only [NetState.enabled] at h
    split at h
    · next c ha => exact .handle a c ha
    · exact h.elim
  | update a now =>
    simp only [NetState.enabled] at h
    split at h
    · next c ha =>
      simp only [NetState.next, ha]
      exact .update a c now ha
    · exact h.elim
  | assign a =>
    simp only [NetState.enabled] at h
    split at h
    · next c task ha =>
      simp only [NetState.next, ha]
      exact .assign a c task ha
    · exact h.elim
  | tryUnlock a =>
    simp only [NetState.enabled] at h
    split at h
    · next c ha =>
      simp only [NetState.next, ha]
      exact .tryUnlock a c ha h
    · exact h.elim
  | wakeSleepers a =>
    simp only [NetState.enabled] at h
    split at h
    · next c ha =>
      simp only [NetState.next, ha]
      exact .wakeSleepers a c ha
    · exact h.elim
  | release a =>
    simp only [NetState.enabled] at h
    split at h
    · next c ha =>
      simp only [NetState.next, ha]
      exact .release a c ha h _
    · exact h.elim
  | resume a =>
    obtain ⟨hruns, hne⟩ := h
    cases hw : s.woken a with
    | nil => exact absurd hw hne
    | cons c rest =>
      simp only [NetState.next, hw]
      exact .resume a c rest hruns hw

/-! ## Where threads are -/

/-- Who a thread locks the mutex for. -/
def LockPc.caller : LockPc → Option NetCall
  | .out => none
  | .lock c | .backOff c | .sleep c | .suspended c | .locked c | .assign c _ | .unlock c | .wake c
  | .release c => some c

/-- What the thread `a` can be in the middle of when it is at `pc` in `io_dispatch`. -/
def Fits (io : A → Bool) (a : A) (pc : Pc) (w : SweepPc) (call : LockPc) : Prop :=
  match w with
  | .start _ => (pc = .user ∧ io a = true) ∧ call = .out
  | .pausing _ => inPause2 pc = true ∧ call = .out
  | .waking _ => pc.resting.isSome = true ∧ ∀ c, call.caller = some c → c.inFiber = true
  | .out =>
    match call.caller with
    | none => True
    | some .swept => pc.resting.isSome = true
    | some _ => pc = .user ∧ io a = true

omit [Fintype A] [DecidableEq A] in
/-- It does not matter whether the thread has been woken. -/
theorem Fits.congr {pc pc' : Pc} {w : SweepPc} {call : LockPc} (h : Fits io a pc w call)
    (hpc : pc'.awake = pc.awake) : Fits io a pc' w call := by
  have huser : pc = .user → pc' = .user := by
    intro hu
    rw [hu] at hpc
    cases pc' <;> simp [Pc.awake] at hpc ⊢
  have hresting := role_congr Pc.resting_awake hpc
  have hpause := role_congr inPause2_awake hpc
  unfold Fits at h ⊢
  rw [hresting, hpause]
  split <;> simp_all
  split <;> simp_all

/-- What all threads are in the middle of, and who goes on to lock the mutex. -/
structure Contexts (io : A → Bool) (s : NetState A) : Prop where
  places : Places io s.dispatch
  fits : ∀ a, Fits io a (s.dispatch.pc a) (s.sweep a) (s.call a)
  asleep : ∀ c ∈ s.asleep, c.inFiber = true
  woken : ∀ a, ∀ c ∈ s.woken a, c.inFiber = true

omit [Fintype A] [DecidableEq A] in
/-- A thread that is not busy is at most in a pause of a sweep. -/
theorem not_busy_iff : s.busy a = false ↔
    s.call a = .out ∧ (s.sweep a = .out ∨ ∃ h, s.sweep a = .pausing h) := by
  unfold busy
  cases s.sweep a <;> simp

/-- A step of `io_dispatch` by a thread that is not busy, and what becomes of its sweep. -/
theorem Contexts.dispatch (h : Contexts io s) {x : PauseAction A} {d : PauseState A}
    (hd : IoDispatch.Moves io s.dispatch x d) {w : SweepPc}
    (hactor : Fits io x.actor (d.pc x.actor) w (s.call x.actor)) (l : List (ℕ × Bool)) :
    Contexts io ({ s with dispatch := d, restFunctions := l }.setSweep x.actor w) := by
  refine ⟨h.places.step hd, fun b => ?_, h.asleep, h.woken⟩
  by_cases hb : b = x.actor
  · rw [hb]
    show Fits io x.actor (d.pc x.actor) (Function.update s.sweep x.actor w x.actor) _
    rw [Function.update_self]
    exact hactor
  · show Fits io b (d.pc b) (Function.update s.sweep x.actor w b) (s.call b)
    rw [Function.update_of_ne hb]
    exact (h.fits b).congr (hd.awake_of_ne h.places hb)

omit [Fintype A] in
/-- A step that moves only one thread, outside of `io_dispatch`. -/
theorem fits_update (h : ∀ b, Fits io b (s.dispatch.pc b) (s.sweep b) (s.call b)) {w : SweepPc}
    {call : LockPc} (ha : Fits io a (s.dispatch.pc a) w call) (b : A) :
    Fits io b (s.dispatch.pc b) (Function.update s.sweep a w b)
      (Function.update s.call a call b) := by
  by_cases hb : b = a
  · rw [hb, Function.update_self, Function.update_self]
    exact ha
  · rw [Function.update_of_ne hb, Function.update_of_ne hb]
    exact h b

section Fits

variable {pc : Pc} {w : SweepPc} {call call' : LockPc}

omit [Fintype A] [DecidableEq A] in
/-- It does not matter how far a thread is with the mutex. -/
theorem Fits.going (h : Fits io a pc w call) (hc : call.caller = some c)
    (hc' : call'.caller = some c) : Fits io a pc w call' := by
  have hne : call ≠ .out := by
    rintro rfl
    exact absurd hc (by simp [LockPc.caller])
  unfold Fits at h ⊢
  rw [hc] at h
  rw [hc']
  cases w with
  | start hibernating => exact absurd h.2 hne
  | pausing hibernating => exact absurd h.2 hne
  | waking hibernating => exact h
  | out => exact h

omit [Fintype A] [DecidableEq A] in
/-- Whoever is done with the mutex goes on where it was. -/
theorem Fits.leaves (h : Fits io a pc w call) : Fits io a pc w .out := by
  unfold Fits at h ⊢
  cases w with
  | start hibernating => exact ⟨h.1, rfl⟩
  | pausing hibernating => exact ⟨h.1, rfl⟩
  | waking hibernating => exact ⟨h.1, fun c hc => absurd hc (by simp [LockPc.caller])⟩
  | out => exact trivial

omit [Fintype A] [DecidableEq A] in
/-- A fiber can go on to lock the mutex wherever it can run. -/
theorem Fits.enters (h : Fits io a (s.dispatch.pc a) (s.sweep a) (s.call a))
    (ha : s.runsFiber io a) (hc : c.inFiber = true) :
    Fits io a (s.dispatch.pc a) (s.sweep a) (.lock c) := by
  obtain ⟨-, hplace⟩ := ha
  unfold Fits at h ⊢
  cases hw : s.sweep a with
  | start hibernating =>
    rw [hw] at hplace
    exact hplace.elim
  | pausing hibernating =>
    rw [hw] at hplace
    exact hplace.elim
  | waking hibernating =>
    rw [hw] at h
    refine ⟨h.1, fun c' hc' => ?_⟩
    rw [← Option.some.inj hc']
    exact hc
  | out =>
    rw [hw] at hplace
    cases c with
    | swept => exact absurd hc (by decide)
    | refused => exact absurd hc (by decide)
    | construct => exact hplace
    | destroy => exact hplace
    | waitForZero => exact hplace

end Fits

/-! ## What is done with the mutex -/

omit [Fintype A] in
/-- Whoever has the mutex has scheduled a sweep, or is about to unlock it. -/
theorem updateNext_call (a : A) (c : NetCall) (now : Timespec) :
    (s.updateNext a c now).call =
      Function.update s.call a
        (if s.schedules c then .assign c (s.newTask now) else .unlock c) := by
  unfold updateNext
  split
  · cases c <;> rfl
  · cases c with
    | destroy =>
      simp only [account]
      split <;> rfl
    | waitForZero =>
      simp only [account]
      split <;> rfl
    | construct => rfl
    | swept => rfl
    | refused => rfl

omit [Fintype A] in
/-- Apart from the counters, only fibers that wait for the last network pipe are woken. -/
theorem updateNext_rest (a : A) (c : NetCall) (now : Timespec) :
    (s.updateNext a c now).dispatch = s.dispatch ∧ (s.updateNext a c now).sweep = s.sweep ∧
    (s.updateNext a c now).asleep = s.asleep ∧ (s.updateNext a c now).state = s.state ∧
    (s.updateNext a c now).restFunctions = s.restFunctions ∧
    ∀ b, ∀ c' ∈ (s.updateNext a c now).woken b, c' = .waitForZero ∨ c' ∈ s.woken b := by
  unfold updateNext
  split
  · cases c <;> exact ⟨rfl, rfl, rfl, rfl, rfl, fun b c' hc' => .inr hc'⟩
  · cases c with
    | destroy =>
      simp only [account]
      split
      · refine ⟨rfl, rfl, rfl, rfl, rfl, fun b c' hc' => ?_⟩
        simp only [setCall] at hc'
        by_cases hb : b = a
        · rw [hb, Function.update_self, List.mem_append] at hc'
          rw [hb]
          exact hc'.imp_left List.eq_of_mem_replicate
        · rw [Function.update_of_ne hb] at hc'
          exact .inr hc'
      · exact ⟨rfl, rfl, rfl, rfl, rfl, fun b c' hc' => .inr hc'⟩
    | waitForZero =>
      simp only [account]
      split <;> exact ⟨rfl, rfl, rfl, rfl, rfl, fun b c' hc' => .inr hc'⟩
    | construct => exact ⟨rfl, rfl, rfl, rfl, rfl, fun b c' hc' => .inr hc'⟩
    | swept => exact ⟨rfl, rfl, rfl, rfl, rfl, fun b c' hc' => .inr hc'⟩
    | refused => exact ⟨rfl, rfl, rfl, rfl, rfl, fun b c' hc' => .inr hc'⟩

/-! ## The places over one step -/

/-- A step outside of `io_dispatch` in which the thread `a` goes on with the mutex. -/
theorem Contexts.calls (h : Contexts io s) {call : LockPc}
    (ha : Fits io a (s.dispatch.pc a) (s.sweep a) call) (hdispatch : s'.dispatch = s.dispatch)
    (hsweep : s'.sweep = s.sweep) (hcall : s'.call = Function.update s.call a call)
    (hasleep : ∀ c ∈ s'.asleep, c.inFiber = true)
    (hwoken : ∀ b, ∀ c ∈ s'.woken b, c.inFiber = true) : Contexts io s' := by
  refine ⟨hdispatch ▸ h.places, fun b => ?_, hasleep, hwoken⟩
  rw [hdispatch, hsweep, hcall, ← Function.update_eq_self a s.sweep]
  exact fits_update h.fits ha b

/-- A step outside of `io_dispatch` in which the thread `a` goes on with a sweep. -/
theorem Contexts.sweeps (h : Contexts io s) {w : SweepPc}
    (ha : Fits io a (s.dispatch.pc a) w (s.call a)) (hdispatch : s'.dispatch = s.dispatch)
    (hsweep : s'.sweep = Function.update s.sweep a w) (hcall : s'.call = s.call)
    (hasleep : s'.asleep = s.asleep) (hwoken : s'.woken = s.woken) : Contexts io s' := by
  refine ⟨hdispatch ▸ h.places, fun b => ?_, hasleep ▸ h.asleep, hwoken ▸ h.woken⟩
  rw [hdispatch, hsweep, hcall, ← Function.update_eq_self a s.call]
  exact fits_update h.fits ha b

/-- Every step keeps the places. -/
theorem Contexts.step (h : Contexts io s) (hm : NetMoves io s y s') : Contexts io s' := by
  cases hm with
  | io x d hd hbusy hcalls =>
    have hw := Function.update_eq_self x.actor s.sweep
    obtain ⟨hout, hsweep⟩ := not_busy_iff.mp hbusy
    have hfits := h.fits x.actor
    -- the thread may be in the pause of a sweep, and stays in it
    have hactor : Fits io x.actor (d.pc x.actor) (s.sweep x.actor) (s.call x.actor) := by
      obtain hs | ⟨hibernating, hs⟩ := hsweep
      · rw [hs, hout]
        exact trivial
      · rw [hs] at hfits ⊢
        refine ⟨inPause2_step h.places hd hfits.1 fun throws hx => ?_, hout⟩
        have hcall : s.callsSweep (.call x.actor throws) = true := by
          simp only [callsSweep, hs]
        rw [hx] at hcalls
        exact absurd (hcall.symm.trans hcalls) (by simp)
    have hnext := h.dispatch hd hactor s.restFunctions
    simp only [setSweep, hw] at hnext
    exact hnext
  | newCaller => exact ⟨h.places, h.fits, h.asleep, h.woken⟩
  | enter a c ha hc n => exact h.calls ((h.fits a).enters ha hc) rfl rfl rfl h.asleep h.woken
  | hibernate a ha hout =>
    obtain ⟨hcall, hplace⟩ := ha
    rw [hout] at hplace
    exact h.sweeps (a := a) (w := .start true) ⟨hplace, hcall⟩ rfl rfl rfl rfl rfl
  | runTask a e ha hout he =>
    obtain ⟨hcall, hplace⟩ := ha
    rw [hout] at hplace
    exact h.sweeps (a := a) (w := .start e.2) ⟨hplace, hcall⟩ rfl rfl rfl rfl rfl
  | pause a hibernating d ha hd =>
    have hfits := h.fits a
    rw [ha] at hfits
    apply h.dispatch hd _ s.restFunctions
    refine ⟨?_, hfits.2⟩
    cases hd
    simp [inPause2, PauseKind.fromIo]
  | refuseHibernating a now ha =>
    have hfits := h.fits a
    rw [ha] at hfits
    refine h.sweeps (a := a) (w := .out) ?_ rfl rfl rfl rfl rfl
    rw [hfits.2]
    exact trivial
  | refuseRegular a now ha =>
    have hfits := h.fits a
    rw [ha] at hfits
    exact ⟨h.places, fits_update h.fits hfits.1, h.asleep, h.woken⟩
  | detach a hibernating throws d ha hd =>
    have hfits := h.fits a
    rw [ha] at hfits
    apply h.dispatch hd
    show Fits io a _ .out (s.call a)
    rw [hfits.2]
    exact trivial
  | expire a hibernating d f todo ha hd hbusy hf =>
    apply h.dispatch hd
    obtain ⟨hout, -⟩ := not_busy_iff.mp hbusy
    show Fits io a _ (.waking hibernating) (s.call a)
    rw [hout]
    refine ⟨?_, fun c hc => absurd hc (by simp [LockPc.caller])⟩
    cases hd
    simp [Pc.resting]
  | expiredHibernating a ha hc =>
    refine h.sweeps (a := a) (w := .out) ?_ rfl rfl rfl rfl rfl
    rw [hc]
    exact trivial
  | expiredRegular a ha hc =>
    have hfits := h.fits a
    rw [ha] at hfits
    exact ⟨h.places, fits_update h.fits hfits.1, h.asleep, h.woken⟩
  | takes a c ha hz =>
    exact h.calls ((h.fits a).going (by rw [ha]; rfl) rfl) rfl rfl rfl h.asleep h.woken
  | finds a c pc ha hz hpc =>
    refine h.calls ((h.fits a).going (c := c) (by rw [ha]; rfl) ?_) rfl rfl rfl h.asleep h.woken
    rcases hpc with hpc | hpc
    · rw [hpc]
      rfl
    · rw [hpc]
      rfl
  | backOff a c ha =>
    exact h.calls ((h.fits a).going (by rw [ha]; rfl) rfl) rfl rfl rfl h.asleep h.woken
  | sleep a c ha hc =>
    refine h.calls ((h.fits a).going (by rw [ha]; rfl) rfl) rfl rfl rfl ?_ h.woken
    intro c' hc'
    rcases List.mem_cons.mp hc' with rfl | hc'
    · exact hc
    · exact h.asleep c' hc'
  | handle a c ha => exact h.calls (h.fits a).leaves rfl rfl rfl h.asleep h.woken
  | update a c now ha =>
    obtain ⟨hdispatch, hsweep, hasleep, -, -, hwoken⟩ := updateNext_rest (s := s) a c now
    refine h.calls ((h.fits a).going (c := c) (by rw [ha]; rfl) ?_) hdispatch hsweep
      (updateNext_call a c now) (hasleep ▸ h.asleep) fun b c' hc' => ?_
    · split <;> rfl
    · rcases hwoken b c' hc' with rfl | hc'
      · rfl
      · exact h.woken b c' hc'
  | assign a c task ha =>
    exact h.calls ((h.fits a).going (by rw [ha]; rfl) rfl) rfl rfl rfl h.asleep h.woken
  | tryUnlock a c ha h1 =>
    exact h.calls ((h.fits a).going (by rw [ha]; rfl) rfl) rfl rfl rfl h.asleep h.woken
  | wakeSleepers a c ha =>
    refine h.calls ((h.fits a).going (by rw [ha]; rfl) rfl) rfl rfl rfl (by simp) ?_
    refine forall_update (R := fun _ (l : List NetCall) => ∀ c ∈ l, c.inFiber = true) h.woken ?_
    intro c' hc'
    exact (List.mem_append.mp hc').elim (h.asleep c') (h.woken a c')
  | release a c ha h2 n => exact h.calls (h.fits a).leaves rfl rfl rfl h.asleep h.woken
  | resume a c rest ha hw =>
    have hc : c.inFiber = true := h.woken a c (by rw [hw]; exact List.mem_cons_self ..)
    refine h.calls ((h.fits a).enters ha hc) rfl rfl rfl h.asleep ?_
    refine forall_update (R := fun _ (l : List NetCall) => ∀ c ∈ l, c.inFiber = true) h.woken ?_
    intro c' hc'
    exact h.woken a c' (by rw [hw]; exact List.mem_cons_of_mem _ hc')

theorem contexts_init : Contexts io (netMachine io).init :=
  ⟨places_init, fun _ => trivial, fun _ hc => absurd hc (List.not_mem_nil),
    fun _ _ hc => absurd hc (List.not_mem_nil)⟩

/-! ## The account of the mutex -/

/-- What a thread has added to `state_`. -/
def LockPc.weight : LockPc → ℤ
  | .out | .lock _ => 0
  | .backOff _ | .sleep _ | .suspended _ | .locked _ | .assign _ _ | .unlock _ => 1
  | .wake _ | .release _ => 2

/-- The thread has the mutex. -/
def LockPc.holds : LockPc → Bool
  | .locked _ | .assign _ _ | .unlock _ | .wake _ | .release _ => true
  | .out | .lock _ | .backOff _ | .sleep _ | .suspended _ => false

theorem LockPc.weight_nonneg (pc : LockPc) : 0 ≤ pc.weight := by
  unfold weight
  split <;> omega

/-- `state_` is what the threads have added to it, and one thread at a time has the mutex. -/
structure Account (s : NetState A) : Prop where
  total : s.state = count LockPc.weight s.call
  unique : ∀ a b, (s.call a).holds = true → (s.call b).holds = true → a = b

omit [DecidableEq A] in
theorem Account.weight_eq_zero (h : Account s) (hz : s.state = 0) (b : A) :
    (s.call b).weight = 0 :=
  eq_zero_of_count_eq_zero LockPc.weight_nonneg (h.total.symm.trans hz) b

omit [DecidableEq A] in
/-- Nobody has the mutex while its counter is zero. -/
theorem Account.holds_eq_false (h : Account s) (hz : s.state = 0) (b : A) :
    (s.call b).holds = false := by
  have hweight := h.weight_eq_zero hz b
  cases hb : s.call b <;> simp [hb, LockPc.weight, LockPc.holds] at hweight ⊢

/-- The thread `a` goes on with the mutex and takes its share of the counter along. -/
theorem Account.calls (h : Account s) {call : LockPc}
    (hcall : s'.call = Function.update s.call a call)
    (hstate : s'.state = s.state + (call.weight - (s.call a).weight))
    (hholds : call.holds = true → (s.call a).holds = true ∨ ∀ b, (s.call b).holds = false) :
    Account s' := by
  refine ⟨by rw [hstate, hcall, count_update, h.total], fun b d hb hd => ?_⟩
  rw [hcall] at hb hd
  have hother : ∀ e, e ≠ a → (Function.update s.call a call e).holds = true →
      call.holds = true → e = a := by
    intro e he hec hcallh
    rw [Function.update_of_ne he] at hec
    obtain hold | hnone := hholds hcallh
    · exact h.unique e a hec hold
    · exact absurd (hec.symm.trans (hnone e)) (by simp)
  by_cases hba : b = a
  · by_cases hda : d = a
    · rw [hba, hda]
    · rw [hba, Function.update_self] at hb
      rw [hba]
      exact (hother d hda hd hb).symm
  · by_cases hda : d = a
    · rw [hda, Function.update_self] at hd
      rw [hda]
      exact hother b hba hb hd
    · rw [Function.update_of_ne hba] at hb
      rw [Function.update_of_ne hda] at hd
      exact h.unique b d hb hd

theorem Account.step (hctx : Contexts io s) (h : Account s) (hm : NetMoves io s y s') :
    Account s' := by
  cases hm with
  | enter a c ha hc n => exact h.calls rfl (by simp [ha.1, LockPc.weight]) (by simp [LockPc.holds])
  | refuseRegular a now ha =>
    have hfits := hctx.fits a
    rw [ha] at hfits
    exact h.calls rfl (by simp [hfits.2, LockPc.weight]) (by simp [LockPc.holds])
  | expiredRegular a ha hc =>
    exact h.calls rfl (by simp [hc, LockPc.weight]) (by simp [LockPc.holds])
  | takes a c ha hz =>
    exact h.calls rfl (by simp [ha, hz, LockPc.weight]) fun _ => .inr (h.holds_eq_false hz)
  | finds a c pc ha hz hpc =>
    rcases hpc with rfl | rfl
    · exact h.calls rfl (by simp [ha, LockPc.weight]) (by simp [LockPc.holds])
    · exact h.calls rfl (by simp [ha, LockPc.weight]) (by simp [LockPc.holds])
  | backOff a c ha =>
    refine h.calls rfl ?_ (by simp [LockPc.holds])
    simp only [ha, LockPc.weight]
    rfl
  | sleep a c ha hc => exact h.calls rfl (by simp [ha, LockPc.weight]) (by simp [LockPc.holds])
  | handle a c ha =>
    refine h.calls rfl ?_ (by simp [LockPc.holds])
    simp only [ha, LockPc.weight]
    rfl
  | update a c now ha =>
    obtain ⟨-, -, -, hstate, -⟩ := updateNext_rest (s := s) a c now
    refine h.calls (updateNext_call a c now) ?_ fun _ => .inl (by rw [ha]; rfl)
    rw [hstate, ha]
    split <;> simp [LockPc.weight]
  | assign a c task ha =>
    exact h.calls rfl (by simp [ha, LockPc.weight]) fun _ => .inl (by rw [ha]; rfl)
  | tryUnlock a c ha h1 =>
    exact h.calls rfl (by simp [ha, h1, LockPc.weight]) fun _ => .inl (by rw [ha]; rfl)
  | wakeSleepers a c ha =>
    exact h.calls rfl (by simp [ha, LockPc.weight]) fun _ => .inl (by rw [ha]; rfl)
  | release a c ha h2 n =>
    exact h.calls rfl (by simp [ha, h2, LockPc.weight]) (by simp [LockPc.holds])
  | resume a c rest ha hw =>
    exact h.calls rfl (by simp [ha.1, LockPc.weight]) (by simp [LockPc.holds])
  | _ => exact ⟨h.total, h.unique⟩

theorem account_init : Account (netMachine io).init :=
  ⟨(count_eq_zero fun _ => rfl).symm,
    fun _ _ hb _ => absurd hb (by simp [netMachine, LockPc.holds])⟩

end Anon.Fiber.NetPipes
