import Anon.Dtls.Dispatch

/-!
# One sweep for the associations

* `expected`: how many sweeps are pending, by who has the mutex and how many associations there
  are.
* `TimeInv`: the time at which an association was last used is that of its last message.
* `SweepInv`: what a sweep has checked and what is left to check.
* `SweepsHold`: what is meant; `sweepsHold` is about every run.
-/

namespace Anon.Dtls

variable {Addr : Type} [LinearOrder Addr] {start : Timespec} {s : DtlsDispatch Addr}
variable {x : DtlsAction Addr}

/-- A sweep has checked every association, and has left those that were not idle then. -/
def Sweep.Exact {Addr : Type} (sw : Sweep Addr) : Prop :=
  sw.checks.map Prod.fst = sw.present ∧ sw.left = (sw.checks.filter fun c => !c.2).map Prod.fst

/-- While nobody has the mutex one sweep is pending if there are associations, and none otherwise;
and every sweep has been exact. -/
structure SweepsHold (s : DtlsDispatch Addr) : Prop where
  pending : s.holder = .free → s.pending = if s.sctpAssociations = [] then 0 else 1
  exact : ∀ sw ∈ s.sweeps, sw.Exact

/-! ## Pending sweeps -/

/-- How many sweeps are pending where there are `n` associations. -/
def expected (holder : Holder Addr) (n : ℕ) : ℕ :=
  match holder with
  -- the first association has not been followed by its sweep
  | .emplaced => if n = 1 then 0 else 1
  -- the pending sweep is the one that has the mutex
  | .sweep _ _ _ _ => 0
  | .swept => 0
  | _ => if n = 0 then 0 else 1

structure PendingInv (s : DtlsDispatch Addr) : Prop where
  pending : s.pending = expected s.holder s.sctpAssociations.length
  emplaced : s.holder = .emplaced → 0 < s.sctpAssociations.length

theorem PendingInv.register (h : PendingInv s) {addr : Addr} (hholder : s.holder = .register addr) :
    PendingInv (s.register addr) := by
  have hpending := h.pending
  rw [hholder] at hpending
  unfold DtlsDispatch.register
  split
  · next hnone =>
    have hlen := OrderedMap.length_alter_of_get_eq_none hnone fun _ => s.made
    constructor
    · show s.pending = if (s.sctpAssociations.alter addr fun _ => s.made).length = 1 then 0 else 1
      rw [hpending, hlen]
      show (if s.sctpAssociations.length = 0 then 0 else 1) = _
      by_cases hempty : s.sctpAssociations.length = 0
      · rw [if_pos hempty, if_pos (by omega)]
      · rw [if_neg hempty, if_neg (by omega)]
    · intro _
      show 0 < (s.sctpAssociations.alter addr fun _ => s.made).length
      omega
  · exact ⟨hpending, fun hno => absurd hno (by simp)⟩

theorem PendingInv.receive (h : PendingInv s) {addr : Addr} (hholder : s.holder = .receive addr) :
    PendingInv (s.receive addr) := by
  have hpending := h.pending
  rw [hholder] at hpending
  unfold DtlsDispatch.receive
  split
  · exact ⟨hpending, fun hno => absurd hno (by simp)⟩
  · exact ⟨hpending, fun hno => absurd hno (by simp)⟩

theorem PendingInv.step (h : PendingInv s) (he : s.enabled x) : PendingInv (s.next x) := by
  have hpending := h.pending
  match x with
  | .tick now => exact ⟨h.pending, h.emplaced⟩
  | .lockToRegister addr =>
    have hfree : s.holder = .free := he
    rw [hfree] at hpending
    exact ⟨hpending, fun hno => absurd hno (by simp [DtlsDispatch.next])⟩
  | .emplace addr => exact h.register he
  | .scheduleFirst =>
    have hemplaced : s.holder = .emplaced := he
    have hpos := h.emplaced hemplaced
    rw [hemplaced] at hpending
    refine ⟨?_, fun hno => absurd hno (by simp [DtlsDispatch.next])⟩
    show (if s.sctpAssociations.length = 1 then s.scheduled + 1 else s.scheduled) +
      s.waiting.length = if s.sctpAssociations.length = 0 then 0 else 1
    have hsum : s.scheduled + s.waiting.length =
      if s.sctpAssociations.length = 1 then 0 else 1 := hpending
    rw [if_neg (by omega : ¬s.sctpAssociations.length = 0)]
    by_cases hone : s.sctpAssociations.length = 1
    · rw [if_pos hone] at hsum ⊢
      omega
    · rw [if_neg hone] at hsum ⊢
      exact hsum
  | .lockToReceive addr =>
    have hfree : s.holder = .free := he
    rw [hfree] at hpending
    exact ⟨hpending, fun hno => absurd hno (by simp [DtlsDispatch.next])⟩
  | .find addr => exact h.receive he
  | .deliver i =>
    rw [DtlsDispatch.next]
    split
    · exact ⟨h.pending, h.emplaced⟩
    · exact h
  | .startSweep =>
    have hpos : 0 < s.scheduled := he
    refine ⟨?_, h.emplaced⟩
    show s.scheduled - 1 + (s.waiting ++ [s.clock]).length = _
    have hsum : s.scheduled + s.waiting.length = expected s.holder s.sctpAssociations.length :=
      hpending
    rw [List.length_append, List.length_singleton]
    show s.scheduled - 1 + (s.waiting.length + 1) = expected s.holder s.sctpAssociations.length
    omega
  | .lockToSweep i =>
    obtain ⟨hfree, hi⟩ := he
    rw [hfree] at hpending
    rw [DtlsDispatch.next, List.getElem?_eq_getElem hi]
    refine ⟨?_, fun hno => absurd hno (by simp)⟩
    show s.scheduled + (s.waiting.eraseIdx i).length = 0
    have hsum : s.scheduled + s.waiting.length =
      if s.sctpAssociations.length = 0 then 0 else 1 := hpending
    -- it was the only one
    have hle : (if s.sctpAssociations.length = 0 then 0 else 1) ≤ 1 := by
      split
      · omega
      · exact le_rfl
    rw [List.length_eraseIdx_of_lt hi]
    omega
  | .check =>
    cases hholder : s.holder with
    | sweep now present checks it =>
      rw [hholder] at hpending
      simp only [DtlsDispatch.next, hholder]
      unfold DtlsDispatch.sweepStep
      split
      · dsimp only
        split
        · exact ⟨hpending, fun hno => absurd hno (by simp)⟩
        · exact ⟨hpending, fun hno => absurd hno (by simp)⟩
      · exact ⟨hpending, fun hno => absurd hno (by simp)⟩
    | _ =>
      have hsweep : s.holder.isSweep = true := he
      rw [hholder] at hsweep
      exact absurd hsweep (by simp [Holder.isSweep])
  | .scheduleNext =>
    have hswept : s.holder = .swept := he
    rw [hswept] at hpending
    refine ⟨?_, fun hno => absurd hno (by simp [DtlsDispatch.next])⟩
    show (if s.sctpAssociations.length > 0 then s.scheduled + 1 else s.scheduled) +
      s.waiting.length = if s.sctpAssociations.length = 0 then 0 else 1
    have hsum : s.scheduled + s.waiting.length = 0 := hpending
    by_cases hempty : s.sctpAssociations.length = 0
    · rw [if_pos hempty, if_neg (by omega)]
      exact hsum
    · rw [if_neg hempty, if_pos (by omega)]
      omega
  | .unlock =>
    have hleaving : s.holder = .leaving := he
    rw [hleaving] at hpending
    exact ⟨hpending, fun hno => absurd hno (by simp [DtlsDispatch.next])⟩

/-! ## Times -/

structure TimeInv (s : DtlsDispatch Addr) : Prop where
  /-- The last message, or the making of the association. -/
  latest : ∀ conn < s.made, (conn, s.lastUsedTime conn) ∈ s.messages
  bound : ∀ m ∈ s.messages, m.1 < s.made ∧ m.2 ≤ s.lastUsedTime m.1
  clock : ∀ conn < s.made, s.lastUsedTime conn ≤ s.clock
  known : ∀ e ∈ s.sctpAssociations, e.2 < s.made
  receiving : ∀ conn ∈ s.receiving, conn < s.made

omit [LinearOrder Addr] in
theorem limitOf_le {a b : Timespec} (h : a ≤ b) : limitOf a ≤ limitOf b := by
  rw [Timespec.le_iff] at h ⊢
  unfold limitOf
  dsimp only
  omega

omit [LinearOrder Addr] in
/-- The test of a sweep is about all messages. -/
theorem TimeInv.idle_iff (h : TimeInv s) {conn : ℕ} (hconn : conn < s.made) (now : Timespec) :
    s.Idle now conn ↔ limitOf (s.lastUsedTime conn) < now := by
  constructor
  · intro hidle
    exact hidle _ (h.latest conn hconn) rfl
  · rintro hlast m hm rfl
    exact (limitOf_le (h.bound m hm).2).trans_lt hlast

omit [LinearOrder Addr] in
/-- Nothing is used, and nothing new comes to be known. -/
theorem TimeInv.keep (h : TimeInv s) {t : DtlsDispatch Addr}
    (hlast : t.lastUsedTime = s.lastUsedTime) (hmade : t.made = s.made)
    (hmessages : t.messages = s.messages) (hclock : s.clock ≤ t.clock)
    (hknown : ∀ e ∈ t.sctpAssociations, e ∈ s.sctpAssociations)
    (hreceiving : ∀ conn ∈ t.receiving, conn < s.made) : TimeInv t where
  latest := by
    rw [hmade, hlast, hmessages]
    exact h.latest
  bound := by
    rw [hmade, hlast, hmessages]
    exact h.bound
  clock := by
    rw [hmade, hlast]
    exact fun conn hconn => (h.clock conn hconn).trans hclock
  known := by
    rw [hmade]
    exact fun e he => h.known e (hknown e he)
  receiving := by
    rw [hmade]
    exact hreceiving

omit [LinearOrder Addr] in
/-- An association is used, which may be a new one. -/
theorem TimeInv.use (h : TimeInv s) (conn : ℕ) {n : ℕ} (hle : s.made ≤ n) (hconn : conn < n)
    (hn : ∀ c < n, c = conn ∨ c < s.made) : TimeInv { s.use conn with made := n } where
  latest := by
    intro c hc
    show (c, Function.update s.lastUsedTime conn s.clock c) ∈ (conn, s.clock) :: s.messages
    by_cases heq : c = conn
    · rw [heq, Function.update_self]
      exact List.mem_cons_self
    · rw [Function.update_of_ne heq]
      exact List.mem_cons_of_mem _ (h.latest c ((hn c hc).resolve_left heq))
  bound := by
    intro m hm
    show m.1 < n ∧ m.2 ≤ Function.update s.lastUsedTime conn s.clock m.1
    obtain rfl | hm := List.mem_cons.mp hm
    · rw [Function.update_self]
      exact ⟨hconn, le_rfl⟩
    · obtain ⟨hlt, hbound⟩ := h.bound m hm
      refine ⟨hlt.trans_le hle, ?_⟩
      by_cases heq : m.1 = conn
      · rw [← heq, Function.update_self]
        exact hbound.trans (h.clock m.1 hlt)
      · rw [Function.update_of_ne heq]
        exact hbound
  clock := by
    intro c hc
    show Function.update s.lastUsedTime conn s.clock c ≤ s.clock
    by_cases heq : c = conn
    · rw [heq, Function.update_self]
    · rw [Function.update_of_ne heq]
      exact h.clock c ((hn c hc).resolve_left heq)
  known := fun e he => (h.known e he).trans_le hle
  receiving := fun c hc => (h.receiving c hc).trans_le hle

theorem TimeInv.register (h : TimeInv s) (addr : Addr) : TimeInv (s.register addr) := by
  unfold DtlsDispatch.register
  split
  · have huse := h.use s.made (Nat.le_succ _) (Nat.lt_succ_self _)
      (fun c hc => (Nat.lt_or_eq_of_le (Nat.le_of_lt_succ hc)).symm)
    refine ⟨huse.latest, huse.bound, huse.clock, fun e he => ?_, huse.receiving⟩
    obtain ⟨old, rfl⟩ | he := OrderedMap.eq_or_mem_of_mem_alter he
    · exact Nat.lt_succ_self _
    · exact (h.known e he).trans (Nat.lt_succ_self _)
  · exact h.keep rfl rfl rfl le_rfl (fun _ he => he) h.receiving

omit [LinearOrder Addr] in
theorem TimeInv.sweepStep (h : TimeInv s) (now : Timespec) (present : List (Addr × ℕ))
    (checks : List ((Addr × ℕ) × Bool)) (it : ℕ) : TimeInv (s.sweepStep now present checks it) := by
  unfold DtlsDispatch.sweepStep
  split
  · dsimp only
    split
    · exact h.keep rfl rfl rfl le_rfl (fun _ he => List.mem_of_mem_eraseIdx he) h.receiving
    · exact h.keep rfl rfl rfl le_rfl (fun _ he => he) h.receiving
  · exact h.keep rfl rfl rfl le_rfl (fun _ he => he) h.receiving

theorem TimeInv.receive (h : TimeInv s) (addr : Addr) : TimeInv (s.receive addr) := by
  unfold DtlsDispatch.receive
  split
  · next conn hconn =>
    refine h.keep rfl rfl rfl le_rfl (fun _ he => he) fun c hc => ?_
    obtain hc | hc := List.mem_append.mp hc
    · exact h.receiving c hc
    · rw [List.mem_singleton.mp hc]
      exact h.known (addr, conn) (OrderedMap.mem_of_get_eq_some hconn)
  · exact h.keep rfl rfl rfl le_rfl (fun _ he => he) h.receiving

theorem TimeInv.step (h : TimeInv s) (he : s.enabled x) : TimeInv (s.next x) := by
  match x with
  | .tick now => exact h.keep rfl rfl rfl he (fun _ he => he) h.receiving
  | .lockToRegister addr => exact h.keep rfl rfl rfl le_rfl (fun _ he => he) h.receiving
  | .emplace addr => exact h.register addr
  | .scheduleFirst => exact h.keep rfl rfl rfl le_rfl (fun _ he => he) h.receiving
  | .lockToReceive addr => exact h.keep rfl rfl rfl le_rfl (fun _ he => he) h.receiving
  | .find addr => exact h.receive addr
  | .deliver i =>
    have hi : i < s.receiving.length := he
    simp only [DtlsDispatch.next, List.getElem?_eq_getElem hi]
    have hconn := h.receiving _ (List.getElem_mem hi)
    have huse := h.use _ le_rfl hconn (fun _ hc => .inr hc)
    exact ⟨huse.latest, huse.bound, huse.clock, huse.known,
      fun c hc => h.receiving c (List.mem_of_mem_eraseIdx hc)⟩
  | .startSweep => exact h.keep rfl rfl rfl le_rfl (fun _ he => he) h.receiving
  | .lockToSweep i =>
    obtain ⟨-, hi⟩ := he
    simp only [DtlsDispatch.next, List.getElem?_eq_getElem hi]
    exact h.keep rfl rfl rfl le_rfl (fun _ he => he) h.receiving
  | .check =>
    cases hholder : s.holder with
    | sweep now present checks it =>
      simp only [DtlsDispatch.next, hholder]
      exact h.sweepStep now present checks it
    | _ =>
      simp only [DtlsDispatch.next, hholder]
      exact h
  | .scheduleNext => exact h.keep rfl rfl rfl le_rfl (fun _ he => he) h.receiving
  | .unlock => exact h.keep rfl rfl rfl le_rfl (fun _ he => he) h.receiving

/-! ## The loop of a sweep -/

/-- What the loop has come to: the associations in front of the iterator were checked and not
idle, and the ones from the iterator on are still to be checked. -/
structure InLoop (associations present : List (Addr × ℕ)) (checks : List ((Addr × ℕ) × Bool))
    (it : ℕ) : Prop where
  todo : checks.map Prod.fst ++ associations.drop it = present
  kept : associations.take it = (checks.filter fun c => !c.2).map Prod.fst
  it_le : it ≤ associations.length

structure SweepInv (s : DtlsDispatch Addr) : Prop where
  loop : ∀ now present checks it, s.holder = .sweep now present checks it →
    InLoop s.sctpAssociations present checks it
  exact : ∀ sw ∈ s.sweeps, sw.Exact

omit [LinearOrder Addr] in
/-- One iteration, or the end of the loop. -/
theorem SweepInv.sweepStep (h : SweepInv s) (htime : TimeInv s) {now : Timespec}
    {present : List (Addr × ℕ)} {checks : List ((Addr × ℕ) × Bool)} {it : ℕ}
    (hholder : s.holder = .sweep now present checks it) :
    SweepInv (s.sweepStep now present checks it) := by
  obtain ⟨htodo, hkept, hle⟩ := h.loop now present checks it hholder
  unfold DtlsDispatch.sweepStep
  split
  · next e he =>
    obtain ⟨hlt, rfl⟩ := List.getElem?_eq_some_iff.mp he
    have hidle := htime.idle_iff (htime.known _ (List.getElem_mem hlt)) now
    have hdrop : s.sctpAssociations.drop it =
        s.sctpAssociations[it] :: s.sctpAssociations.drop (it + 1) := List.drop_eq_getElem_cons hlt
    dsimp only
    split
    -- the association is removed, and the iterator is at the next one
    · next hremove =>
      rw [← hidle] at hremove
      refine ⟨fun now' present' checks' it' hsweep => ?_, h.exact⟩
      obtain ⟨rfl, rfl, rfl, rfl⟩ := Holder.sweep.inj hsweep
      have hlen : (s.sctpAssociations.take it).length = it := List.length_take_of_le hle
      have herase := List.eraseIdx_eq_take_drop_succ s.sctpAssociations it
      refine ⟨?_, ?_, ?_⟩
      · rw [herase, List.drop_left' hlen, List.map_append, List.append_assoc, ← htodo, hdrop]
        rfl
      · rw [herase, List.take_left' hlen, hkept, List.filter_append, List.map_append]
        simp [hremove]
      · rw [herase, List.length_append, hlen]
        exact Nat.le_add_right it _
    · next hkeep =>
      rw [← hidle] at hkeep
      refine ⟨fun now' present' checks' it' hsweep => ?_, h.exact⟩
      obtain ⟨rfl, rfl, rfl, rfl⟩ := Holder.sweep.inj hsweep
      refine ⟨?_, ?_, hlt⟩
      · rw [List.map_append, List.append_assoc, ← htodo, hdrop]
        rfl
      · rw [List.take_succ_eq_append_getElem hlt, hkept, List.filter_append, List.map_append]
        simp [hkeep]
  · next hnone =>
    have hend : s.sctpAssociations.length ≤ it := List.getElem?_eq_none_iff.mp hnone
    refine ⟨fun now' present' checks' it' hsweep => absurd hsweep (by simp), fun sw hsw => ?_⟩
    obtain rfl | hsw := List.mem_cons.mp hsw
    · rw [List.drop_of_length_le hend, List.append_nil] at htodo
      rw [List.take_of_length_le hend] at hkept
      exact ⟨htodo, hkept⟩
    · exact h.exact sw hsw

omit [LinearOrder Addr] in
/-- A step that is not one of the loop of a sweep. -/
theorem SweepInv.keep (h : SweepInv s) {t : DtlsDispatch Addr} (hsweeps : t.sweeps = s.sweeps)
    (hloop : t.holder.isSweep = true →
      t.holder = s.holder ∧ t.sctpAssociations = s.sctpAssociations) : SweepInv t where
  loop := by
    intro now present checks it hholder
    obtain ⟨hsame, hassociations⟩ := hloop (by rw [hholder]; rfl)
    rw [hassociations]
    exact h.loop now present checks it (hsame.symm.trans hholder)
  exact := by
    rw [hsweeps]
    exact h.exact

theorem SweepInv.step (h : SweepInv s) (htime : TimeInv s) (he : s.enabled x) :
    SweepInv (s.next x) := by
  match x with
  | .tick now => exact h.keep rfl fun _ => ⟨rfl, rfl⟩
  | .lockToRegister addr => exact h.keep rfl fun hno => absurd hno Bool.false_ne_true
  | .emplace addr =>
    show SweepInv (s.register addr)
    unfold DtlsDispatch.register
    split
    · exact h.keep rfl fun hno => absurd hno Bool.false_ne_true
    · exact h.keep rfl fun hno => absurd hno Bool.false_ne_true
  | .scheduleFirst => exact h.keep rfl fun hno => absurd hno Bool.false_ne_true
  | .lockToReceive addr => exact h.keep rfl fun hno => absurd hno Bool.false_ne_true
  | .find addr =>
    show SweepInv (s.receive addr)
    unfold DtlsDispatch.receive
    split
    · exact h.keep rfl fun hno => absurd hno Bool.false_ne_true
    · exact h.keep rfl fun hno => absurd hno Bool.false_ne_true
  | .deliver i =>
    have hi : i < s.receiving.length := he
    simp only [DtlsDispatch.next, List.getElem?_eq_getElem hi]
    exact h.keep rfl fun _ => ⟨rfl, rfl⟩
  | .startSweep => exact h.keep rfl fun _ => ⟨rfl, rfl⟩
  | .lockToSweep i =>
    obtain ⟨-, hi⟩ := he
    simp only [DtlsDispatch.next, List.getElem?_eq_getElem hi]
    refine ⟨fun now present checks it hholder => ?_, h.exact⟩
    -- everything is to be checked
    obtain ⟨rfl, rfl, rfl, rfl⟩ := Holder.sweep.inj hholder
    exact ⟨rfl, rfl, Nat.zero_le _⟩
  | .check =>
    cases hholder : s.holder with
    | sweep now present checks it =>
      simp only [DtlsDispatch.next, hholder]
      exact h.sweepStep htime hholder
    | _ =>
      simp only [DtlsDispatch.next, hholder]
      exact h
  | .scheduleNext => exact h.keep rfl fun hno => absurd hno Bool.false_ne_true
  | .unlock => exact h.keep rfl fun hno => absurd hno Bool.false_ne_true

/-! ## Every run -/

/-- In every reachable state. -/
theorem sweepsHold (hs : (dtlsMachine Addr start).Reachable Machine.anyStep s) : SweepsHold s := by
  have hinv : PendingInv s ∧ TimeInv s ∧ SweepInv s := by
    apply hs.invariant
    · refine ⟨⟨rfl, fun hno => absurd hno (by simp [dtlsMachine])⟩, ⟨?_, ?_, ?_, ?_, ?_⟩, ?_, ?_⟩
      · exact fun conn hconn => absurd hconn (Nat.not_lt_zero conn)
      · exact fun m hm => absurd hm List.not_mem_nil
      · exact fun conn hconn => absurd hconn (Nat.not_lt_zero conn)
      · exact fun e he => absurd he List.not_mem_nil
      · exact fun conn hconn => absurd hconn List.not_mem_nil
      · exact fun _ _ _ _ hno => absurd hno (by simp [dtlsMachine])
      · exact fun sw hsw => absurd hsw List.not_mem_nil
    · rintro s x ⟨hpending, htime, hsweep⟩ - he
      exact ⟨hpending.step he, htime.step he, hsweep.step htime he⟩
  obtain ⟨hpending, -, hsweep⟩ := hinv
  refine ⟨fun hfree => ?_, hsweep.exact⟩
  rw [hpending.pending, hfree]
  show (if s.sctpAssociations.length = 0 then 0 else 1) = _
  simp only [List.length_eq_zero_iff]

/-- Two associations, of which one receives a message before the sweep begins and another while it
is under way. -/
theorem sweepsHold_two : ∃ s : DtlsDispatch ℕ, SweepsHold s ∧ s.sctpAssociations = [(7, 1)] ∧
    s.sweeps.length = 1 ∧ s.pending = 1 := by
  have h : ∃ s, (dtlsMachine ℕ ⟨0, 0⟩).Reachable Machine.anyStep s ∧
      decide (s.sctpAssociations = [(7, 1)] ∧ s.sweeps.length = 1 ∧ s.pending = 1) = true := by
    apply Machine.reachable_of_replay (l := [.lockToRegister 5, .emplace 5, .scheduleFirst, .unlock,
      .lockToRegister 7, .emplace 7, .scheduleFirst, .unlock, .tick ⟨20, 0⟩, .lockToReceive 7,
      .find 7, .deliver 0, .lockToReceive 5, .find 5, .tick ⟨31, 0⟩, .startSweep, .lockToSweep 0,
      .check, .deliver 0, .check, .check, .scheduleNext, .unlock])
    decide +kernel
  obtain ⟨s, hs, hstate⟩ := h
  exact ⟨s, sweepsHold hs, of_decide_eq_true hstate⟩

end Anon.Dtls
