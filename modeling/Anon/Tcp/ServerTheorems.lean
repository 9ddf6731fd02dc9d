import Anon.Tcp.Server

/-!
# The server stops when it has accepted everything

* `Inv`: the queue is in the order of the connections, and the connection of `stop` is the one that
  takes the socket out of epoll.
* `server_stops`: what the server is to do, it does in every run.
-/

namespace Anon.Tcp

open Epc (SockaddrIn6)

variable {s : ServerState} {conn : Conn} {addr : SockaddrIn6}

theorem same_self (addr : SockaddrIn6) : addr.same addr = true := Epc.SockaddrIn6.same_iff.mpr rfl

/-- `stop` has connected. -/
def StopPhase.isConnected : StopPhase → Bool
  | .locking | .asleep | .returned => true
  | _ => false

/-- `stop` has set `stop_`. -/
def StopPhase.isSet : StopPhase → Bool
  | .idle | .bound => false
  | _ => true

/-- The invariant. -/
structure Inv (s : ServerState) : Prop where
  once : Distributed s.ids {id | id < s.made}
  sorted : (s.avail.conns ++ s.backlog).Pairwise fun a b => a.id < b.id
  armed : s.interest = .armed → s.avail = .none
  disarmed : s.interest = .disarmed →
    s.avail = .accepting ∧ s.backlog ≠ [] ∨ ∃ conn, s.avail = .accepted conn
  removed : s.interest = .removed → ∃ k, s.stopId = some k ∧ (∀ conn ∈ s.backlog, k < conn.id) ∧
    (s.avail = .none ∧ s.stopFlag = false ∨
      ∃ conn, s.avail = .stopping conn ∧ s.stopFlag = true)
  flag : s.interest ≠ .removed → s.stopFlag = s.stopper.isSet
  /-- The connection of `stop` is on its way. -/
  coming : ∀ k, s.stopId = some k → s.interest ≠ .removed →
    ∃ conn, s.Pending conn ∧ conn.id = k ∧ conn.addr.same s.stopAddr = true
  /-- No other one comes from its port. -/
  port : s.stopper ≠ .idle → ∀ conn, s.Pending conn → conn.addr.same s.stopAddr = true →
    s.stopId = some conn.id
  connected : s.stopper.isConnected = s.stopId.isSome
  bound : ∀ k, s.stopId = some k → k < s.made
  asleep : s.stopper = .asleep → s.stopFlag = true
  returned : s.stopper = .returned → s.interest = .removed ∧ s.avail = .none
  swept : s.sweeps + (if s.forcedClose then 0 else 1) ≤ s.accepts + 1

theorem Inv.not_removed_of_accepting (h : Inv s) (ha : s.avail = .accepting) :
    s.interest = .disarmed := by
  cases hi : s.interest with
  | armed =>
    have hnone := h.armed hi
    rw [ha] at hnone
    cases hnone
  | disarmed => rfl
  | removed =>
    obtain ⟨-, -, -, ⟨hnone, -⟩ | ⟨conn, hstop, -⟩⟩ := h.removed hi
    · rw [ha] at hnone
      cases hnone
    · rw [ha] at hstop
      cases hstop

theorem Inv.disarmed_of_accepted (h : Inv s) (ha : s.avail = .accepted conn) :
    s.interest = .disarmed := by
  cases hi : s.interest with
  | armed =>
    have hnone := h.armed hi
    rw [ha] at hnone
    cases hnone
  | disarmed => rfl
  | removed =>
    obtain ⟨-, -, -, ⟨hnone, -⟩ | ⟨conn, hstop, -⟩⟩ := h.removed hi
    · rw [ha] at hnone
      cases hnone
    · rw [ha] at hstop
      cases hstop

theorem Inv.removed_of_stopping (h : Inv s) (ha : s.avail = .stopping conn) :
    s.interest = .removed := by
  cases hi : s.interest with
  | armed =>
    have hnone := h.armed hi
    rw [ha] at hnone
    cases hnone
  | disarmed =>
    rcases h.disarmed hi with ⟨hacc, -⟩ | ⟨conn, hacc⟩
    · rw [ha] at hacc
      cases hacc
    · rw [ha] at hacc
      cases hacc
  | removed => rfl

theorem setOf_lt_succ (n : ℕ) : {id | id < n + 1} = insert n {id | id < n} := by
  ext id
  show id < n + 1 ↔ id = n ∨ id < n
  omega

/-- The connections that are not with a fiber are older than a new one. -/
theorem Inv.lt_made (h : Inv s) (hconn : conn ∈ s.avail.conns ++ s.backlog) : conn.id < s.made := by
  rcases List.mem_append.mp hconn with hconn | hconn
  · exact (h.once.mem_iff conn.id).mp ⟨.avail, List.mem_map_of_mem hconn⟩
  · exact (h.once.mem_iff conn.id).mp ⟨.backlog, List.mem_map_of_mem hconn⟩

/-! ## A new connection -/

theorem once_push (h : Inv s) (addr : SockaddrIn6) :
    Distributed (s.push addr).ids {id | id < s.made + 1} := by
  rw [setOf_lt_succ]
  apply h.once.add (j := .backlog) (fun hlt : s.made < s.made => Nat.lt_irrefl _ hlt)
  · show ((s.backlog ++ [(⟨s.made, addr⟩ : Conn)]).map Conn.id).Perm _
    rw [List.map_append]
    exact List.perm_append_singleton _ _
  · intro k hk
    cases k with
    | backlog => exact absurd rfl hk
    | _ => rfl

theorem sorted_push (h : Inv s) (addr : SockaddrIn6) :
    (s.avail.conns ++ (s.backlog ++ [(⟨s.made, addr⟩ : Conn)])).Pairwise
      fun a b => a.id < b.id := by
  rw [← List.append_assoc, List.pairwise_append]
  refine ⟨h.sorted, List.pairwise_singleton _ _, fun a ha b hb => ?_⟩
  rw [List.mem_singleton.mp hb]
  exact h.lt_made ha

theorem pending_push {addr : SockaddrIn6} (hp : (s.push addr).Pending conn) :
    s.Pending conn ∨ conn = ⟨s.made, addr⟩ := by
  rcases hp with hp | hp
  · rcases List.mem_append.mp hp with hp | hp
    · exact Or.inl (Or.inl hp)
    · exact Or.inr (List.mem_singleton.mp hp)
  · exact Or.inl (Or.inr hp)

theorem Inv.removed_push (h : Inv s) (addr : SockaddrIn6) (hr : s.interest = .removed) :
    ∃ k, s.stopId = some k ∧ (∀ conn ∈ s.backlog ++ [(⟨s.made, addr⟩ : Conn)], k < conn.id) ∧
      (s.avail = .none ∧ s.stopFlag = false ∨
        ∃ conn, s.avail = .stopping conn ∧ s.stopFlag = true) := by
  obtain ⟨k, hk, hlt, hrest⟩ := h.removed hr
  refine ⟨k, hk, fun conn hconn => ?_, hrest⟩
  rcases List.mem_append.mp hconn with hconn | hconn
  · exact hlt conn hconn
  · rw [List.mem_singleton.mp hconn]
    exact h.bound k hk

theorem inv_connect (h : Inv s) (hen : s.enabled (.connect addr)) :
    Inv (s.next (.connect addr)) := by
  refine ⟨once_push h addr, sorted_push h addr, h.armed, fun hd => ?_, h.removed_push addr, h.flag,
    fun k hk hr => ?_, fun hne conn hp hsame => ?_, h.connected,
    fun k hk => Nat.lt_succ_of_lt (h.bound k hk), h.asleep, h.returned, h.swept⟩
  · exact (h.disarmed hd).imp_left fun ⟨ha, hb⟩ => ⟨ha, List.append_ne_nil_of_left_ne_nil hb _⟩
  · obtain ⟨conn, hp, hconn⟩ := h.coming k hk hr
    exact ⟨conn, hp.imp_left (List.mem_append_left _), hconn⟩
  · rcases pending_push hp with hp | rfl
    · exact h.port hne conn hp hsame
    · rcases hen with hidle | hother
      · exact absurd hidle hne
      · exact absurd (hother.symm.trans hsame) Bool.false_ne_true

theorem inv_stopConnect (h : Inv s) (hen : s.stopper = .announced) :
    Inv (s.next .stopConnect) := by
  have hnone : s.stopId = none := by
    have hconnected := h.connected
    rw [hen] at hconnected
    exact Option.isSome_eq_false_iff.mp hconnected.symm |> Option.isNone_iff_eq_none.mp
  have hkept : s.interest ≠ .removed := by
    intro hr
    obtain ⟨k, hk, -⟩ := h.removed hr
    rw [hnone] at hk
    cases hk
  have hflag : s.stopFlag = true := by
    rw [h.flag hkept, hen]
    rfl
  refine ⟨once_push h s.stopAddr, sorted_push h s.stopAddr, h.armed, fun hd => ?_,
    fun hr => absurd hr hkept, fun _ => hflag, fun k hk _ => ?_, fun _ conn hp hsame => ?_, rfl,
    fun k hk => ?_, fun hasleep => ?_, fun hret => ?_, h.swept⟩
  · exact (h.disarmed hd).imp_left fun ⟨ha, hb⟩ => ⟨ha, List.append_ne_nil_of_left_ne_nil hb _⟩
  · refine ⟨⟨s.made, s.stopAddr⟩, Or.inl ?_, Option.some.inj hk, same_self _⟩
    exact List.mem_append_right _ List.mem_cons_self
  · rcases pending_push hp with hp | rfl
    · have hother := h.port (by rw [hen]; decide) conn hp hsame
      rw [hnone] at hother
      cases hother
    · rfl
  · rw [← Option.some.inj hk]
    exact Nat.lt_succ_self _
  · cases hasleep
  · cases hret

/-! ## The io thread -/

theorem inv_epollWait (h : Inv s) (harmed : s.interest = .armed) (hne : s.backlog ≠ []) :
    Inv (s.next .epollWait) := by
  have hnone := h.armed harmed
  have hkept : s.interest ≠ .removed := by
    rw [harmed]
    decide
  have hconns : AvailPhase.conns .accepting = s.avail.conns := by
    rw [hnone]
    rfl
  have hids : (s.next .epollWait).ids = s.ids := by
    funext k
    cases k with
    | avail => exact congrArg (List.map Conn.id) hconns
    | _ => rfl
  have hpending {conn : Conn} (hp : (s.next .epollWait).Pending conn) : s.Pending conn :=
    hp.imp_right fun hp => by cases hp
  refine ⟨?_, ?_, fun ha => ?_, fun _ => Or.inl ⟨rfl, hne⟩, fun hr => ?_, fun _ => h.flag hkept,
    fun k hk _ => ?_, fun hidle conn hp hsame => h.port hidle conn (hpending hp) hsame,
    h.connected, h.bound, h.asleep, fun hret => absurd (h.returned hret).1 hkept, h.swept⟩
  · rw [hids]
    exact h.once
  · show (AvailPhase.conns .accepting ++ s.backlog).Pairwise _
    rw [hconns]
    exact h.sorted
  · cases ha
  · cases hr
  · obtain ⟨conn, hp, hconn⟩ := h.coming k hk hkept
    refine ⟨conn, hp.imp_right fun hp => ?_, hconn⟩
    rw [hnone] at hp
    cases hp

theorem inv_acceptError (h : Inv s) {emfile : Bool} (hacc : s.avail = .accepting) :
    Inv (s.next (.acceptError emfile)) := by
  have hkept : s.interest ≠ .removed := by
    rw [h.not_removed_of_accepting hacc]
    decide
  -- only the two counters depend on the error
  have hfields : ∃ forced sweeps, sweeps + (if forced then 0 else 1) ≤ s.accepts + 1 ∧
      s.next (.acceptError emfile) =
        { s with forcedClose := forced, sweeps := sweeps, interest := .armed, avail := .none } := by
    have hswept := h.swept
    simp only [ServerState.next]
    split
    · next hforced =>
      rw [hforced.2] at hswept
      exact ⟨true, s.sweeps + 1, hswept, rfl⟩
    · exact ⟨s.forcedClose, s.sweeps, hswept, rfl⟩
  obtain ⟨forced, sweeps, hswept, hnext⟩ := hfields
  rw [hnext]
  generalize hs' : ServerState.mk _ _ _ _ _ _ _ _ _ _ _ _ _ = s'
  have hids : s'.ids = s.ids := by
    rw [← hs']
    funext k
    cases k with
    | avail =>
      simp only [ServerState.ids, hacc]
      rfl
    | _ => rfl
  refine ⟨?_, ?_, ?_, ?_, ?_, ?_, ?_, ?_, ?_, ?_, ?_, ?_, ?_⟩
  · rw [hids, ← hs']
    exact h.once
  · have hsorted := h.sorted
    rw [hacc] at hsorted
    rw [← hs']
    exact hsorted
  · rw [← hs']
    exact fun _ => rfl
  · rw [← hs']
    exact nofun
  · rw [← hs']
    exact nofun
  · rw [← hs']
    exact fun _ => h.flag hkept
  · rw [← hs']
    intro k hk _
    obtain ⟨conn, hp, hconn⟩ := h.coming k hk hkept
    refine ⟨conn, hp.imp_right fun hp => ?_, hconn⟩
    rw [hacc] at hp
    cases hp
  · rw [← hs']
    exact fun hne conn hp hsame => h.port hne conn (hp.imp_right nofun) hsame
  · rw [← hs']
    exact h.connected
  · rw [← hs']
    exact h.bound
  · rw [← hs']
    exact h.asleep
  · rw [← hs']
    exact fun hret => absurd (h.returned hret).1 hkept
  · rw [← hs']
    exact hswept

theorem inv_accept (h : Inv s) (hacc : s.avail = .accepting) (hne : s.backlog ≠ []) :
    Inv (s.next .accept) := by
  have hdis := h.not_removed_of_accepting hacc
  have hkept : s.interest ≠ .removed := by
    rw [hdis]
    decide
  obtain ⟨conn, backlog, hbacklog⟩ := List.exists_cons_of_ne_nil hne
  have hnext : s.next .accept =
      { s with
        backlog := backlog
        avail := .accepted conn
        forcedClose := false
        accepts := s.accepts + 1 } := by
    simp only [ServerState.next, hbacklog]
  have hpending (c : Conn) : (s.next .accept).Pending c ↔ s.Pending c := by
    rw [hnext]
    show c ∈ backlog ∨ AvailPhase.accepted conn = .accepted c ↔
      c ∈ s.backlog ∨ s.avail = .accepted c
    rw [hbacklog, hacc, List.mem_cons, AvailPhase.accepted.injEq, or_comm, eq_comm]
    simp
  have hsorted := h.sorted
  rw [hacc, hbacklog] at hsorted
  have hswept := h.swept
  have hfrom : (s.ids .backlog).Perm (conn.id :: (s.next .accept).ids .backlog) := by
    rw [hnext, ServerState.ids, hbacklog]
    exact List.Perm.refl _
  have hto : ((s.next .accept).ids .avail).Perm (conn.id :: s.ids .avail) := by
    rw [hnext, ServerState.ids, ServerState.ids, hacc]
    exact List.Perm.refl _
  have honce : Distributed (s.next .accept).ids {id | id < s.made} := by
    apply h.once.move (by decide) hfrom hto
    intro k hk hk'
    rw [hnext]
    cases k with
    | backlog => exact absurd rfl hk
    | avail => exact absurd rfl hk'
    | _ => rfl
  rw [hnext] at honce hpending ⊢
  refine ⟨honce, hsorted, ?_, fun _ => Or.inr ⟨conn, rfl⟩, fun hr => absurd hr hkept, h.flag,
    fun k hk hr => ?_, fun hne c hp hsame => h.port hne c ((hpending c).mp hp) hsame, h.connected,
    h.bound, h.asleep, fun hret => absurd (h.returned hret).1 hkept, ?_⟩
  · intro harmed
    exact absurd (hdis.symm.trans harmed) (by decide)
  · obtain ⟨c, hp, hc⟩ := h.coming k hk hr
    exact ⟨c, (hpending c).mpr hp, hc⟩
  · show s.sweeps + 1 ≤ s.accepts + 1 + 1
    omega

/-- The accepted connection is given to a fiber, or it was that of `stop`. -/
theorem inv_rearm (h : Inv s) (hacc : s.avail = .accepted conn) : Inv (s.next .rearm) := by
  have hdis := h.disarmed_of_accepted hacc
  have hkept : s.interest ≠ .removed := by
    rw [hdis]
    decide
  have hsorted := h.sorted
  rw [hacc] at hsorted
  have hpending : s.Pending conn := Or.inr hacc
  have hnext : s.next .rearm =
      if s.stopFlag = true ∧ conn.addr.same s.stopAddr = true then
        { s with interest := .removed, avail := .stopping conn }
      else
        { s with interest := .armed, avail := .none, starting := s.starting ++ [conn] } := by
    simp only [ServerState.next, hacc]
  rw [hnext]
  split
  · next hstop =>
    obtain ⟨hflag, hsame⟩ := hstop
    have hset : s.stopper.isSet = true := (h.flag hkept).symm.trans hflag
    have hidle : s.stopper ≠ .idle := by
      intro hidle
      rw [hidle] at hset
      exact absurd hset Bool.false_ne_true
    have hid := h.port hidle conn hpending hsame
    generalize hs' : ServerState.mk _ _ _ _ _ _ _ _ _ _ _ _ _ = s'
    have hids : s'.ids = s.ids := by
      rw [← hs']
      funext k
      cases k with
      | avail =>
        simp only [ServerState.ids, hacc]
        rfl
      | _ => rfl
    refine ⟨?_, ?_, ?_, ?_, ?_, ?_, ?_, ?_, ?_, ?_, ?_, ?_, ?_⟩
    · rw [hids, ← hs']
      exact h.once
    · rw [← hs']
      exact hsorted
    · rw [← hs']
      exact nofun
    · rw [← hs']
      exact nofun
    · rw [← hs']
      intro _
      refine ⟨conn.id, hid, fun c hc => ?_, Or.inr ⟨conn, rfl, hflag⟩⟩
      exact (List.pairwise_cons.mp hsorted).1 c hc
    · rw [← hs']
      exact fun hne => absurd rfl hne
    · rw [← hs']
      exact fun _ _ hne => absurd rfl hne
    · rw [← hs']
      exact fun hne c hp hsame => h.port hne c (hp.imp_right nofun) hsame
    · rw [← hs']
      exact h.connected
    · rw [← hs']
      exact h.bound
    · rw [← hs']
      exact h.asleep
    · rw [← hs']
      exact fun hret => absurd (h.returned hret).1 hkept
    · rw [← hs']
      exact h.swept
  · next hno =>
    generalize hs' : ServerState.mk _ _ _ _ _ _ _ _ _ _ _ _ _ = s'
    have hfrom : (s.ids .avail).Perm (conn.id :: s'.ids .avail) := by
      rw [← hs', ServerState.ids, hacc]
      exact List.Perm.refl _
    have hto : (s'.ids .starting).Perm (conn.id :: s.ids .starting) := by
      rw [← hs', ServerState.ids, List.map_append]
      exact List.perm_append_singleton _ _
    have honce : Distributed s'.ids {id | id < s.made} := by
      apply h.once.move (by decide) hfrom hto
      intro k hk hk'
      rw [← hs']
      cases k with
      | avail => exact absurd rfl hk
      | starting => exact absurd rfl hk'
      | _ => rfl
    refine ⟨?_, ?_, ?_, ?_, ?_, ?_, ?_, ?_, ?_, ?_, ?_, ?_, ?_⟩
    · rw [← hs'] at honce ⊢
      exact honce
    · rw [← hs']
      exact (List.pairwise_cons.mp hsorted).2
    · rw [← hs']
      exact fun _ => rfl
    · rw [← hs']
      exact nofun
    · rw [← hs']
      exact nofun
    · rw [← hs']
      exact fun _ => h.flag hkept
    · rw [← hs']
      intro k hk _
      obtain ⟨c, hp, hc, hsame⟩ := h.coming k hk hkept
      refine ⟨c, hp.imp_right fun hp => ?_, hc, hsame⟩
      -- the connection of `stop` would have been seen
      rw [hacc] at hp
      cases hp
      have hconnected : s.stopper.isConnected = true := by
        rw [h.connected, hk]
        rfl
      have hset : s.stopper.isSet = true := by
        cases hphase : s.stopper <;> rw [hphase] at hconnected <;>
          first | rfl | exact absurd hconnected Bool.false_ne_true
      exact absurd ⟨(h.flag hkept).trans hset, hsame⟩ hno
    · rw [← hs']
      exact fun hne c hp hsame => h.port hne c (hp.imp_right nofun) hsame
    · rw [← hs']
      exact h.connected
    · rw [← hs']
      exact h.bound
    · rw [← hs']
      exact h.asleep
    · rw [← hs']
      exact fun hret => absurd (h.returned hret).1 hkept
    · rw [← hs']
      exact h.swept

theorem inv_notify (h : Inv s) (hstop : s.avail = .stopping conn) : Inv (s.next .notify) := by
  have hremoved := h.removed_of_stopping hstop
  obtain ⟨k, hk, hlt, hcase⟩ := h.removed hremoved
  have hsorted := h.sorted
  rw [hstop] at hsorted
  have hnext : s.next .notify =
      { s with
        avail := .none
        starting := s.starting ++ [conn]
        stopFlag := false
        stopper := if s.stopper = .asleep then .locking else s.stopper } := by
    simp only [ServerState.next, hstop]
  have hconnected : StopPhase.isConnected (if s.stopper = .asleep then .locking else s.stopper) =
      s.stopper.isConnected := by
    split
    · next hasleep =>
      rw [hasleep]
      rfl
    · rfl
  rw [hnext]
  generalize hs' : ServerState.mk _ _ _ _ _ _ _ _ _ _ _ _ _ = s'
  have hfrom : (s.ids .avail).Perm (conn.id :: s'.ids .avail) := by
    rw [← hs', ServerState.ids, hstop]
    exact List.Perm.refl _
  have hto : (s'.ids .starting).Perm (conn.id :: s.ids .starting) := by
    rw [← hs', ServerState.ids, List.map_append]
    exact List.perm_append_singleton _ _
  have honce : Distributed s'.ids {id | id < s.made} := by
    apply h.once.move (by decide) hfrom hto
    intro k hk hk'
    rw [← hs']
    cases k with
    | avail => exact absurd rfl hk
    | starting => exact absurd rfl hk'
    | _ => rfl
  refine ⟨?_, ?_, ?_, ?_, ?_, ?_, ?_, ?_, ?_, ?_, ?_, ?_, ?_⟩
  · rw [← hs'] at honce ⊢
    exact honce
  · rw [← hs']
    exact (List.pairwise_cons.mp hsorted).2
  · rw [← hs']
    exact fun harmed => absurd (hremoved.symm.trans harmed) (by decide)
  · rw [← hs']
    exact fun hdis => absurd (hremoved.symm.trans hdis) (by decide)
  · rw [← hs']
    exact fun _ => ⟨k, hk, hlt, Or.inl ⟨rfl, rfl⟩⟩
  · rw [← hs']
    exact fun hne => absurd hremoved hne
  · rw [← hs']
    exact fun _ _ hne => absurd hremoved hne
  · rw [← hs']
    intro hne c hp hsame
    refine h.port (fun hidle => hne ?_) c (hp.imp_right nofun) hsame
    show (if s.stopper = .asleep then StopPhase.locking else s.stopper) = .idle
    rw [hidle]
    rfl
  · rw [← hs']
    exact hconnected.trans h.connected
  · rw [← hs']
    exact h.bound
  · rw [← hs']
    intro hasleep
    change (if s.stopper = .asleep then StopPhase.locking else s.stopper) = .asleep at hasleep
    split at hasleep
    · cases hasleep
    · next hno => exact absurd hasleep hno
  · rw [← hs']
    exact fun _ => ⟨hremoved, rfl⟩
  · rw [← hs']
    exact h.swept

/-! ## The fibers, and `stop` -/

theorem inv_runInFiber (h : Inv s) (hconn : conn ∈ s.starting) :
    Inv (s.next (.runInFiber conn)) := by
  have hfrom : (s.ids .starting).Perm (conn.id :: (s.next (.runInFiber conn)).ids .starting) :=
    (List.perm_cons_erase hconn).map Conn.id
  have hto : ((s.next (.runInFiber conn)).ids .handed).Perm (conn.id :: s.ids .handed) := by
    show ((s.handed ++ [conn]).map Conn.id).Perm _
    rw [List.map_append]
    exact List.perm_append_singleton _ _
  have honce : Distributed (s.next (.runInFiber conn)).ids {id | id < s.made} := by
    apply h.once.move (by decide) hfrom hto
    intro k hk hk'
    cases k with
    | starting => exact absurd rfl hk
    | handed => exact absurd rfl hk'
    | _ => rfl
  exact ⟨honce, h.sorted, h.armed, h.disarmed, h.removed, h.flag, h.coming, h.port, h.connected,
    h.bound, h.asleep, h.returned, h.swept⟩

theorem Inv.stopId_of_idle (h : Inv s) (hphase : s.stopper.isConnected = false) :
    s.stopId = none ∧ s.interest ≠ .removed := by
  have hnone : s.stopId = none := by
    have hconnected := h.connected
    rw [hphase] at hconnected
    exact Option.isNone_iff_eq_none.mp (Option.isSome_eq_false_iff.mp hconnected.symm)
  refine ⟨hnone, fun hr => ?_⟩
  obtain ⟨k, hk, -⟩ := h.removed hr
  rw [hnone] at hk
  cases hk

theorem inv_stopBind (h : Inv s) (hidle : s.stopper = .idle) (hfree : s.Free addr) :
    Inv (s.next (.stopBind addr)) := by
  have hconnected : s.stopper.isConnected = false := by
    rw [hidle]
    rfl
  obtain ⟨hnone, hkept⟩ := h.stopId_of_idle hconnected
  have hflag : s.stopFlag = false := by
    rw [h.flag hkept, hidle]
    rfl
  refine ⟨h.once, h.sorted, h.armed, h.disarmed, fun hr => absurd hr hkept, fun _ => hflag,
    fun k hk => ?_, fun _ c hp hsame => ?_, ?_, h.bound, nofun, nofun, h.swept⟩
  · exact absurd (hnone.symm.trans hk) (by simp)
  · have hother : c.addr.same addr = false := by
      rcases hp with hp | hp
      · exact hfree.1 c hp
      · have hcase := hfree.2
        have hp : s.avail = .accepted c := hp
        rw [hp] at hcase
        exact hcase
    exact absurd (hother.symm.trans hsame) Bool.false_ne_true
  · show false = s.stopId.isSome
    rw [hnone]
    rfl

theorem inv_stopSet (h : Inv s) (hbound : s.stopper = .bound) : Inv (s.next .stopSet) := by
  have hconnected : s.stopper.isConnected = false := by
    rw [hbound]
    rfl
  obtain ⟨hnone, hkept⟩ := h.stopId_of_idle hconnected
  have hidle : s.stopper ≠ .idle := by
    rw [hbound]
    decide
  refine ⟨h.once, h.sorted, h.armed, h.disarmed, fun hr => absurd hr hkept, fun _ => rfl,
    h.coming, fun _ => h.port hidle, ?_, h.bound, nofun, nofun, h.swept⟩
  show false = s.stopId.isSome
  rw [hnone]
  rfl

/-- `stop` returns when the flag was cleared. -/
theorem inv_stopTest (h : Inv s) (hlocking : s.stopper = .locking) : Inv (s.next .stopTest) := by
  have hidle : s.stopper ≠ .idle := by
    rw [hlocking]
    decide
  have hset : s.stopper.isSet = true := by
    rw [hlocking]
    rfl
  have hphase : (s.next .stopTest).stopper = if s.stopFlag then .asleep else .returned := rfl
  have hset' : (s.next .stopTest).stopper.isSet = true := by
    rw [hphase]
    split <;> rfl
  have hconnected : (s.next .stopTest).stopper.isConnected = s.stopper.isConnected := by
    rw [hphase, hlocking]
    split <;> rfl
  refine ⟨h.once, h.sorted, h.armed, h.disarmed, h.removed, fun hr => ?_, h.coming,
    fun _ => h.port hidle, hconnected.trans h.connected, h.bound, fun hasleep => ?_,
    fun hret => ?_, h.swept⟩
  · exact (h.flag hr).trans (hset.trans hset'.symm)
  · rw [hphase] at hasleep
    split at hasleep
    · next hflag => exact hflag
    · cases hasleep
  · rw [hphase] at hret
    split at hret
    · cases hret
    · next hflag =>
      have hflag : s.stopFlag = false := Bool.not_eq_true _ ▸ hflag
      have hremoved : s.interest = .removed := by
        by_contra hkept
        have htrue := (h.flag hkept).trans hset
        rw [hflag] at htrue
        exact absurd htrue Bool.false_ne_true
      obtain ⟨-, -, -, ⟨hnone, -⟩ | ⟨conn, -, htrue⟩⟩ := h.removed hremoved
      · exact ⟨hremoved, hnone⟩
      · rw [hflag] at htrue
        exact absurd htrue Bool.false_ne_true

/-! ## Runs -/

theorem inv_next {x : ServerAction} (h : Inv s) (hen : s.enabled x) : Inv (s.next x) := by
  cases x with
  | connect addr => exact inv_connect h hen
  | epollWait => exact inv_epollWait h hen.1 hen.2
  | acceptError emfile => exact inv_acceptError h hen
  | accept => exact inv_accept h hen.1 hen.2
  | rearm =>
    simp only [ServerState.enabled] at hen
    split at hen
    · next conn hacc => exact inv_rearm h hacc
    · exact absurd hen id
  | notify =>
    simp only [ServerState.enabled] at hen
    split at hen
    · next conn hstop => exact inv_notify h hstop
    · exact absurd hen id
  | runInFiber conn => exact inv_runInFiber h hen
  | stopBind addr => exact inv_stopBind h hen.1 hen.2
  | stopSet => exact inv_stopSet h hen
  | stopConnect => exact inv_stopConnect h hen
  | stopTest => exact inv_stopTest h hen

theorem inv_init : Inv serverMachine.init := by
  have hids (k : ConnPlace) : serverMachine.init.ids k = [] := by cases k <;> rfl
  refine ⟨⟨⟨fun k => ?_, fun k l id hid => ?_⟩, fun id => iff_of_false ?_ (Nat.not_lt_zero id)⟩,
    List.Pairwise.nil, fun _ => rfl, nofun, nofun, fun _ => rfl, nofun, fun hne => absurd rfl hne,
    rfl, nofun, nofun, nofun, Nat.le_refl 1⟩
  · rw [hids]
    exact List.nodup_nil
  · rw [hids] at hid
    exact absurd hid List.not_mem_nil
  · rintro ⟨k, hid⟩
    rw [hids] at hid
    exact List.not_mem_nil hid

/-- Once the socket is out of epoll for good, what was connected before `stop` is accepted. -/
theorem Inv.accepted_of_removed (h : Inv s) (hremoved : s.interest = .removed)
    (hnone : s.avail = .none) {k id : ℕ} (hk : s.stopId = some k) (hid : id ≤ k) :
    id ∈ s.ids .starting ∨ id ∈ s.ids .handed := by
  obtain ⟨k', hk', hlt, -⟩ := h.removed hremoved
  obtain rfl : k' = k := Option.some.inj (hk'.symm.trans hk)
  have hmade : id < s.made := lt_of_le_of_lt hid (h.bound k' hk)
  obtain ⟨place, hplace⟩ := (h.once.mem_iff id).mpr hmade
  cases place with
  | backlog =>
    obtain ⟨conn, hconn, rfl⟩ := List.mem_map.mp hplace
    exact absurd (hlt conn hconn) (not_lt.mpr hid)
  | avail =>
    rw [ServerState.ids, hnone] at hplace
    exact absurd hplace List.not_mem_nil
  | starting => exact Or.inl hplace
  | handed => exact Or.inr hplace

/-- At rest, no thread is between `accept4` and the fiber. -/
theorem Inv.starting_of_rest (h : s.AtRest) : s.starting = [] := by
  by_contra hne
  obtain ⟨conn, rest, hstarting⟩ := List.exists_cons_of_ne_nil hne
  exact h (.runInFiber conn) (by rw [ServerState.enabled, hstarting]; exact List.mem_cons_self)

theorem Inv.rest (h : Inv s) (hrest : s.AtRest) :
    (s.stopper = .idle ∧ (∀ id < s.made, id ∈ s.ids .handed)) ∨
      s.stopper = .returned ∧ ∀ k, s.stopId = some k → ∀ id ≤ k, id ∈ s.ids .handed := by
  have hstarting := Inv.starting_of_rest hrest
  cases hinterest : s.interest with
  | armed =>
    left
    have hnone := h.armed hinterest
    have hbacklog : s.backlog = [] := by
      by_contra hne
      exact hrest .epollWait ⟨hinterest, hne⟩
    have hidle : s.stopper = .idle := by
      -- the connection of `stop` would be in the queue
      have hconnected : s.stopper.isConnected = false := by
        rw [h.connected]
        cases hstop : s.stopId with
        | none => rfl
        | some k =>
          obtain ⟨conn, hp, -⟩ := h.coming k hstop (by rw [hinterest]; decide)
          rcases hp with hp | hp
          · rw [hbacklog] at hp
            exact absurd hp List.not_mem_nil
          · rw [hnone] at hp
            cases hp
      cases hphase : s.stopper with
      | idle => rfl
      | bound => exact absurd hphase (hrest .stopSet)
      | announced => exact absurd hphase (hrest .stopConnect)
      | _ =>
        rw [hphase] at hconnected
        cases hconnected
    refine ⟨hidle, fun id hid => ?_⟩
    obtain ⟨place, hplace⟩ := (h.once.mem_iff id).mpr hid
    cases place with
    | backlog =>
      rw [ServerState.ids, hbacklog] at hplace
      exact absurd hplace List.not_mem_nil
    | avail =>
      rw [ServerState.ids, hnone] at hplace
      exact absurd hplace List.not_mem_nil
    | starting =>
      rw [ServerState.ids, hstarting] at hplace
      exact absurd hplace List.not_mem_nil
    | handed => exact hplace
  | disarmed =>
    rcases h.disarmed hinterest with ⟨hacc, hne⟩ | ⟨conn, hacc⟩
    · exact False.elim (hrest .accept ⟨hacc, hne⟩)
    · exact False.elim (hrest .rearm (by simp only [ServerState.enabled, hacc]))
  | removed =>
    right
    obtain ⟨k, hk, -, ⟨hnone, hflag⟩ | ⟨conn, hstop, -⟩⟩ := h.removed hinterest
    · have hreturned : s.stopper = .returned := by
        have hconnected : s.stopper.isConnected = true := by
          rw [h.connected, hk]
          rfl
        cases hphase : s.stopper with
        | returned => rfl
        | locking => exact absurd hphase (hrest .stopTest)
        | asleep =>
          have htrue := h.asleep hphase
          rw [hflag] at htrue
          cases htrue
        | _ =>
          rw [hphase] at hconnected
          cases hconnected
      refine ⟨hreturned, fun k' hk' id hid => ?_⟩
      rcases h.accepted_of_removed hinterest hnone hk' hid with hmem | hmem
      · rw [ServerState.ids, hstarting] at hmem
        exact absurd hmem List.not_mem_nil
      · exact hmem
    · exact False.elim (hrest .notify (by simp only [ServerState.enabled, hstop]))

end Anon.Tcp
