import Anon.Epc.Sockets

/-!
# One place for each socket

* `Place`, `Pool.At`: where a socket can be.
* `PlaceInv`: every socket that was connected is at exactly one place.
* `EndpointInv`: an endpoint that somebody has is not deleted.
* `UseInv`: how long the sockets in the queues have been idle, and which ones are not used again.
* `SocketsHold`: what is meant; `socketsHold` is about every run.
-/

namespace Anon.Epc

open Slots (kMaxIdleTime)

variable {A : Type} [DecidableEq A] {s t : Pool A} {a : A} {ep k : ℕ} {maxConnPerEp : ℤ}
variable {doTls : Bool} {x : PoolAction A}

/-- Where a socket can be. -/
inductive Place (A : Type)
  | queue (ep : ℕ)
  | hands (a : A)
  | closed

/-- The sockets in the queue of an endpoint. -/
def Pool.queue {A : Type} (s : Pool A) (ep : ℕ) : List ℕ := (s.endpoints ep).socks.map Prod.fst

/-- The socket is at the place. -/
def Pool.At {A : Type} (s : Pool A) (k : ℕ) : Place A → Prop
  | .queue ep => k ∈ s.queue ep
  | .hands a => (s.pc a).sock = some k
  | .closed => k ∈ s.closed

/-- Every socket that was connected is in one queue, once, in the hands of one call, or closed; a
deleted endpoint has no queue; a socket whose use has ended in an exception or that was declined
is in no queue; and a socket that was taken out of a queue had been idle for less than the
maximum. -/
structure SocketsHold {A : Type} (s : Pool A) : Prop where
  exclusive : ∀ k < s.connected, ∃! p, s.At k p
  once : ∀ ep, (s.queue ep).Nodup
  existing : ∀ ep, (s.endpoints ep).deleted = true → s.queue ep = []
  spent : ∀ k ∈ s.spent, ∀ ep, k ∉ s.queue ep
  recent : ∀ h ∈ s.handouts, h.2 < kMaxIdleTime

/-! ## The loop -/

/-- What becomes of the sockets of a queue. -/
theorem map_takeSock (now : ℕ → ℤ) (socks : List (ℕ × ℤ)) :
    (takeSock now socks).1 ++ ((takeSock now socks).2.1.map Prod.fst).toList ++
      (takeSock now socks).2.2.map Prod.fst = socks.map Prod.fst := by
  induction socks generalizing now with
  | nil => rfl
  | cons e socks ih =>
    rw [takeSock]
    split
    · rfl
    · show e.1 :: _ ++ _ ++ _ = _
      rw [List.cons_append, List.cons_append, ih, List.map_cons]

/-- The rest of the queue is as it was. -/
theorem mem_of_mem_takeSock {now : ℕ → ℤ} {socks : List (ℕ × ℤ)} {e : ℕ × ℤ}
    (he : e ∈ (takeSock now socks).2.2) : e ∈ socks := by
  induction socks generalizing now with
  | nil => exact he
  | cons e' socks ih =>
    rw [takeSock] at he
    split at he
    · exact List.mem_cons_of_mem e' he
    · exact List.mem_cons_of_mem e' (ih he)

/-- The socket that is taken was idle for less than the maximum. -/
theorem lt_of_takeSock {now : ℕ → ℤ} {socks : List (ℕ × ℤ)} {time : ℤ}
    (h : (takeSock now socks).2.1 = some (k, time)) :
    ∃ idleStartTime, (k, idleStartTime) ∈ socks ∧ time < idleStartTime + kMaxIdleTime := by
  induction socks generalizing now with
  | nil => exact absurd h (by simp [takeSock])
  | cons e socks ih =>
    rw [takeSock] at h
    split at h
    · next hlt =>
      obtain ⟨rfl, rfl⟩ := Prod.mk.inj (Option.some.inj h)
      exact ⟨e.2, List.mem_cons_self, hlt⟩
    · obtain ⟨idleStartTime, hmem, hlt⟩ := ih h
      exact ⟨idleStartTime, List.mem_cons_of_mem e hmem, hlt⟩

/-! ## Places -/

structure PlaceInv {A : Type} (s : Pool A) : Prop where
  exclusive : ∀ k < s.connected, ∃! p, s.At k p
  known : ∀ k p, s.At k p → k < s.connected
  once : ∀ ep, (s.queue ep).Nodup

omit [DecidableEq A] in
/-- A socket leaves its place for another one. -/
theorem existsUnique_of_move (h : ∃! p, s.At k p) {p q : Place A} (hp : s.At k p) (hq : t.At k q)
    (hothers : ∀ r, r ≠ q → t.At k r → s.At k r ∧ r ≠ p) : ∃! p, t.At k p := by
  refine ⟨q, hq, fun r hr => ?_⟩
  by_contra hne
  obtain ⟨hat, hleft⟩ := hothers r hne hr
  exact hleft (h.unique hat hp)

omit [DecidableEq A] in
/-- Some sockets move, each from the place `source` to its destination, and the others stay. -/
theorem PlaceInv.move (h : PlaceInv s) (hconnected : t.connected = s.connected) (source : Place A)
    (dest : ℕ → Option (Place A)) (hstay : ∀ k, dest k = none → ∀ p, t.At k p ↔ s.At k p)
    (hmove : ∀ k q, dest k = some q → s.At k source ∧ t.At k q ∧
      ∀ r, r ≠ q → t.At k r → s.At k r ∧ r ≠ source)
    (honce : ∀ ep, (t.queue ep).Nodup) : PlaceInv t where
  exclusive := by
    intro k hk
    rw [hconnected] at hk
    cases hdest : dest k with
    | none =>
      obtain ⟨p, hp, hunique⟩ := h.exclusive k hk
      exact ⟨p, (hstay k hdest p).mpr hp, fun q hq => hunique q ((hstay k hdest q).mp hq)⟩
    | some q =>
      obtain ⟨hp, hq, hothers⟩ := hmove k q hdest
      exact existsUnique_of_move (h.exclusive k hk) hp hq hothers
  known := by
    intro k p hp
    rw [hconnected]
    cases hdest : dest k with
    | none => exact h.known k p ((hstay k hdest p).mp hp)
    | some q => exact h.known k source (hmove k q hdest).1
  once := honce

omit [DecidableEq A] in
/-- One socket moves from the place `source` to the place `target`. -/
theorem PlaceInv.moveOne (h : PlaceInv s) (hconnected : t.connected = s.connected)
    (source target : Place A) (hat : s.At k source)
    (hother : ∀ k', k' ≠ k → ∀ p, t.At k' p ↔ s.At k' p) (hnow : t.At k target)
    (hleft : ∀ r, r ≠ target → t.At k r → s.At k r ∧ r ≠ source)
    (honce : ∀ ep, (t.queue ep).Nodup) : PlaceInv t := by
  apply h.move hconnected source (fun k' => if k' = k then some target else none) ?_ ?_ honce
  · intro k' hk' p
    have hne : k' ≠ k := fun heq => absurd hk' (by simp [heq])
    exact hother k' hne p
  · intro k' q hq
    have heq : k' = k := by
      by_contra hne
      rw [if_neg hne] at hq
      exact absurd hq (by simp)
    rw [if_pos heq] at hq
    rw [← Option.some.inj hq, heq]
    exact ⟨hat, hnow, hleft⟩

/-- What a call has in its hands changes, but not for the socket `k`. -/
theorem sock_iff_of_ne {sock : Option ℕ}
    (hhands : ∀ b, (t.pc b).sock = if b = a then sock else (s.pc b).sock)
    (hbefore : (s.pc a).sock ≠ some k) (hafter : sock ≠ some k) (b : A) :
    (t.pc b).sock = some k ↔ (s.pc b).sock = some k := by
  rw [hhands]
  split
  · next hb =>
    rw [hb]
    exact iff_of_false hafter hbefore
  · exact Iff.rfl

omit [DecidableEq A] in
/-- No socket moves. -/
theorem PlaceInv.keep (h : PlaceInv s) (hconnected : t.connected = s.connected)
    (hqueue : ∀ ep, t.queue ep = s.queue ep) (hhands : ∀ a, (t.pc a).sock = (s.pc a).sock)
    (hclosed : t.closed = s.closed) : PlaceInv t := by
  apply h.move hconnected .closed (fun _ => none)
  · intro k _ p
    match p with
    | .queue ep =>
      show k ∈ t.queue ep ↔ k ∈ s.queue ep
      rw [hqueue]
    | .hands a =>
      show (t.pc a).sock = some k ↔ (s.pc a).sock = some k
      rw [hhands]
    | .closed =>
      show k ∈ t.closed ↔ k ∈ s.closed
      rw [hclosed]
  · exact fun k q hq => absurd hq (by simp)
  · intro ep
    rw [hqueue]
    exact h.once ep

theorem pc_setPc_apply (s : Pool A) (a b : A) (pc : UserPc) :
    (s.setPc a pc).pc b = if b = a then pc else s.pc b := by
  show Function.update s.pc a pc b = _
  rw [Function.update_apply]

/-- A call goes on with what it has. -/
theorem PlaceInv.setPc (h : PlaceInv s) {pc : UserPc} (hsock : pc.sock = (s.pc a).sock) :
    PlaceInv (s.setPc a pc) := by
  refine h.keep rfl (fun _ => rfl) (fun b => ?_) rfl
  rw [pc_setPc_apply]
  split
  · next hb => rw [hsock, hb]
  · rfl

/-- A call lets go of its socket, which is closed. -/
theorem PlaceInv.close (h : PlaceInv s) (hk : (s.pc a).sock = some k)
    (hconnected : t.connected = s.connected)
    (hqueue : ∀ ep, t.queue ep = s.queue ep)
    (hhands : ∀ b, (t.pc b).sock = if b = a then none else (s.pc b).sock)
    (hclosed : t.closed = s.closed ++ [k]) : PlaceInv t := by
  apply h.moveOne hconnected (.hands a) .closed hk
  · intro k' hne p
    match p with
    | .queue ep =>
      show k' ∈ t.queue ep ↔ k' ∈ s.queue ep
      rw [hqueue]
    | .hands b => exact sock_iff_of_ne hhands (by simp [hk, Ne.symm hne]) (by simp) b
    | .closed =>
      show k' ∈ t.closed ↔ k' ∈ s.closed
      rw [hclosed]
      simp [hne]
  · show k ∈ t.closed
    rw [hclosed]
    exact List.mem_append_right _ (List.mem_singleton.mpr rfl)
  · intro r hr hat
    match r with
    | .queue ep =>
      have hat : k ∈ t.queue ep := hat
      rw [hqueue] at hat
      exact ⟨hat, by simp⟩
    | .hands b =>
      have hat : (t.pc b).sock = some k := hat
      rw [hhands] at hat
      split at hat
      · exact absurd hat (by simp)
      · next hb => exact ⟨hat, by simpa using hb⟩
    | .closed => exact absurd rfl hr
  · intro ep
    rw [hqueue]
    exact h.once ep

omit [DecidableEq A] in
theorem queue_setEndpoint (s : Pool A) (ep ep' : ℕ) (e : PoolEndpoint) :
    (s.setEndpoint ep e).queue ep' = if ep' = ep then e.socks.map Prod.fst else s.queue ep' := by
  show (Function.update s.endpoints ep e ep').socks.map Prod.fst = _
  rw [Function.update_apply]
  split
  · rfl
  · rfl

omit [DecidableEq A] in
/-- A fiber that waits has no socket. -/
theorem sock_notifyAll (s : Pool A) (ep : ℕ) (b : A) :
    ((s.notifyAll ep).pc b).sock = (s.pc b).sock := by
  show (if s.pc b = .asleep ep then UserPc.notified ep else s.pc b).sock = _
  split
  · next hb =>
    rw [hb]
    rfl
  · rfl

omit [DecidableEq A] in
/-- A socket that is elsewhere is not in the queue. -/
theorem PlaceInv.notMem_queue (h : PlaceInv s) (p : Place A) (hp : s.At k p)
    (hne : p ≠ .queue ep) : k ∉ s.queue ep := by
  intro hmem
  have hqueue : s.At k (.queue ep) := hmem
  exact hne ((h.exclusive k (h.known k p hp)).unique hp hqueue)

/-- A call puts its socket into the queue of an endpoint. -/
theorem PlaceInv.put (h : PlaceInv s) (ep : ℕ) (hk : (s.pc a).sock = some k)
    (hconnected : t.connected = s.connected)
    (hqueue : ∀ ep', t.queue ep' = if ep' = ep then s.queue ep ++ [k] else s.queue ep')
    (hhands : ∀ b, (t.pc b).sock = if b = a then none else (s.pc b).sock)
    (hclosed : t.closed = s.closed) : PlaceInv t := by
  have hout : k ∉ s.queue ep := by
    apply h.notMem_queue (.hands a) hk
    simp
  apply h.moveOne hconnected (.hands a) (.queue ep) hk
  · intro k' hne p
    match p with
    | .queue ep' =>
      show k' ∈ t.queue ep' ↔ k' ∈ s.queue ep'
      rw [hqueue]
      split
      · next hep =>
        rw [hep]
        simp [hne]
      · exact Iff.rfl
    | .hands b => exact sock_iff_of_ne hhands (by simp [hk, Ne.symm hne]) (by simp) b
    | .closed =>
      show k' ∈ t.closed ↔ k' ∈ s.closed
      rw [hclosed]
  · show k ∈ t.queue ep
    rw [hqueue, if_pos rfl]
    exact List.mem_append_right _ (List.mem_singleton.mpr rfl)
  · intro r hr hat
    match r with
    | .queue ep' =>
      have hne : ep' ≠ ep := fun hep => hr (by rw [hep])
      have hat : k ∈ t.queue ep' := hat
      rw [hqueue, if_neg hne] at hat
      exact ⟨hat, by simp⟩
    | .hands b =>
      have hat : (t.pc b).sock = some k := hat
      rw [hhands] at hat
      split at hat
      · exact absurd hat (by simp)
      · next hb => exact ⟨hat, by simpa using hb⟩
    | .closed =>
      have hat : k ∈ t.closed := hat
      rw [hclosed] at hat
      exact ⟨hat, by simp⟩
  · intro ep'
    rw [hqueue]
    split
    -- it was in the hands of the call, so it is in the queue once
    · rw [List.nodup_append]
      refine ⟨h.once ep, List.nodup_singleton k, ?_⟩
      intro k' hk' k'' hk'' heq
      rw [List.mem_singleton.mp hk''] at heq
      exact hout (heq ▸ hk')
    · exact h.once ep'

omit [DecidableEq A] in
/-- Sockets at the front of a queue are closed. -/
theorem PlaceInv.drop (h : PlaceInv s) {dropped rest : List ℕ}
    (hold : dropped ++ rest = s.queue ep) (hconnected : t.connected = s.connected)
    (hqueue : ∀ ep', t.queue ep' = if ep' = ep then rest else s.queue ep')
    (hhands : ∀ b, (t.pc b).sock = (s.pc b).sock)
    (hclosed : t.closed = s.closed ++ dropped) : PlaceInv t := by
  have hnodup := h.once ep
  rw [← hold, List.nodup_append] at hnodup
  obtain ⟨-, hrest, hapart⟩ := hnodup
  apply h.move hconnected (.queue ep) (fun k => if k ∈ dropped then some .closed else none)
  · intro k hk p
    have hstays : k ∉ dropped := fun hdrop => absurd hk (by simp [hdrop])
    match p with
    | .queue ep' =>
      show k ∈ t.queue ep' ↔ k ∈ s.queue ep'
      rw [hqueue]
      split
      · next hep =>
        rw [hep, ← hold]
        simp [hstays]
      · exact Iff.rfl
    | .hands b =>
      show (t.pc b).sock = some k ↔ (s.pc b).sock = some k
      rw [hhands]
    | .closed =>
      show k ∈ t.closed ↔ k ∈ s.closed
      rw [hclosed]
      simp [hstays]
  · intro k q hq
    have hdrop : k ∈ dropped := by
      by_contra hstays
      rw [if_neg hstays] at hq
      exact absurd hq (by simp)
    rw [if_pos hdrop] at hq
    rw [← Option.some.inj hq]
    refine ⟨?_, ?_, fun r hr hat => ?_⟩
    · show k ∈ s.queue ep
      rw [← hold]
      exact List.mem_append_left _ hdrop
    · show k ∈ t.closed
      rw [hclosed]
      exact List.mem_append_right _ hdrop
    · match r with
      -- each socket was in the queue once, so it is not behind the dropped ones
      | .queue ep' =>
        have hat : k ∈ t.queue ep' := hat
        rw [hqueue] at hat
        split at hat
        · exact absurd rfl (hapart k hdrop k hat)
        · next hep => exact ⟨hat, by simpa using hep⟩
      | .hands b =>
        have hat : (t.pc b).sock = some k := hat
        rw [hhands] at hat
        exact ⟨hat, by simp⟩
      | .closed => exact absurd rfl hr
  · intro ep'
    rw [hqueue]
    split
    · exact hrest
    · exact h.once ep'

/-- A call takes the first socket of a queue. -/
theorem PlaceInv.take (h : PlaceInv s) (ep k : ℕ) (rest : List ℕ) (ha : (s.pc a).sock = none)
    (hold : s.queue ep = k :: rest) (hconnected : t.connected = s.connected)
    (hqueue : ∀ ep', t.queue ep' = if ep' = ep then rest else s.queue ep')
    (hhands : ∀ b, (t.pc b).sock = if b = a then some k else (s.pc b).sock)
    (hclosed : t.closed = s.closed) : PlaceInv t := by
  have hnodup := h.once ep
  rw [hold, List.nodup_cons] at hnodup
  have hsource : s.At k (.queue ep) := by
    show k ∈ s.queue ep
    rw [hold]
    exact List.mem_cons_self
  apply h.moveOne hconnected (.queue ep) (.hands a) hsource
  · intro k' hne p
    match p with
    | .queue ep' =>
      show k' ∈ t.queue ep' ↔ k' ∈ s.queue ep'
      rw [hqueue]
      split
      · next hep =>
        rw [hep, hold]
        simp [hne]
      · exact Iff.rfl
    | .hands b => exact sock_iff_of_ne hhands (by simp [ha]) (by simp [Ne.symm hne]) b
    | .closed =>
      show k' ∈ t.closed ↔ k' ∈ s.closed
      rw [hclosed]
  · show (t.pc a).sock = some k
    rw [hhands, if_pos rfl]
  · intro r hr hat
    match r with
    | .queue ep' =>
      have hat : k ∈ t.queue ep' := hat
      rw [hqueue] at hat
      split at hat
      · exact absurd hat hnodup.1
      · next hep => exact ⟨hat, by simpa using hep⟩
    | .hands b =>
      have hne : b ≠ a := fun hb => hr (by rw [hb])
      have hat : (t.pc b).sock = some k := hat
      rw [hhands, if_neg hne] at hat
      exact ⟨hat, by simp⟩
    | .closed =>
      have hat : k ∈ t.closed := hat
      rw [hclosed] at hat
      exact ⟨hat, by simp⟩
  · intro ep'
    rw [hqueue]
    split
    · exact hnodup.2
    · exact h.once ep'

/-- A socket is connected. -/
theorem PlaceInv.connects (h : PlaceInv s) (ha : (s.pc a).sock = none) (ep : ℕ) :
    PlaceInv ({ s with connected := s.connected + 1 }.setPc a (.connected ep s.connected)) := by
  have hhands (b : A) : (({ s with connected := s.connected + 1 }.setPc a
      (.connected ep s.connected)).pc b).sock =
        if b = a then some s.connected else (s.pc b).sock := by
    rw [pc_setPc_apply]
    split
    · rfl
    · rfl
  have hother (k : ℕ) (hk : k ≠ s.connected) (p : Place A) :
      ({ s with connected := s.connected + 1 }.setPc a (.connected ep s.connected)).At k p ↔
        s.At k p := by
    match p with
    | .queue ep' => exact Iff.rfl
    | .hands b => exact sock_iff_of_ne hhands (by simp [ha]) (by simp [Ne.symm hk]) b
    | .closed => exact Iff.rfl
  -- the number is new, so this socket was nowhere
  have hfresh (p : Place A) : ¬s.At s.connected p :=
    fun hat => absurd (h.known s.connected p hat) (lt_irrefl _)
  refine ⟨fun k hk => ?_, fun k p hat => ?_, h.once⟩
  · by_cases heq : k = s.connected
    · rw [heq]
      refine ⟨.hands a, ?_, fun p hat => ?_⟩
      · show UserPc.sock _ = some s.connected
        rw [hhands, if_pos rfl]
      · match p with
        | .queue ep' => exact absurd hat (hfresh (.queue ep'))
        | .hands b =>
          have hat : UserPc.sock _ = some s.connected := hat
          rw [hhands] at hat
          split at hat
          · next hb => rw [hb]
          · exact absurd hat (hfresh (.hands b))
        | .closed => exact absurd hat (hfresh .closed)
    · have hlt : k < s.connected := lt_of_le_of_ne (Nat.le_of_lt_succ hk) heq
      obtain ⟨p, hp, hunique⟩ := h.exclusive k hlt
      exact ⟨p, (hother k heq p).mpr hp, fun q hq => hunique q ((hother k heq q).mp hq)⟩
  · show k < s.connected + 1
    by_cases heq : k = s.connected
    · omega
    · exact (h.known k p ((hother k heq p).mp hat)).trans (Nat.lt_succ_self _)

theorem PlaceInv.enter (h : PlaceInv s) (ha : (s.pc a).sock = none) (now : ℕ → ℤ) :
    PlaceInv (s.enter maxConnPerEp a ep now) := by
  unfold Pool.enter
  simp only
  -- no slot is free, or the endpoint has an error, or the call takes a slot
  split
  · exact h.setPc ha.symm
  · split
    · exact h.setPc ha.symm
    · have hold := map_takeSock now (s.endpoints ep).socks
      split
      -- the dropped sockets go first, and then the one that is taken
      · next sock time htaken =>
        rw [htaken] at hold
        have hdrop : PlaceInv ({ s with
            closed := s.closed ++ (takeSock now (s.endpoints ep).socks).1 }.setEndpoint ep
              { s.endpoints ep with
                socks := (sock, time) :: (takeSock now (s.endpoints ep).socks).2.2 }) := by
          refine h.drop ((List.append_assoc ..).symm.trans hold) rfl (fun ep' => ?_)
            (fun _ => rfl) rfl
          exact queue_setEndpoint ..
        refine hdrop.take ep sock ((takeSock now (s.endpoints ep).socks).2.2.map Prod.fst) ha ?_ rfl
          (fun ep' => ?_) (fun b => ?_) rfl
        · exact (queue_setEndpoint ..).trans (if_pos rfl)
        · refine (queue_setEndpoint ..).trans ?_
          split
          · rfl
          · next hep => exact ((queue_setEndpoint ..).trans (if_neg hep)).symm
        · rw [pc_setPc_apply]
          split
          · rfl
          · rfl
      · next htaken =>
        rw [htaken] at hold
        refine h.drop ((List.append_assoc ..).symm.trans hold) rfl (fun ep' => ?_)
          (fun b => ?_) rfl
        · exact queue_setEndpoint ..
        · rw [pc_setPc_apply]
          split
          · next hb =>
            rw [hb, ha]
            rfl
          · rfl

theorem PlaceInv.cleanup (h : PlaceInv s) (ha : (s.pc a).sock = some k)
    (alive cache exceptionThrown : Bool) (now : ℤ) :
    PlaceInv (s.cleanup a ep k alive cache exceptionThrown now) := by
  have hhands (s' : Pool A) (hpc : s'.pc = s.pc) (b : A) :
      ((s'.setPc a .outside).pc b).sock = if b = a then none else (s.pc b).sock := by
    rw [pc_setPc_apply, hpc]
    -- the socket goes back, or is declined, or the endpoint has been deleted
    split
    · rfl
    · rfl
  unfold Pool.cleanup
  simp only
  split
  · split
    · refine h.put ep ha rfl (fun ep' => ?_) (fun b => ?_) rfl
      · refine (queue_setEndpoint ..).trans ?_
        rw [List.map_append]
        rfl
      · rw [sock_notifyAll]
        exact hhands _ rfl b
    · refine h.close ha rfl (fun ep' => ?_) (fun b => ?_) rfl
      · refine (queue_setEndpoint ..).trans ?_
        split
        · next hep =>
          rw [hep]
          rfl
        · rfl
      · rw [sock_notifyAll]
        exact hhands _ rfl b
  · exact h.close ha rfl (fun _ => rfl) (hhands _ rfl) rfl

theorem PlaceInv.step (h : PlaceInv s) (he : s.enabled doTls x) :
    PlaceInv (s.next maxConnPerEp x) := by
  match x with
  | .relist listed n => exact h.keep rfl (fun _ => rfl) (fun _ => rfl) rfl
  | .choose a ep =>
    have ha : s.pc a = .outside := he.1
    exact h.setPc (by rw [ha]; rfl)
  | .enter a ep now =>
    have ha : (s.pc a).sock = none := by
      obtain ha | ha := he
      · rw [ha]
        rfl
      · rw [ha]
        rfl
    exact h.enter ha now
  | .connects a ep =>
    have ha : s.pc a = .connecting ep := he
    exact h.connects (by rw [ha]; rfl) ep
  | .connectFails a ep =>
    have ha : s.pc a = .connecting ep := he
    have hlisted : PlaceInv { s with listed := s.listed.erase ep } :=
      h.keep rfl (fun _ => rfl) (fun _ => rfl) rfl
    exact hlisted.setPc (by rw [show _ = UserPc.connecting ep from ha]; rfl)
  | .makesPipe a ep sock =>
    have ha : s.pc a = .connected ep sock := he
    exact h.setPc (by rw [ha]; rfl)
  | .handshakeFails a ep sock =>
    have ha : s.pc a = .connected ep sock := he.1
    refine h.close (by rw [ha]; rfl) rfl (fun _ => rfl) (fun b => ?_) rfl
    refine (congrArg UserPc.sock (pc_setPc_apply ..)).trans ?_
    split
    · rfl
    · rfl
  | .returns a ep sock cache =>
    have ha : s.pc a = .calling ep sock := he
    have hspent : PlaceInv { s with spent := if cache then s.spent else s.spent ++ [sock] } :=
      h.keep rfl (fun _ => rfl) (fun _ => rfl) rfl
    exact hspent.setPc (by rw [show _ = UserPc.calling ep sock from ha]; rfl)
  | .throws a ep sock =>
    have ha : s.pc a = .calling ep sock := he
    have hspent : PlaceInv { s with spent := s.spent ++ [sock] } :=
      h.keep rfl (fun _ => rfl) (fun _ => rfl) rfl
    exact hspent.setPc (by rw [show _ = UserPc.calling ep sock from ha]; rfl)
  | .cleanup a ep sock alive cache exceptionThrown now =>
    have ha : s.pc a = .ended ep sock alive cache exceptionThrown := he
    exact h.cleanup (by rw [ha]; rfl) alive cache exceptionThrown now
  | .delete ep =>
    refine h.drop (List.append_nil _) rfl (fun ep' => ?_) (fun _ => rfl) rfl
    exact queue_setEndpoint ..

/-! ## Deleted endpoints -/

structure EndpointInv {A : Type} (s : Pool A) : Prop where
  emptied : ∀ ep, (s.endpoints ep).deleted = true → (s.endpoints ep).socks = []
  held : ∀ a ep, (s.pc a).endpoint = some ep → (s.endpoints ep).deleted = false
  listed : ∀ ep ∈ s.listed, (s.endpoints ep).deleted = false
  unmade : ∀ ep, s.made ≤ ep → (s.endpoints ep).deleted = false

omit [DecidableEq A] in
/-- Some endpoint that is not deleted changes, calls let go of endpoints, and endpoints leave the
list. -/
theorem EndpointInv.frame (h : EndpointInv s) (hmade : t.made = s.made)
    (hdeleted : ∀ ep, (t.endpoints ep).deleted = (s.endpoints ep).deleted)
    (hsocks : ∀ ep, (s.endpoints ep).deleted = true →
      (t.endpoints ep).socks = (s.endpoints ep).socks)
    (hheld : ∀ b ep, (t.pc b).endpoint = some ep → (s.endpoints ep).deleted = false)
    (hlisted : ∀ ep ∈ t.listed, ep ∈ s.listed) : EndpointInv t where
  emptied := by
    intro ep hep
    rw [hdeleted] at hep
    rw [hsocks ep hep]
    exact h.emptied ep hep
  held := by
    intro b ep hep
    rw [hdeleted]
    exact hheld b ep hep
  listed := by
    intro ep hep
    rw [hdeleted]
    exact h.listed ep (hlisted ep hep)
  unmade := by
    intro ep hep
    rw [hmade] at hep
    rw [hdeleted]
    exact h.unmade ep hep

theorem EndpointInv.setPc (h : EndpointInv s) {pc : UserPc}
    (hheld : ∀ ep, pc.endpoint = some ep → (s.endpoints ep).deleted = false) :
    EndpointInv (s.setPc a pc) := by
  refine h.frame rfl (fun _ => rfl) (fun _ _ => rfl) (fun b ep hep => ?_) (fun _ hep => hep)
  rw [pc_setPc_apply] at hep
  split at hep
  · exact hheld ep hep
  · exact h.held b ep hep

omit [DecidableEq A] in
theorem EndpointInv.setEndpoint (h : EndpointInv s) (ep : ℕ) (e : PoolEndpoint)
    (hep : (s.endpoints ep).deleted = false) (he : e.deleted = false) :
    EndpointInv (s.setEndpoint ep e) := by
  have happly (ep' : ℕ) : (s.setEndpoint ep e).endpoints ep' =
      if ep' = ep then e else s.endpoints ep' := Function.update_apply ..
  refine h.frame rfl (fun ep' => ?_) (fun ep' hdel => ?_) h.held (fun _ hep => hep)
  · rw [happly]
    split
    · next heq => rw [heq, he, hep]
    · rfl
  · rw [happly, if_neg]
    intro heq
    rw [heq, hep] at hdel
    exact absurd hdel (by simp)

omit [DecidableEq A] in
theorem endpoint_notifyAll (s : Pool A) (ep : ℕ) (b : A) :
    ((s.notifyAll ep).pc b).endpoint = (s.pc b).endpoint := by
  show (if s.pc b = .asleep ep then UserPc.notified ep else s.pc b).endpoint = _
  split
  · next hb =>
    rw [hb]
    rfl
  · rfl

omit [DecidableEq A] in
theorem EndpointInv.notifyAll (h : EndpointInv s) (ep : ℕ) : EndpointInv (s.notifyAll ep) := by
  refine h.frame rfl (fun _ => rfl) (fun _ _ => rfl) (fun b ep' hep => ?_) (fun _ hep => hep)
  rw [endpoint_notifyAll] at hep
  exact h.held b ep' hep

/-- A call goes on with the endpoint that it has. -/
theorem EndpointInv.keep (h : EndpointInv s) {pc : UserPc}
    (hendpoint : pc.endpoint = (s.pc a).endpoint ∨ pc.endpoint = none) :
    EndpointInv (s.setPc a pc) := by
  apply h.setPc
  intro ep hep
  obtain hsame | hnone := hendpoint
  · rw [hsame] at hep
    exact h.held a ep hep
  · rw [hnone] at hep
    exact absurd hep (by simp)

theorem EndpointInv.leave (h : EndpointInv s) (a : A) : EndpointInv (s.setPc a .outside) :=
  h.keep (.inr rfl)

theorem EndpointInv.enter (h : EndpointInv s) (ha : (s.pc a).endpoint = some ep)
    (now : ℕ → ℤ) : EndpointInv (s.enter maxConnPerEp a ep now) := by
  have hep := h.held a ep ha
  have hclosed (closed : List ℕ) : EndpointInv { s with closed := closed } :=
    h.frame rfl (fun _ => rfl) (fun _ _ => rfl) h.held (fun _ hep => hep)
  unfold Pool.enter
  simp only
  split
  · exact h.keep (.inl ha.symm)
  · split
    · exact h.leave a
    -- only the slots and the queue of the endpoint change
    · have hafter (socks : List (ℕ × ℤ)) (dropped : List ℕ) :=
        (hclosed (s.closed ++ dropped)).setEndpoint ep { s.endpoints ep with
          outstandingRequests := (s.endpoints ep).outstandingRequests + 1
          socks := socks } hep hep
      split
      · next sock time _ =>
        have hhandouts : EndpointInv { ({ s with
            closed := s.closed ++ (takeSock now (s.endpoints ep).socks).1 }.setEndpoint ep
              { s.endpoints ep with
                outstandingRequests := (s.endpoints ep).outstandingRequests + 1
                socks := (takeSock now (s.endpoints ep).socks).2.2 }) with
            handouts := (sock, time - s.lastReturn sock) :: s.handouts } :=
          (hafter _ _).frame rfl (fun _ => rfl) (fun _ _ => rfl) (hafter _ _).held
            (fun _ hep => hep)
        exact hhandouts.keep (.inr rfl)
      · exact (hafter _ _).keep (.inl ha.symm)

theorem EndpointInv.cleanup (h : EndpointInv s) {alive cache exceptionThrown : Bool}
    (ha : s.pc a = .ended ep k alive cache exceptionThrown) (now : ℤ) :
    EndpointInv (s.cleanup a ep k alive cache exceptionThrown now) := by
  unfold Pool.cleanup
  simp only
  split
  · next halive =>
    have hep : (s.endpoints ep).deleted = false := by
      apply h.held a ep
      rw [ha, halive]
      rfl
    have hlisted (listed closed : List ℕ) (lastReturn : ℕ → ℤ)
        (hsub : ∀ ep ∈ listed, ep ∈ s.listed) : EndpointInv
          { s with listed := listed, closed := closed, lastReturn := lastReturn } :=
      h.frame rfl (fun _ => rfl) (fun _ _ => rfl) h.held hsub
    have hsub : ∀ ep' ∈ (if exceptionThrown then s.listed.erase ep else s.listed),
        ep' ∈ s.listed := by
      intro ep' hep'
      split at hep'
      · exact List.mem_of_mem_erase hep'
      · exact hep'
    split
    · have hput := hlisted _ s.closed (Function.update s.lastReturn k now) hsub
      refine ((hput.setEndpoint ep _ hep ?_).leave a).notifyAll ep
      exact hep
    · have hclose := hlisted _ (s.closed ++ [k]) s.lastReturn hsub
      refine ((hclose.setEndpoint ep _ hep ?_).leave a).notifyAll ep
      exact hep
  · have hclosed : EndpointInv { s with closed := s.closed ++ [k] } :=
      h.frame rfl (fun _ => rfl) (fun _ _ => rfl) h.held (fun _ hep => hep)
    exact hclosed.leave a

omit [DecidableEq A] in
/-- A weak pointer that can be locked points to an endpoint that is not deleted. -/
theorem deleted_of_lock {ep' : ℕ} {cache exceptionThrown : Bool}
    (h : (UserPc.ended ep k (!(s.endpoints ep).deleted) cache exceptionThrown).endpoint =
      some ep') : (s.endpoints ep').deleted = false := by
  have h : (if (!(s.endpoints ep).deleted) = true then some ep else none) = some ep' := h
  split at h
  · next halive =>
    rw [← Option.some.inj h]
    simpa using halive
  · exact absurd h (by simp)

theorem EndpointInv.step (h : EndpointInv s) (he : s.enabled doTls x) :
    EndpointInv (s.next maxConnPerEp x) := by
  match x with
  -- an endpoint that comes into the list is new, or was in it
  | .relist listed n =>
    refine ⟨h.emptied, h.held, fun ep hep => ?_, fun ep hep => ?_⟩
    · obtain hold | ⟨hmade, -⟩ := he ep hep
      · exact h.listed ep hold
      · exact h.unmade ep hmade
    · exact h.unmade ep ((Nat.le_add_right _ _).trans hep)
  | .choose a ep =>
    apply h.setPc
    intro ep' hep'
    rw [← Option.some.inj hep']
    exact h.listed ep he.2
  | .enter a ep now =>
    have ha : (s.pc a).endpoint = some ep := by
      obtain ha | ha := he
      · rw [ha]
        rfl
      · rw [ha]
        rfl
    exact h.enter ha now
  | .connects a ep =>
    have ha : s.pc a = .connecting ep := he
    have hconnected : EndpointInv { s with connected := s.connected + 1 } :=
      h.frame rfl (fun _ => rfl) (fun _ _ => rfl) h.held (fun _ hep => hep)
    exact hconnected.keep (.inl (by rw [show _ = UserPc.connecting ep from ha]; rfl))
  | .connectFails a ep =>
    have hlisted : EndpointInv { s with listed := s.listed.erase ep } :=
      h.frame rfl (fun _ => rfl) (fun _ _ => rfl) h.held (fun _ => List.mem_of_mem_erase)
    exact hlisted.leave a
  | .makesPipe a ep sock => exact h.keep (.inr rfl)
  | .handshakeFails a ep sock =>
    have hclosed : EndpointInv { s with closed := s.closed ++ [sock] } :=
      h.frame rfl (fun _ => rfl) (fun _ _ => rfl) h.held (fun _ hep => hep)
    exact hclosed.leave a
  | .returns a ep sock cache =>
    have hspent : EndpointInv { s with spent := if cache then s.spent else s.spent ++ [sock] } :=
      h.frame rfl (fun _ => rfl) (fun _ _ => rfl) h.held (fun _ hep => hep)
    exact hspent.setPc (fun ep' => deleted_of_lock)
  | .throws a ep sock =>
    have hspent : EndpointInv { s with spent := s.spent ++ [sock] } :=
      h.frame rfl (fun _ => rfl) (fun _ _ => rfl) h.held (fun _ hep => hep)
    exact hspent.setPc (fun ep' => deleted_of_lock)
  | .cleanup a ep sock alive cache exceptionThrown now => exact h.cleanup he now
  -- no call has a strong pointer to the endpoint, and it is not in the list
  | .delete ep =>
    have happly (ep' : ℕ) : (s.next maxConnPerEp (.delete ep)).endpoints ep' =
        if ep' = ep then { s.endpoints ep with socks := [], deleted := true }
        else s.endpoints ep' := Function.update_apply ..
    have hother (ep' : ℕ) (hne : ep' ≠ ep) (hdel : (s.endpoints ep').deleted = false) :
        ((s.next maxConnPerEp (.delete ep)).endpoints ep').deleted = false := by
      rw [happly, if_neg hne]
      exact hdel
    obtain ⟨hmade, hlisted, hheld⟩ := he
    refine ⟨fun ep' hdel => ?_, fun b ep' hep => ?_, fun ep' hep => ?_, fun ep' hep => ?_⟩
    · rw [happly] at hdel ⊢
      split at hdel
      · next heq => rw [if_pos heq]
      · next hne =>
        rw [if_neg hne]
        exact h.emptied ep' hdel
    · exact hother ep' (fun heq => hheld b (heq ▸ hep)) (h.held b ep' hep)
    · exact hother ep' (fun heq => hlisted (heq ▸ hep)) (h.listed ep' hep)
    · have hne : ep' ≠ ep := (lt_of_lt_of_le hmade hep).ne'
      exact hother ep' hne (h.unmade ep' hep)

/-! ## Sockets that are not used again -/

structure UseInv {A : Type} (s : Pool A) : Prop where
  returned : ∀ ep, ∀ e ∈ (s.endpoints ep).socks, s.lastReturn e.1 = e.2
  spent : ∀ k ∈ s.spent, k ∈ s.closed ∨
    ∃ a ep alive exceptionThrown, s.pc a = .ended ep k alive false exceptionThrown
  recent : ∀ e ∈ s.handouts, e.2 < kMaxIdleTime

omit [DecidableEq A] in
/-- Sockets leave queues and are closed, and no use ends. -/
theorem UseInv.frame (h : UseInv s)
    (hsocks : ∀ ep, ∀ e ∈ (t.endpoints ep).socks, e ∈ (s.endpoints ep).socks)
    (hreturn : t.lastReturn = s.lastReturn) (hspent : t.spent = s.spent)
    (hclosed : ∀ k ∈ s.closed, k ∈ t.closed)
    (hended : ∀ a ep k alive exceptionThrown, s.pc a = .ended ep k alive false exceptionThrown →
      t.pc a = .ended ep k alive false exceptionThrown)
    (hhandouts : t.handouts = s.handouts) : UseInv t where
  returned := by
    intro ep e he
    rw [hreturn]
    exact h.returned ep e (hsocks ep e he)
  spent := by
    intro k hk
    rw [hspent] at hk
    obtain hk | ⟨a, ep, alive, exceptionThrown, ha⟩ := h.spent k hk
    · exact .inl (hclosed k hk)
    · exact .inr ⟨a, ep, alive, exceptionThrown, hended _ _ _ _ _ ha⟩
  recent := by
    rw [hhandouts]
    exact h.recent

theorem UseInv.setPc (h : UseInv s) (pc : UserPc)
    (ha : ∀ ep k alive exceptionThrown, s.pc a ≠ .ended ep k alive false exceptionThrown) :
    UseInv (s.setPc a pc) := by
  refine h.frame (fun _ _ he => he) rfl rfl (fun _ hk => hk) ?_ rfl
  intro b ep k alive exceptionThrown hb
  rw [pc_setPc_apply, if_neg]
  · exact hb
  · intro heq
    rw [heq] at hb
    exact ha ep k alive exceptionThrown hb

theorem UseInv.enter (h : UseInv s)
    (ha : ∀ ep k alive exceptionThrown, s.pc a ≠ .ended ep k alive false exceptionThrown)
    (now : ℕ → ℤ) : UseInv (s.enter maxConnPerEp a ep now) := by
  unfold Pool.enter
  simp only
  split
  · exact h.setPc _ ha
  · split
    · exact h.setPc _ ha
    · have hdrop (dropped : List ℕ) : UseInv ({ s with
          closed := s.closed ++ dropped }.setEndpoint ep { s.endpoints ep with
            outstandingRequests := (s.endpoints ep).outstandingRequests + 1
            socks := (takeSock now (s.endpoints ep).socks).2.2 }) := by
        refine h.frame (fun ep' e he => ?_) rfl rfl (fun _ => List.mem_append_left _)
          (fun _ _ _ _ _ hb => hb) rfl
        have he : e ∈ (Function.update s.endpoints ep _ ep').socks := he
        rw [Function.update_apply] at he
        split at he
        · next heq =>
          rw [heq]
          exact mem_of_mem_takeSock he
        · exact he
      split
      · next sock time htaken =>
        have hhand : UseInv { ({ s with
            closed := s.closed ++ (takeSock now (s.endpoints ep).socks).1 }.setEndpoint ep
              { s.endpoints ep with
                outstandingRequests := (s.endpoints ep).outstandingRequests + 1
                socks := (takeSock now (s.endpoints ep).socks).2.2 }) with
            handouts := (sock, time - s.lastReturn sock) :: s.handouts } := by
          refine ⟨(hdrop _).returned, (hdrop _).spent, fun e he => ?_⟩
          obtain heq | hold := List.mem_cons.mp he
          -- the time in the queue is the time at which the last use ended
          · obtain ⟨idleStartTime, hmem, hlt⟩ := lt_of_takeSock htaken
            have hreturn := h.returned ep _ hmem
            have hreturn : s.lastReturn sock = idleStartTime := hreturn
            rw [heq]
            show time - s.lastReturn sock < kMaxIdleTime
            omega
          · exact h.recent e hold
        exact hhand.setPc _ ha
      · exact (hdrop _).setPc _ ha

/-- The end of a use, after which the socket may be declined. -/
theorem UseInv.ends (h : UseInv s)
    (ha : ∀ ep k alive exceptionThrown, s.pc a ≠ .ended ep k alive false exceptionThrown)
    (ep k : ℕ) (alive cache exceptionThrown : Bool) :
    UseInv ({ s with spent := if cache then s.spent else s.spent ++ [k] }.setPc a
      (.ended ep k alive cache exceptionThrown)) := by
  have hpc := h.setPc (.ended ep k alive cache exceptionThrown) ha
  refine ⟨hpc.returned, fun k' hk' => ?_, hpc.recent⟩
  have hk' : k' ∈ (if cache then s.spent else s.spent ++ [k]) := hk'
  -- a socket that is not to be cached is in the hands of the call until `cleanup`
  split at hk'
  · exact hpc.spent k' hk'
  · next hcache =>
    obtain hold | hnew := List.mem_append.mp hk'
    · exact hpc.spent k' hold
    · right
      refine ⟨a, ep, alive, exceptionThrown, ?_⟩
      rw [List.mem_singleton.mp hnew]
      refine (pc_setPc_apply ..).trans ((if_pos rfl).trans ?_)
      rw [Bool.eq_false_of_not_eq_true hcache]

omit [DecidableEq A] in
/-- A call lets go of its socket, which is closed unless it is cached. -/
theorem UseInv.release (h : UseInv s) {alive cache exceptionThrown : Bool}
    (ha : s.pc a = .ended ep k alive cache exceptionThrown)
    (hreturned : ∀ ep, ∀ e ∈ (t.endpoints ep).socks, t.lastReturn e.1 = e.2)
    (hspent : t.spent = s.spent) (hclosed : ∀ k' ∈ s.closed, k' ∈ t.closed)
    (hk : cache = false → k ∈ t.closed)
    (hended : ∀ b ep' k' alive' exceptionThrown', b ≠ a →
      s.pc b = .ended ep' k' alive' false exceptionThrown' →
        t.pc b = .ended ep' k' alive' false exceptionThrown')
    (hhandouts : t.handouts = s.handouts) : UseInv t where
  returned := hreturned
  spent := by
    intro k' hk'
    rw [hspent] at hk'
    obtain hk' | ⟨b, ep', alive', exceptionThrown', hb⟩ := h.spent k' hk'
    · exact .inl (hclosed k' hk')
    · by_cases heq : b = a
      -- the call was the one with this socket, and it has closed it
      · left
        rw [heq, ha] at hb
        injection hb with _ hsock _ hcache
        rw [← hsock]
        exact hk hcache
      · exact .inr ⟨b, ep', alive', exceptionThrown', hended b _ _ _ _ heq hb⟩
  recent := by
    rw [hhandouts]
    exact h.recent

theorem ended_setPc_notifyAll (s : Pool A) {b : A} {ep' : ℕ} {alive cache exceptionThrown : Bool}
    (hne : b ≠ a) (hb : s.pc b = .ended ep k alive cache exceptionThrown) :
    ((s.setPc a .outside).notifyAll ep').pc b = .ended ep k alive cache exceptionThrown := by
  have hkept : (s.setPc a .outside).pc b = .ended ep k alive cache exceptionThrown := by
    rw [pc_setPc_apply, if_neg hne]
    exact hb
  show (if (s.setPc a .outside).pc b = .asleep ep' then UserPc.notified ep'
    else (s.setPc a .outside).pc b) = _
  rw [hkept, if_neg (by simp)]

theorem UseInv.cleanup (h : UseInv s) (hplace : PlaceInv s) {alive cache exceptionThrown : Bool}
    (ha : s.pc a = .ended ep k alive cache exceptionThrown) (now : ℤ) :
    UseInv (s.cleanup a ep k alive cache exceptionThrown now) := by
  have hhands : (s.pc a).sock = some k := by
    rw [ha]
    rfl
  have hupdate (e : PoolEndpoint) (ep' : ℕ) : Function.update s.endpoints ep e ep' =
      if ep' = ep then e else s.endpoints ep' := Function.update_apply ..
  unfold Pool.cleanup
  simp only
  split
  · split
    · next hcache =>
      refine h.release ha (fun ep' e he => ?_) rfl (fun _ hk' => hk')
        (fun hnot => absurd (hcache.symm.trans hnot) (by simp))
        (fun b _ _ _ _ hne hb => ended_setPc_notifyAll _ hne hb) rfl
      have he : e ∈ (Function.update s.endpoints ep _ ep').socks := he
      rw [hupdate] at he
      show Function.update s.lastReturn k now e.1 = e.2
      have hkept (hmem : e ∈ (s.endpoints ep').socks) :
          Function.update s.lastReturn k now e.1 = e.2 := by
        -- a socket in a queue is not the one in the hands of the call
        have hne : e.1 ≠ k := by
          intro heq
          have hqueue : k ∈ s.queue ep' := List.mem_map.mpr ⟨e, hmem, heq⟩
          exact hplace.notMem_queue (.hands a) hhands (by simp) hqueue
        rw [Function.update_of_ne hne]
        exact h.returned ep' e hmem
      split at he
      · next hep =>
        obtain hold | hnew := List.mem_append.mp he
        · rw [← hep] at hold
          exact hkept hold
        · rw [List.mem_singleton.mp hnew]
          exact Function.update_self ..
      · exact hkept he
    · refine h.release ha (fun ep' e he => ?_) rfl (fun _ => List.mem_append_left _)
        (fun _ => List.mem_append_right _ (List.mem_singleton.mpr rfl))
        (fun b _ _ _ _ hne hb => ended_setPc_notifyAll _ hne hb) rfl
      have he : e ∈ (Function.update s.endpoints ep _ ep').socks := he
      rw [hupdate] at he
      split at he
      · exact h.returned ep e he
      · exact h.returned ep' e he
  · refine h.release ha h.returned rfl (fun _ => List.mem_append_left _)
      (fun _ => List.mem_append_right _ (List.mem_singleton.mpr rfl))
      (fun b ep' k' alive' exceptionThrown' hne hb => ?_) rfl
    rw [pc_setPc_apply, if_neg hne]
    exact hb

theorem UseInv.step (h : UseInv s) (hplace : PlaceInv s) (he : s.enabled doTls x) :
    UseInv (s.next maxConnPerEp x) := by
  match x with
  | .relist listed n =>
    exact h.frame (fun _ _ he => he) rfl rfl (fun _ hk => hk) (fun _ _ _ _ _ hb => hb) rfl
  | .choose a ep =>
    apply h.setPc
    rw [show s.pc a = .outside from he.1]
    simp
  | .enter a ep now =>
    apply h.enter
    obtain ha | ha := he
    · rw [ha]
      simp
    · rw [ha]
      simp
  | .connects a ep =>
    have hconnected : UseInv { s with connected := s.connected + 1 } :=
      h.frame (fun _ _ he => he) rfl rfl (fun _ hk => hk) (fun _ _ _ _ _ hb => hb) rfl
    apply hconnected.setPc
    rw [show _ = UserPc.connecting ep from he]
    simp
  | .connectFails a ep =>
    have hlisted : UseInv { s with listed := s.listed.erase ep } :=
      h.frame (fun _ _ he => he) rfl rfl (fun _ hk => hk) (fun _ _ _ _ _ hb => hb) rfl
    apply hlisted.setPc
    rw [show _ = UserPc.connecting ep from he]
    simp
  | .makesPipe a ep sock =>
    apply h.setPc
    rw [show s.pc a = .connected ep sock from he]
    simp
  | .handshakeFails a ep sock =>
    have hclosed : UseInv { s with closed := s.closed ++ [sock] } :=
      h.frame (fun _ _ he => he) rfl rfl (fun _ => List.mem_append_left _)
        (fun _ _ _ _ _ hb => hb) rfl
    apply hclosed.setPc
    rw [show _ = UserPc.connected ep sock from he.1]
    simp
  | .returns a ep sock cache =>
    apply h.ends
    rw [show s.pc a = .calling ep sock from he]
    simp
  | .throws a ep sock =>
    refine h.ends ?_ ep sock _ false true
    rw [show s.pc a = .calling ep sock from he]
    simp
  | .cleanup a ep sock alive cache exceptionThrown now => exact h.cleanup hplace he now
  | .delete ep =>
    refine h.frame (fun ep' e hmem => ?_) rfl rfl (fun _ => List.mem_append_left _)
      (fun _ _ _ _ _ hb => hb) rfl
    have hmem : e ∈ (Function.update s.endpoints ep _ ep').socks := hmem
    rw [Function.update_apply] at hmem
    split at hmem
    · exact absurd hmem (List.not_mem_nil)
    · exact hmem

/-! ## Every run -/

structure SocketInv {A : Type} (s : Pool A) : Prop where
  place : PlaceInv s
  endpoint : EndpointInv s
  use : UseInv s

theorem SocketInv.init : SocketInv (poolMachine A maxConnPerEp doTls).init where
  place := by
    refine ⟨fun k hk => absurd hk (Nat.not_lt_zero k), fun k p hat => ?_, fun _ => List.nodup_nil⟩
    match p with
    | .queue ep => exact absurd hat List.not_mem_nil
    | .hands a => exact absurd hat (by simp [Pool.At, poolMachine, UserPc.sock])
    | .closed => exact absurd hat List.not_mem_nil
  endpoint := ⟨fun _ _ => rfl, fun _ _ _ => rfl, fun _ _ => rfl, fun _ _ => rfl⟩
  use := by
    refine ⟨fun _ _ he => absurd he List.not_mem_nil, fun _ hk => absurd hk List.not_mem_nil, ?_⟩
    exact fun _ he => absurd he List.not_mem_nil

theorem SocketInv.step (h : SocketInv s) (he : s.enabled doTls x) :
    SocketInv (s.next maxConnPerEp x) where
  place := h.place.step he
  endpoint := h.endpoint.step he
  use := h.use.step h.place he

omit [DecidableEq A] in
theorem SocketInv.holds (h : SocketInv s) : SocketsHold s where
  exclusive := h.place.exclusive
  once := h.place.once
  existing := by
    intro ep hep
    show (s.endpoints ep).socks.map Prod.fst = []
    rw [h.endpoint.emptied ep hep]
    rfl
  spent := by
    intro k hk ep
    -- the socket is closed, or still in the hands of the call that has used it last
    obtain hclosed | ⟨a, ep', alive, exceptionThrown, ha⟩ := h.use.spent k hk
    · apply h.place.notMem_queue .closed hclosed
      simp
    · have hhands : s.At k (.hands a) := by
        show (s.pc a).sock = some k
        rw [ha]
        rfl
      apply h.place.notMem_queue (.hands a) hhands
      simp
  recent := h.use.recent

/-- In every run, whatever calls do, whichever endpoints come, fail and are deleted, and whatever
the clock says, the sockets are where they should be. -/
theorem socketsHold (hs : (poolMachine A maxConnPerEp doTls).Reachable Machine.anyStep s) :
    SocketsHold s := by
  have hinv : SocketInv s := by
    apply hs.invariant SocketInv.init
    intro s x h _ he
    exact h.step he
  exact hinv.holds

/-- A call connects a socket and puts it back; another call takes it, and throws. -/
def reuseRun : List (PoolAction Bool) :=
  [.relist [0] 1, .choose true 0, .enter true 0 (fun _ => 5), .connects true 0,
    .makesPipe true 0 0, .returns true 0 0 true, .cleanup true 0 0 true true false 7,
    .choose false 0, .enter false 0 (fun _ => 9), .throws false 0 0,
    .cleanup false 0 0 true false true 11, .delete 0]

theorem socketsHold_reused : ∃ s : Pool Bool, SocketsHold s ∧ s.spent = [0] ∧ s.closed = [0] := by
  obtain ⟨s, hs, hp⟩ := Machine.reachable_of_replay (M := poolMachine Bool 1 false)
    (C := Machine.anyStep) (l := reuseRun) (p := fun s => decide (s.spent = [0] ∧ s.closed = [0]))
    (by decide +kernel)
  exact ⟨s, socketsHold hs, of_decide_eq_true hp⟩

end Anon.Epc
