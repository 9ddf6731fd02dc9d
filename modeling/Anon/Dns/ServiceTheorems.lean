import Anon.Dns.GetAddrinfoTheorems
import Anon.Dns.Service

/-!
# Every caller is answered

* `Stand`: how far the answer to a call has come; `Stand.Fits`: what then holds of the variables of
  the caller.
* `Fits.proceed`, `Fits.run`: a step of the caller, and a step of the fiber.
* `Inv`: the invariant.
* `service_answers`: what the service is to do, it does in every run.
-/

namespace Anon.Dns.Service

open Epc (SockaddrIn6)

variable {s s' : ServiceState} {call : Call} {r : Reply} {id : ℕ}

/-! ## One call -/

/-- How far the answer to a call has come. -/
inductive Stand
  /-- The fiber has not locked the mutex. -/
  | waiting
  | locked
  | filled
  | notified
  /-- The fiber has unlocked it. -/
  | finished
  deriving DecidableEq

def ReplyPhase.stand : ReplyPhase → Stand
  | .started => .waiting
  | .locked => .locked
  | .filled => .filled
  | .notified => .notified

/-- The variables of the caller, before and after they are filled in. -/
structure Stand.Fits (stand : Stand) (call : Call) : Prop where
  done : call.done = true ↔ stand = .filled ∨ stand = .notified ∨ stand = .finished
  /-- One of the caller and the fiber has the mutex. -/
  locked : call.locked = true ↔
    call.phase = .testing ∨ stand = .locked ∨ stand = .filled ∨ stand = .notified
  excluded : call.phase = .testing → stand = .waiting ∨ stand = .finished
  sleeping : call.phase = .sleeping → stand ≠ .notified ∧ stand ≠ .finished
  returned : ∀ err addrs, call.phase = .returned err addrs →
    stand = .finished ∧ err = call.err ∧ addrs = call.addrs

theorem Stand.Fits.proceed {stand : Stand} (h : stand.Fits call)
    (hlocking : call.phase = .locking → call.locked = false) : stand.Fits call.proceed := by
  have hdone := h.done
  have hlocked := h.locked
  have hexcluded := h.excluded
  unfold Call.proceed
  split
  · next hphase =>
    -- the fiber does not have the mutex, either
    have hfree := hlocking hphase
    constructor
    · exact hdone
    · simp
    · intro _
      cases stand <;> simp_all
    · simp
    · simp
  · next hphase =>
    have hstand := hexcluded hphase
    constructor
    · exact hdone
    · cases hcall : call.done <;> rcases hstand with rfl | rfl <;> simp
    · cases hcall : call.done <;> simp
    · cases hcall : call.done <;> rcases hstand with rfl | rfl <;> simp_all
    · cases hcall : call.done <;> rcases hstand with rfl | rfl <;> simp_all
  · exact h

/-- The phase of the fiber after a step. -/
def ReplyPhase.next : ReplyPhase → Stand
  | .started => .locked
  | .locked => .filled
  | .filled => .notified
  | .notified => .finished

theorem Stand.Fits.run (h : r.phase.stand.Fits call)
    (hstarted : r.phase = .started → call.locked = false) :
    r.phase.next.Fits (r.run call).1 := by
  obtain ⟨hdone, hlocked, hexcluded, hsleeping, hreturned⟩ := h
  unfold Reply.run
  cases hphase : r.phase with
  | started =>
    have hfree := hstarted hphase
    constructor <;> simp_all [ReplyPhase.stand, ReplyPhase.next]
  | locked => constructor <;> simp_all [ReplyPhase.stand, ReplyPhase.next]
  | filled =>
    by_cases hsleep : call.phase = .sleeping
    · constructor <;> simp_all [ReplyPhase.stand, ReplyPhase.next]
    · constructor <;> simp_all [ReplyPhase.stand, ReplyPhase.next]
  | notified => constructor <;> simp_all [ReplyPhase.stand, ReplyPhase.next]

@[simp] theorem host_proceed (call : Call) : call.proceed.host = call.host := by
  unfold Call.proceed
  split <;> rfl

@[simp] theorem port_proceed (call : Call) : call.proceed.port = call.port := by
  unfold Call.proceed
  split <;> rfl

@[simp] theorem err_proceed (call : Call) : call.proceed.err = call.err := by
  unfold Call.proceed
  split <;> rfl

@[simp] theorem addrs_proceed (call : Call) : call.proceed.addrs = call.addrs := by
  unfold Call.proceed
  split <;> rfl

@[simp] theorem done_proceed (call : Call) : call.proceed.done = call.done := by
  unfold Call.proceed
  split <;> rfl

@[simp] theorem host_run (r : Reply) (call : Call) : (r.run call).1.host = call.host := by
  unfold Reply.run
  split <;> rfl

@[simp] theorem port_run (r : Reply) (call : Call) : (r.run call).1.port = call.port := by
  unfold Reply.run
  split <;> rfl

/-- What is left of the fiber. -/
theorem run_some (hphase : r.phase ≠ .notified) (call : Call) : ∃ r', (r.run call).2 = some r' ∧
    r'.id = r.id ∧ r'.err = r.err ∧ r'.addrs = r.addrs ∧ r'.phase.stand = r.phase.next := by
  unfold Reply.run
  split
  · next h => exact ⟨_, rfl, rfl, rfl, rfl, by rw [h]; rfl⟩
  · next h => exact ⟨_, rfl, rfl, rfl, rfl, by rw [h]; rfl⟩
  · next h => exact ⟨_, rfl, rfl, rfl, rfl, by rw [h]; rfl⟩
  · next h => exact absurd h hphase

theorem run_none (hphase : r.phase = .notified) (call : Call) : (r.run call).2 = none := by
  unfold Reply.run
  rw [hphase]

/-- What the fiber has filled in. -/
theorem run_done (h : call.done = true → call.err = r.err ∧ call.addrs = r.addrs)
    (hdone : (r.run call).1.done = true) :
    (r.run call).1.err = r.err ∧ (r.run call).1.addrs = r.addrs := by
  unfold Reply.run at hdone ⊢
  split at hdone
  · exact h hdone
  · exact ⟨rfl, rfl⟩
  · exact h hdone
  · exact h hdone

/-! ## The invariant -/

/-- An answer that `getaddrinfo` has given for a call. -/
def Says (s : ServiceState) (id : ℕ) (err : ℤ) (addrs : List SockaddrIn6) : Prop :=
  ∃ q ∈ s.queries, q.id = id ∧ err = q.err ∧
    List.Forall₂ (fun a b => a.same b = true) addrs q.found

/-- The call was made behind the end of the service. -/
def Behind (s : ServiceState) (x : Option ℕ) : Prop :=
  ∃ id k, x = some id ∧ s.stopped = some k ∧ k ≤ id

/-- The invariant. -/
structure Inv (s : ServiceState) : Prop where
  once : Distributed s.ids {id | id < s.made}
  stray : s.stray = []
  waiting : ∀ id, id ∈ s.ids .socket ∨ id ∈ s.ids .thread → Stand.waiting.Fits (s.calls id)
  replies : ∀ r ∈ s.replies, r.phase.stand.Fits (s.calls r.id) ∧ Says s r.id r.err r.addrs ∧
    ((s.calls r.id).done = true →
      (s.calls r.id).err = r.err ∧ (s.calls r.id).addrs = r.addrs)
  finished : ∀ id ∈ s.finished, Stand.finished.Fits (s.calls id) ∧
    Says s id (s.calls id).err (s.calls id).addrs
  queries : ∀ q ∈ s.queries, (q.id ∈ s.ids .fiber ∨ q.id ∈ s.ids .finished) ∧
    q.host = (s.calls q.id).host ∧ q.portString = portString (s.calls q.id).port
  queried : (s.queries.map Query.id).Nodup
  behind : ∀ l r, s.socket = l ++ none :: r → ∀ x ∈ r, Behind s x
  exited : s.thread = .exited → ∀ x ∈ s.socket, Behind s x
  running : s.stopped = none → none ∉ s.socket ∧ s.thread ≠ .exited
  bound : ∀ k, s.stopped = some k → k ≤ s.made

/-- Where a call is, and what holds of it. -/
theorem Inv.cases (h : Inv s) (hid : id < s.made) :
    (id ∈ s.ids .socket ∨ id ∈ s.ids .thread) ∨ (∃ r ∈ s.replies, r.id = id) ∨ id ∈ s.finished := by
  obtain ⟨stage, hstage⟩ := (h.once.mem_iff id).mpr hid
  cases stage with
  | socket => exact Or.inl (Or.inl hstage)
  | thread => exact Or.inl (Or.inr hstage)
  | fiber => exact Or.inr (Or.inl (List.mem_map.mp hstage))
  | finished => exact Or.inr (Or.inr hstage)

theorem Inv.fits (h : Inv s) (hid : id < s.made) : ∃ stand : Stand, stand.Fits (s.calls id) := by
  rcases h.cases hid with hid | ⟨r, hr, rfl⟩ | hid
  · exact ⟨.waiting, h.waiting id hid⟩
  · exact ⟨_, (h.replies r hr).1⟩
  · exact ⟨.finished, (h.finished id hid).1⟩

/-! ## Steps -/

theorem inv_proceed (h : Inv s) (hen : s.enabled (.proceed id)) : Inv (s.next (.proceed id)) := by
  obtain ⟨hid, hphase⟩ := hen
  have hlocking (hlock : (s.calls id).phase = .locking) : (s.calls id).locked = false := by
    rw [hlock] at hphase
    exact hphase
  have hcalls (n : ℕ) : (s.next (.proceed id)).calls n =
      if n = id then (s.calls n).proceed else s.calls n := by
    show Function.update s.calls id (s.calls id).proceed n = _
    rw [Function.update_apply]
    split
    · next hn => rw [hn]
    · rfl
  have hfits {stand : Stand} (n : ℕ) (hn : stand.Fits (s.calls n)) :
      stand.Fits ((s.next (.proceed id)).calls n) := by
    rw [hcalls]
    split
    · next hnid =>
      rw [hnid] at hn ⊢
      exact hn.proceed hlocking
    · exact hn
  have hvalues (n : ℕ) : ((s.next (.proceed id)).calls n).host = (s.calls n).host ∧
      ((s.next (.proceed id)).calls n).port = (s.calls n).port ∧
      ((s.next (.proceed id)).calls n).err = (s.calls n).err ∧
      ((s.next (.proceed id)).calls n).addrs = (s.calls n).addrs ∧
      ((s.next (.proceed id)).calls n).done = (s.calls n).done := by
    rw [hcalls]
    split <;> simp
  refine ⟨h.once, h.stray, fun n hn => hfits n (h.waiting n hn), fun r hr => ?_, fun n hn => ?_,
    fun q hq => ?_, h.queried, h.behind, h.exited, h.running, h.bound⟩
  · obtain ⟨hfit, hanswer, hdone⟩ := h.replies r hr
    obtain ⟨-, -, herr, haddrs, hsame⟩ := hvalues r.id
    refine ⟨hfits r.id hfit, hanswer, ?_⟩
    rw [hsame, herr, haddrs]
    exact hdone
  · obtain ⟨hfit, hanswer⟩ := h.finished n hn
    obtain ⟨-, -, herr, haddrs, -⟩ := hvalues n
    refine ⟨hfits n hfit, ?_⟩
    rw [herr, haddrs]
    exact hanswer
  · obtain ⟨hwhere, hhost, hport⟩ := h.queries q hq
    obtain ⟨hhost', hport', -⟩ := hvalues q.id
    refine ⟨hwhere, ?_⟩
    rw [hhost', hport']
    exact ⟨hhost, hport⟩

/-- The other fibers are for other calls. -/
theorem Inv.reply_ne (h : Inv s) (hr : r ∈ s.replies) {r' : Reply} (hr' : r' ∈ s.replies.erase r) :
    r'.id ≠ r.id := by
  have hnd : (r.id :: (s.replies.erase r).map Reply.id).Nodup :=
    ((List.perm_cons_erase hr).map Reply.id).nodup_iff.mp (h.once.nodup .fiber)
  intro heq
  apply (List.nodup_cons.mp hnd).1
  rw [← heq]
  exact List.mem_map_of_mem hr'

theorem inv_reply (h : Inv s) (hen : s.enabled (.reply r)) : Inv (s.next (.reply r)) := by
  obtain ⟨hr, hstarted⟩ := hen
  obtain ⟨hfit, hanswer, hdone⟩ := h.replies r hr
  have hfiber : r.id ∈ s.ids .fiber := List.mem_map_of_mem hr
  have hrun : r.phase.next.Fits (r.run (s.calls r.id)).1 := hfit.run hstarted
  have hcall : (s.answer r).calls r.id = (r.run (s.calls r.id)).1 := Function.update_self _ _ _
  have hother (n : ℕ) (hn : n ≠ r.id) : (s.answer r).calls n = s.calls n :=
    Function.update_of_ne hn _ _
  have hkept (n : ℕ) : ((s.answer r).calls n).host = (s.calls n).host ∧
      ((s.answer r).calls n).port = (s.calls n).port := by
    by_cases hn : n = r.id
    · rw [hn, hcall]
      exact ⟨host_run r _, port_run r _⟩
    · rw [hother n hn]
      exact ⟨rfl, rfl⟩
  have hstray : (s.answer r).stray = [] := by
    have hreturned : (s.calls r.id).phase.isReturned = false := by
      cases hphase : (s.calls r.id).phase with
      | returned err addrs =>
        have hstand := (hfit.returned err addrs hphase).1
        cases hreply : r.phase <;> rw [hreply] at hstand <;> cases hstand
      | _ => rfl
    show (if (s.calls r.id).phase.isReturned then r.id :: s.stray else s.stray) = []
    rw [hreturned, h.stray]
    rfl
  have hwaiting (n : ℕ) (hn : n ∈ s.ids .socket ∨ n ∈ s.ids .thread) :
      Stand.waiting.Fits ((s.answer r).calls n) := by
    have hne : n ≠ r.id := by
      rintro rfl
      rcases hn with hn | hn <;> exact absurd (h.once.unique _ _ _ hn hfiber) (by simp)
    rw [hother n hne]
    exact h.waiting n hn
  have hrest (r' : Reply) (hr' : r' ∈ s.replies.erase r) :
      r'.phase.stand.Fits ((s.answer r).calls r'.id) ∧ Says s r'.id r'.err r'.addrs ∧
        (((s.answer r).calls r'.id).done = true → ((s.answer r).calls r'.id).err = r'.err ∧
          ((s.answer r).calls r'.id).addrs = r'.addrs) := by
    rw [hother r'.id (h.reply_ne hr hr')]
    exact h.replies r' (List.mem_of_mem_erase hr')
  have hfinished (n : ℕ) (hn : n ∈ s.finished) :
      Stand.finished.Fits ((s.answer r).calls n) ∧
        Says s n ((s.answer r).calls n).err ((s.answer r).calls n).addrs := by
    have hne : n ≠ r.id := by
      rintro rfl
      exact absurd (h.once.unique .finished .fiber _ hn hfiber) (by simp)
    rw [hother n hne]
    exact h.finished n hn
  have hvalues := run_done hdone
  rw [← hcall] at hrun hvalues
  have hsplit : s.replies.Perm (r :: s.replies.erase r) := List.perm_cons_erase hr
  by_cases hphase : r.phase = .notified
  · have hnone := run_none hphase (s.calls r.id)
    have hreplies : (s.answer r).replies = s.replies.erase r := by
      show (r.run (s.calls r.id)).2.toList ++ _ = _
      rw [hnone]
      rfl
    have hend : (s.answer r).finished = r.id :: s.finished := by
      show (if (r.run (s.calls r.id)).2.isNone then _ else _) = _
      rw [hnone]
      rfl
    have hfrom : (s.ids .fiber).Perm (r.id :: (s.answer r).ids .fiber) := by
      rw [ServiceState.ids, ServiceState.ids, hreplies]
      exact hsplit.map Reply.id
    have hto : ((s.answer r).ids .finished).Perm (r.id :: s.ids .finished) := by
      rw [ServiceState.ids, hend]
      exact List.Perm.refl _
    have honce : Distributed (s.answer r).ids {id | id < s.made} := by
      apply h.once.move (by simp) hfrom hto
      intro k hk hk'
      cases k with
      | fiber => exact absurd rfl hk
      | finished => exact absurd rfl hk'
      | _ => rfl
    refine ⟨honce, hstray, hwaiting, fun r' hr' => ?_, fun n hn => ?_, fun q hq => ?_, h.queried,
      h.behind, h.exited, h.running, h.bound⟩
    · rw [ServiceState.next, hreplies] at hr'
      exact hrest r' hr'
    · rw [ServiceState.next, hend] at hn
      rcases List.mem_cons.mp hn with rfl | hn
      · rw [hphase] at hrun
        have hfilled : ((s.answer r).calls r.id).done = true :=
          hrun.done.mpr (Or.inr (Or.inr rfl))
        obtain ⟨herr, haddrs⟩ := hvalues hfilled
        refine ⟨hrun, ?_⟩
        rw [ServiceState.next, herr, haddrs]
        exact hanswer
      · exact hfinished n hn
    · obtain ⟨hwhere, hhost, hport⟩ := h.queries q hq
      refine ⟨?_, hhost.trans (hkept q.id).1.symm, hport.trans (by rw [← (hkept q.id).2]; rfl)⟩
      rcases hwhere with hwhere | hwhere
      · rcases List.mem_cons.mp (hfrom.mem_iff.mp hwhere) with hq' | hwhere
        · right
          rw [hq']
          exact hto.mem_iff.mpr List.mem_cons_self
        · exact Or.inl hwhere
      · exact Or.inr (hto.mem_iff.mpr (List.mem_cons_of_mem _ hwhere))
  · obtain ⟨r', hsome, hid, herr, haddrs, hstand⟩ := run_some hphase (s.calls r.id)
    have hreplies : (s.answer r).replies = r' :: s.replies.erase r := by
      show (r.run (s.calls r.id)).2.toList ++ _ = _
      rw [hsome]
      rfl
    have hend : (s.answer r).finished = s.finished := by
      show (if (r.run (s.calls r.id)).2.isNone then _ else _) = _
      rw [hsome]
      rfl
    have hperm (k : Stage) : ((s.answer r).ids k).Perm (s.ids k) := by
      cases k with
      | fiber =>
        rw [ServiceState.ids, ServiceState.ids, hreplies, List.map_cons, hid]
        exact (hsplit.map Reply.id).symm
      | finished =>
        rw [ServiceState.ids, hend]
        exact List.Perm.refl _
      | _ => exact List.Perm.refl _
    refine ⟨h.once.congr hperm, hstray, hwaiting, fun r'' hr'' => ?_, fun n hn => ?_,
      fun q hq => ?_, h.queried, h.behind, h.exited, h.running, h.bound⟩
    · rw [ServiceState.next, hreplies] at hr''
      rcases List.mem_cons.mp hr'' with rfl | hr''
      · rw [ServiceState.next, hid, hstand, herr, haddrs]
        exact ⟨hrun, hanswer, hvalues⟩
      · exact hrest r'' hr''
    · rw [ServiceState.next, hend] at hn
      exact hfinished n hn
    · obtain ⟨hwhere, hhost, hport⟩ := h.queries q hq
      refine ⟨?_, hhost.trans (hkept q.id).1.symm, hport.trans (by rw [← (hkept q.id).2]; rfl)⟩
      exact hwhere.imp (hperm .fiber).mem_iff.mpr (hperm .finished).mem_iff.mpr

theorem inv_getAddrinfo (h : Inv s) (host : Bytes) (port err : ℤ) :
    Inv (s.next (.getAddrinfo host port err)) := by
  have hbelow (stage : Stage) (n : ℕ) (hn : n ∈ s.ids stage) : n < s.made :=
    (h.once.mem_iff n).mp ⟨stage, hn⟩
  have hcalls (n : ℕ) (hn : n < s.made) :
      (s.next (.getAddrinfo host port err)).calls n = s.calls n :=
    Function.update_of_ne hn.ne _ _
  have hcall : (s.next (.getAddrinfo host port err)).calls s.made =
      ⟨host, port, err, [], false, false, .locking⟩ := Function.update_self _ _ _
  have hto : ((s.next (.getAddrinfo host port err)).ids .socket).Perm
      (s.made :: s.ids .socket) := by
    show ((s.socket ++ [some s.made]).reduceOption).Perm _
    rw [List.reduceOption_append]
    exact List.perm_append_singleton _ _
  have hrest (k : Stage) (hk : k ≠ .socket) :
      (s.next (.getAddrinfo host port err)).ids k = s.ids k := by
    cases k with
    | socket => exact absurd rfl hk
    | _ => rfl
  have hset : insert s.made {n | n < s.made} = {n | n < s.made + 1} := by
    ext n
    show n = s.made ∨ n < s.made ↔ n < s.made + 1
    omega
  have hbehind : ∀ x, Behind s x → Behind (s.next (.getAddrinfo host port err)) x := fun _ hx => hx
  have hnew (hstopped : s.stopped ≠ none) :
      Behind (s.next (.getAddrinfo host port err)) (some s.made) := by
    obtain ⟨k, hk⟩ := Option.ne_none_iff_exists'.mp hstopped
    exact ⟨s.made, k, rfl, hk, h.bound k hk⟩
  refine ⟨?_, h.stray, ?_, fun r hr => ?_, fun n hn => ?_, fun q hq => ?_, h.queried, ?_, ?_, ?_,
    ?_⟩
  · show Distributed _ {n | n < s.made + 1}
    rw [← hset]
    exact h.once.add (lt_irrefl s.made) hto hrest
  · intro n hn
    have hn' : n = s.made ∨ n ∈ s.ids .socket ∨ n ∈ s.ids .thread := by
      rcases hn with hn | hn
      · exact (List.mem_cons.mp (hto.mem_iff.mp hn)).imp_right Or.inl
      · exact Or.inr (Or.inr hn)
    rcases hn' with rfl | hn
    · rw [hcall]
      constructor <;> simp
    · rw [hcalls n (hn.elim (hbelow _ n) (hbelow _ n))]
      exact h.waiting n hn
  · rw [hcalls r.id (hbelow .fiber _ (List.mem_map_of_mem hr))]
    exact h.replies r hr
  · rw [hcalls n (hbelow .finished n hn)]
    exact h.finished n hn
  · obtain ⟨hwhere, hquery⟩ := h.queries q hq
    rw [hcalls q.id (hwhere.elim (hbelow _ _) (hbelow _ _))]
    exact ⟨hwhere, hquery⟩
  · intro l r hsocket x hx
    rcases List.eq_nil_or_concat r with rfl | ⟨r, y, rfl⟩
    · exact absurd hx List.not_mem_nil
    · have hsplit : s.socket ++ [some s.made] = (l ++ none :: r) ++ [y] := by
        have hconcat : r.concat y = r ++ [y] := List.concat_eq_append
        rw [List.append_assoc, List.cons_append, ← hconcat]
        exact hsocket
      obtain ⟨hsocket', hy⟩ := List.append_inj' hsplit rfl
      rw [List.concat_eq_append] at hx
      rcases List.mem_append.mp hx with hx | hx
      · exact hbehind x (h.behind l r hsocket' x hx)
      · rw [List.mem_singleton.mp hx, ← List.singleton_inj.mp hy]
        apply hnew
        intro hstopped
        apply (h.running hstopped).1
        rw [hsocket']
        exact List.mem_append_right _ List.mem_cons_self
  · intro hexited x hx
    rcases List.mem_append.mp hx with hx | hx
    · exact hbehind x (h.exited hexited x hx)
    · rw [List.mem_singleton.mp hx]
      exact hnew fun hstopped => (h.running hstopped).2 hexited
  · intro hstopped
    obtain ⟨hnone, hthread⟩ := h.running hstopped
    refine ⟨fun hmem => ?_, hthread⟩
    rcases List.mem_append.mp hmem with hmem | hmem
    · exact hnone hmem
    · exact absurd (List.mem_singleton.mp hmem) (by simp)
  · intro k hk
    exact Nat.le_succ_of_le (h.bound k hk)

theorem inv_readCommand (h : Inv s) (hen : s.enabled .readCommand) :
    Inv (s.next .readCommand) := by
  obtain ⟨hreading, hnonempty⟩ := hen
  have hthread : s.ids .thread = [] := by simp only [ServiceState.ids, hreading]
  obtain ⟨x, socket, hsocket⟩ := List.exists_cons_of_ne_nil hnonempty
  have hbehind (l r : List (Option ℕ)) (hr : socket = l ++ none :: r) (y : Option ℕ) (hy : y ∈ r) :
      Behind s y := by
    apply h.behind (x :: l) r _ y hy
    rw [hsocket, hr]
    rfl
  have hrunning (hstopped : s.stopped = none) : none ∉ x :: socket := by
    rw [← hsocket]
    exact (h.running hstopped).1
  unfold ServiceState.next
  dsimp only
  rw [hsocket]
  cases x with
  | none =>
    dsimp only
    generalize hs' : ServiceState.mk _ _ _ _ _ _ _ _ _ _ = s'
    have hids : s'.ids = s.ids := by
      subst hs'
      funext stage
      cases stage with
      | socket => simp [ServiceState.ids, hsocket]
      | thread => exact hthread.symm
      | _ => rfl
    have hlast (y : Option ℕ) (hy : y ∈ socket) : Behind s y := h.behind [] socket hsocket y hy
    refine ⟨?_, ?_, ?_, ?_, ?_, ?_, ?_, ?_, ?_, ?_, ?_⟩
    · rw [hids, ← hs']
      exact h.once
    · rw [← hs']
      exact h.stray
    · rw [hids, ← hs']
      exact h.waiting
    · rw [← hs']
      exact h.replies
    · rw [← hs']
      exact h.finished
    · rw [hids, ← hs']
      exact h.queries
    · rw [← hs']
      exact h.queried
    · rw [← hs']
      exact hbehind
    · rw [← hs']
      exact fun _ => hlast
    · intro hstopped
      rw [← hs'] at hstopped
      exact absurd List.mem_cons_self (hrunning hstopped)
    · rw [← hs']
      exact h.bound
  | some id =>
    dsimp only
    generalize hs' : ServiceState.mk _ _ _ _ _ _ _ _ _ _ = s'
    have hfrom : (s.ids .socket).Perm (id :: s'.ids .socket) := by
      rw [← hs', ServiceState.ids, hsocket]
      exact List.Perm.refl _
    have hto : (s'.ids .thread).Perm (id :: s.ids .thread) := by
      rw [hthread, ← hs']
      exact List.Perm.refl _
    have hrest (k : Stage) (hk : k ≠ .socket) (hk' : k ≠ .thread) : s'.ids k = s.ids k := by
      rw [← hs']
      cases k with
      | socket => exact absurd rfl hk
      | thread => exact absurd rfl hk'
      | _ => rfl
    have honce := h.once.move (by simp) hfrom hto hrest
    have hid : id ∈ s.ids .socket := hfrom.mem_iff.mpr List.mem_cons_self
    refine ⟨?_, ?_, fun n hn => ?_, ?_, ?_, ?_, ?_, ?_, ?_, ?_, ?_⟩
    · rw [← hs'] at honce ⊢
      exact honce
    · rw [← hs']
      exact h.stray
    · have hn' : n ∈ s.ids .socket := by
        rcases hn with hn | hn
        · exact hfrom.mem_iff.mpr (List.mem_cons_of_mem _ hn)
        · rw [← hs'] at hn
          rw [List.mem_singleton.mp hn]
          exact hid
      rw [← hs']
      exact h.waiting n (Or.inl hn')
    · rw [← hs']
      exact h.replies
    · rw [← hs']
      exact h.finished
    · rw [← hs']
      exact h.queries
    · rw [← hs']
      exact h.queried
    · rw [← hs']
      exact hbehind
    · rw [← hs']
      exact fun hexited => absurd hexited (by simp)
    · intro hstopped
      rw [← hs'] at hstopped ⊢
      exact ⟨fun hmem => hrunning hstopped (List.mem_cons_of_mem _ hmem), by simp⟩
    · rw [← hs']
      exact h.bound

/-- A copied address is the same address. -/
theorem same_memcpy_source (addr source : SockaddrIn6) :
    (memcpy addr source (addrlenOf source)).same source = true := by
  refine (same_of_bytes fun i hi hlt => ?_).1
  simp only [memcpy, Vector.getElem_ofFn]
  rw [if_pos hlt]
  rfl

theorem inv_resolve (h : Inv s) (hen : s.thread = .resolving id) (err : ℤ)
    (result : List (SockaddrIn6 × SockaddrIn6)) : Inv (s.next (.resolve err result)) := by
  have hthread : s.ids .thread = [id] := by simp only [ServiceState.ids, hen]
  have hid : id ∈ s.ids .thread := by
    rw [hthread]
    exact List.mem_singleton_self id
  have hfit : Stand.waiting.Fits (s.calls id) := h.waiting id (Or.inr hid)
  have hundone : (s.calls id).done ≠ true := by
    rw [Ne, hfit.done]
    simp
  have hsame : List.Forall₂ (fun a b => a.same b = true)
      ((if err = 0 then result else []).map fun x => memcpy x.2 x.1 (addrlenOf x.1))
      ((if err = 0 then result else []).map Prod.fst) := by
    rw [List.forall₂_map_left_iff, List.forall₂_map_right_iff, List.forall₂_same]
    exact fun x _ => same_memcpy_source x.2 x.1
  unfold ServiceState.next
  dsimp only
  rw [hen]
  dsimp only
  generalize hs' : ServiceState.mk _ _ _ _ _ _ _ _ _ _ = s'
  have hfrom : (s.ids .thread).Perm (id :: s'.ids .thread) := by
    rw [hthread, ← hs']
    exact List.Perm.refl _
  have hto : (s'.ids .fiber).Perm (id :: s.ids .fiber) := by
    rw [← hs']
    exact List.Perm.refl _
  have hrest (k : Stage) (hk : k ≠ .thread) (hk' : k ≠ .fiber) : s'.ids k = s.ids k := by
    rw [← hs']
    cases k with
    | thread => exact absurd rfl hk
    | fiber => exact absurd rfl hk'
    | _ => rfl
  have honce := h.once.move (by simp) hfrom hto hrest
  have hcalls : s'.calls = s.calls := by rw [← hs']
  have hanswer (n : ℕ) (e : ℤ) (addrs : List SockaddrIn6) (hanswer : Says s n e addrs) :
      Says s' n e addrs := by
    obtain ⟨q, hq, hquery⟩ := hanswer
    rw [← hs']
    exact ⟨q, List.mem_cons_of_mem _ hq, hquery⟩
  refine ⟨?_, ?_, fun n hn => ?_, fun r hr => ?_, fun n hn => ?_, fun q hq => ?_, ?_, ?_, ?_, ?_,
    ?_⟩
  · rw [← hs'] at honce ⊢
    exact honce
  · rw [← hs']
    exact h.stray
  · rw [hcalls]
    rcases hn with hn | hn
    · rw [← hs'] at hn
      exact h.waiting n (Or.inl hn)
    · exact h.waiting n (Or.inr (hfrom.mem_iff.mpr (List.mem_cons_of_mem _ hn)))
  · rw [hcalls]
    rw [← hs'] at hr
    rcases List.mem_cons.mp hr with rfl | hr
    · refine ⟨hfit, ?_, fun hdone => absurd hdone hundone⟩
      rw [← hs']
      exact ⟨_, List.mem_cons_self, rfl, rfl, hsame⟩
    · obtain ⟨hfits, hsaid, hvalues⟩ := h.replies r hr
      exact ⟨hfits, hanswer _ _ _ hsaid, hvalues⟩
  · rw [hcalls]
    rw [← hs'] at hn
    obtain ⟨hfits, hsaid⟩ := h.finished n hn
    exact ⟨hfits, hanswer _ _ _ hsaid⟩
  · rw [hcalls]
    rw [← hs'] at hq
    rcases List.mem_cons.mp hq with rfl | hq
    · exact ⟨Or.inl (hto.mem_iff.mpr List.mem_cons_self), rfl, rfl⟩
    · obtain ⟨hwhere, hquery⟩ := h.queries q hq
      refine ⟨?_, hquery⟩
      rw [hrest .finished (by simp) (by simp)]
      exact hwhere.imp_left fun hq => hto.mem_iff.mpr (List.mem_cons_of_mem _ hq)
  · rw [← hs', List.map_cons, List.nodup_cons]
    refine ⟨fun hmem => ?_, h.queried⟩
    obtain ⟨q, hq, hqid⟩ := List.mem_map.mp hmem
    obtain ⟨hwhere, -⟩ := h.queries q hq
    rw [hqid] at hwhere
    rcases hwhere with hwhere | hwhere
    · exact absurd (h.once.unique _ _ _ hid hwhere) (by simp)
    · exact absurd (h.once.unique _ _ _ hid hwhere) (by simp)
  · rw [← hs']
    exact h.behind
  · rw [← hs']
    exact fun hexited => absurd hexited (by simp)
  · rw [← hs']
    exact fun hstopped => ⟨(h.running hstopped).1, by simp⟩
  · rw [← hs']
    exact h.bound

theorem inv_stopThread (h : Inv s) (hen : s.stopped = none) : Inv (s.next .stopThread) := by
  obtain ⟨hnone, hthread⟩ := h.running hen
  have hids : (s.next .stopThread).ids = s.ids := by
    funext stage
    cases stage with
    | socket =>
      show ((s.socket ++ [none]).reduceOption) = _
      rw [List.reduceOption_append]
      exact List.append_nil _
    | _ => rfl
  refine ⟨?_, h.stray, ?_, h.replies, h.finished, ?_, h.queried, ?_, ?_, ?_, ?_⟩
  · rw [hids]
    exact h.once
  · rw [hids]
    exact h.waiting
  · rw [hids]
    exact h.queries
  · intro l r hsocket x hx
    rcases List.eq_nil_or_concat r with rfl | ⟨r, y, rfl⟩
    · exact absurd hx List.not_mem_nil
    · have hsplit : s.socket ++ [none] = (l ++ none :: r) ++ [y] := by
        have hconcat : r.concat y = r ++ [y] := List.concat_eq_append
        rw [List.append_assoc, List.cons_append, ← hconcat]
        exact hsocket
      obtain ⟨hsocket', -⟩ := List.append_inj' hsplit rfl
      rw [hsocket'] at hnone
      exact absurd (List.mem_append_right _ List.mem_cons_self) hnone
  · exact fun hexited => absurd hexited hthread
  · exact fun hstopped => absurd hstopped (Option.some_ne_none s.made)
  · intro k hk
    exact (Option.some.inj hk).ge

theorem inv_next {x : ServiceAction} (h : Inv s) (hen : s.enabled x) : Inv (s.next x) := by
  cases x with
  | getAddrinfo host port err => exact inv_getAddrinfo h host port err
  | readCommand => exact inv_readCommand h hen
  | resolve err result =>
    simp only [ServiceState.enabled] at hen
    split at hen
    · next hthread => exact inv_resolve h hthread err result
    · exact absurd hen id
  | reply r => exact inv_reply h hen
  | proceed id => exact inv_proceed h hen
  | stopThread => exact inv_stopThread h hen.2
  | reset =>
    exact ⟨h.once, h.stray, h.waiting, h.replies, h.finished, h.queries, h.queried, h.behind,
      h.exited, h.running, h.bound⟩

theorem inv_init : Inv serviceMachine.init := by
  have hids (k : Stage) : serviceMachine.init.ids k = [] := by cases k <;> rfl
  refine ⟨⟨⟨?_, ?_⟩, ?_⟩, rfl, ?_, ?_, ?_, ?_, List.nodup_nil, ?_, ?_, ?_, ?_⟩
  · exact fun k => by rw [hids]; exact List.nodup_nil
  · exact fun k l i hi => absurd hi (by rw [hids]; exact List.not_mem_nil)
  · refine fun i => iff_of_false ?_ (Nat.not_lt_zero i)
    rintro ⟨k, hi⟩
    rw [hids] at hi
    exact List.not_mem_nil hi
  · rintro n (hn | hn) <;> exact absurd hn List.not_mem_nil
  · exact fun r hr => absurd hr List.not_mem_nil
  · exact fun n hn => absurd hn List.not_mem_nil
  · exact fun q hq => absurd hq List.not_mem_nil
  · intro l r hsocket
    exact absurd hsocket.symm (by simp [serviceMachine])
  · exact fun _ x hx => absurd hx List.not_mem_nil
  · exact fun _ => ⟨List.not_mem_nil, by simp [serviceMachine]⟩
  · exact fun k hk => absurd hk (by simp [serviceMachine])

/-! ## Runs -/

theorem Inv.returned (h : Inv s) {err : ℤ} {addrs : List SockaddrIn6} (hid : id < s.made)
    (hphase : (s.calls id).phase = .returned err addrs) :
    Says s id err addrs := by
  rcases h.cases hid with hid | ⟨r, hr, rfl⟩ | hid
  · have hstand := ((h.waiting id hid).returned err addrs hphase).1
    cases hstand
  · have hstand := ((h.replies r hr).1.returned err addrs hphase).1
    cases hreply : r.phase <;> rw [hreply] at hstand <;> cases hstand
  · obtain ⟨hfit, hanswer⟩ := h.finished id hid
    obtain ⟨-, rfl, rfl⟩ := hfit.returned err addrs hphase
    exact hanswer

/-- A call whose lambda has run goes on, or has returned. -/
theorem Inv.returned_of_finished (h : Inv s) (hrest : s.AtRest) (hid : id ∈ s.finished) :
    (s.calls id).phase.isReturned = true := by
  obtain ⟨hfit, -⟩ := h.finished id hid
  have hmade : id < s.made := (h.once.mem_iff id).mp ⟨.finished, hid⟩
  have hstill (hen : s.enabled (.proceed id)) : False := hrest _ hen
  cases hphase : (s.calls id).phase with
  | locking =>
    refine absurd ⟨hmade, ?_⟩ hstill
    rw [hphase]
    -- the caller does not have the mutex, and the fiber has unlocked it
    have hlocked := hfit.locked
    rw [hphase] at hlocked
    simpa using hlocked
  | testing =>
    refine absurd ⟨hmade, ?_⟩ hstill
    rw [hphase]
    exact trivial
  | sleeping => exact absurd rfl (hfit.sleeping hphase).2
  | returned err addrs => rfl

theorem Inv.rest (h : Inv s) (hrest : s.AtRest) (hid : id < s.stopped.getD s.made) :
    (s.calls id).phase.isReturned = true := by
  have hmade : id < s.made := by
    cases hstopped : s.stopped with
    | none =>
      rw [hstopped] at hid
      exact hid
    | some k =>
      rw [hstopped] at hid
      exact lt_of_lt_of_le hid (h.bound k hstopped)
  rcases h.cases hmade with (hsocket | hthread) | ⟨r, hr, rfl⟩ | hfinished
  · have hmem : some id ∈ s.socket := List.reduceOption_mem_iff.mp hsocket
    cases hthread : s.thread with
    | reading => exact False.elim (hrest .readCommand ⟨hthread, List.ne_nil_of_mem hmem⟩)
    | resolving n =>
      have hen : s.enabled (.resolve 0 []) := by simp only [ServiceState.enabled, hthread]
      exact False.elim (hrest _ hen)
    | exited =>
      obtain ⟨n, k, hn, hk, hle⟩ := h.exited hthread _ hmem
      rw [hk, Option.some.inj hn] at hid
      exact absurd hle (not_le.mpr hid)
  · have hen : s.enabled (.resolve 0 []) := by
      simp only [ServiceState.ids, ServiceState.enabled] at hthread ⊢
      split at hthread
      · trivial
      · exact absurd hthread List.not_mem_nil
    exact False.elim (hrest _ hen)
  · -- a fiber waits for the mutex only if the caller has it
    cases hlocked : (s.calls r.id).locked with
    | false => exact False.elim (hrest (.reply r) ⟨hr, fun _ => hlocked⟩)
    | true =>
      by_cases hstarted : r.phase = .started
      · have hfit := (h.replies r hr).1
        rw [hstarted] at hfit
        have htesting : (s.calls r.id).phase = .testing := by
          rcases hfit.locked.mp hlocked with htesting | hstand | hstand | hstand
          · exact htesting
          all_goals cases hstand
        have hen : s.enabled (.proceed r.id) := by
          refine ⟨hmade, ?_⟩
          rw [htesting]
          exact trivial
        exact False.elim (hrest _ hen)
      · exact False.elim (hrest (.reply r) ⟨hr, fun hno => absurd hno hstarted⟩)
  · exact h.returned_of_finished hrest hfinished

/-- In every run, a call of `get_addrinfo` returns what `getaddrinfo` has returned for it, after the
one fiber that uses its variables; and when nothing is left to happen, all calls have returned that
were made before the end of the service. -/
theorem service_answers (hs : serviceMachine.Reachable Machine.anyStep s) : s.Answers := by
  have hinv : Inv s := by
    apply Machine.Reachable.invariant _ _ hs
    · exact inv_init
    · exact fun s x h _ hen => inv_next h hen
  refine ⟨fun id err addrs hid hphase => ?_, hinv.queried, hinv.once, hinv.stray,
    fun hrest id hid => hinv.rest hrest hid⟩
  obtain ⟨q, hq, rfl, herr, hsame⟩ := hinv.returned hid hphase
  obtain ⟨-, hhost, hport⟩ := hinv.queries q hq
  exact ⟨q, hq, rfl, hhost, hport, herr, hsame⟩

/-- The first of two calls tests its variable before, the second one after the answer; a third call
comes after the end of the service. -/
theorem service_answers_three : ∃ s : ServiceState,
    ((s.calls 0).phase = .returned (-2) [] ∧ (s.calls 1).phase.isReturned = true ∧
      (s.calls 2).phase = .sleeping ∧ s.thread = .exited) ∧ s.Answers := by
  let addr (b : UInt8) : SockaddrIn6 := ⟨Vector.replicate 28 b⟩
  let copied : SockaddrIn6 := memcpy (addr 1) (addr 2) 16
  have hreplay : (serviceMachine.replay Machine.anyStep
      [.getAddrinfo [104] 80 7, .proceed 0, .proceed 0, .getAddrinfo [105] 443 8, .stopThread,
        .getAddrinfo [106] 443 9, .proceed 2, .proceed 2, .readCommand, .resolve (-2) [],
        .reply ⟨0, -2, [], .started⟩, .readCommand, .reply ⟨0, -2, [], .locked⟩,
        .resolve 0 [(addr 2, addr 1)], .reply ⟨0, -2, [], .filled⟩, .reply ⟨0, -2, [], .notified⟩,
        .proceed 0, .proceed 0, .reply ⟨1, 0, [copied], .started⟩,
        .reply ⟨1, 0, [copied], .locked⟩, .reply ⟨1, 0, [copied], .filled⟩,
        .reply ⟨1, 0, [copied], .notified⟩, .proceed 1, .proceed 1, .readCommand]
      serviceMachine.init).any (fun s => decide
        ((s.calls 0).phase = .returned (-2) [] ∧ (s.calls 1).phase.isReturned = true ∧
          (s.calls 2).phase = .sleeping ∧ s.thread = .exited)) = true := by
    decide +kernel
  obtain ⟨s, hs, hp⟩ := Machine.reachable_of_replay hreplay
  exact ⟨s, of_decide_eq_true hp, service_answers hs⟩

end Anon.Dns.Service
