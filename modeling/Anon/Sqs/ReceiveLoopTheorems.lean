import Anon.Sqs.ListenerTheorems
import Anon.Sqs.ReceiveLoop

/-!
# The listener goes on listening

* `Bookkeeping`: `_num_fibers` is the number of the fibers of messages, and with one message at a
  time something is always there that leads to the next request.
* `KeepsListening`: the steps that keep it so.
* `MessageFiber.after`, `fiberStep_fibers`: what the step of a fiber does to the fibers.
* `Kept`: the invariant, about the fibers that will listen again.
* `bookkeeping`: the runs whose steps all keep it so.
-/

namespace Anon.Sqs

variable {kind : HandlerKind} {single : Bool} {s : ReceiveLoop} {l l' : Listener}
  {f f' : MessageFiber} {a : FiberAction} {r : Bytes} {n : ℤ}

/-! ## What is promised -/

/-- The fiber has not come to an end. -/
def MessageFiber.Alive (f : MessageFiber) : Prop := f.pc ≠ .done ∧ f.pc ≠ .escaped

/-- There are `n` fibers of messages. -/
def Listener.AliveCount (l : Listener) (n : ℤ) : Prop :=
  ∃ alive : Finset Bytes, (∀ r, r ∈ alive ↔ ∃ f ∈ l.fibers r, f.Alive) ∧ n = alive.card

/-- The message is being processed, by its fiber or by whoever the handler has left it to. -/
def MessageFiber.Processing (f : MessageFiber) : Prop :=
  f.Alive ∨ f.accepted = true ∧ f.called = false

/-- A request has not been answered, or its callback has failed or found no messages and has not
come to the end; or a fiber will listen again; or a message is being processed. -/
def ReceiveLoop.Listening (s : ReceiveLoop) : Prop :=
  0 < s.receiving ∨ (∃ c ∈ s.callbacks, c = .failed ∨ c = .received 0) ∨ 0 < s.stalled ∨
    0 < s.restarting ∨ ∃ r, ∃ f ∈ s.listener.fibers r, f.Processing

structure Bookkeeping (single : Bool) (s : ReceiveLoop) : Prop where
  count : s.listener.AliveCount s.listener.numFibers
  listening : single = true → s.exitNow = false → s.consecutiveErrors < consecutiveErrorsLimit →
    s.Listening

/-- A message that is sent again is taken by SQS. -/
def FiberAction.Sent : FiberAction → Prop
  | .resend sent => sent = true
  | _ => True

/-- A handler of the first kind does not throw; one that was given the callback has called it before
it throws or does not accept the message. -/
def MessageFiber.EndsWell (kind : HandlerKind) (f : MessageFiber) : FiberAction → Prop
  | .handlerThrows _ => kind = .processMsgDel ∧ f.called = true
  | .handlerReturns success => kind = .processMsgDel → success = false → f.called = true
  | _ => True

/-- No fiber of a message starts after the listener was released, sending a message again does not
throw, and while the listener processes one message at a time and no exit was requested, handlers
end well. -/
def KeepsListening (kind : HandlerKind) (single : Bool) (s : ReceiveLoop) : ReceiveAction → Prop
  | .abandon _ => False
  | .message receipt a =>
    a.Sent ∧ (single = true → s.exitNow = false →
      ∀ f ∈ s.listener.fibers receipt, f.EndsWell kind a)
  | _ => True

/-! ## The step of a fiber -/

/-- The fiber after a step. -/
def MessageFiber.after (kind : HandlerKind) (f : MessageFiber) : FiberAction → MessageFiber
  | .addToKeepAlive => { f with pc := .handler }
  | .handlerReturns success =>
    { f with pc := .returned success, accepted := success && decide (kind = .processMsgDel) }
  | .handlerThrows exc =>
    { f with pc := if exc = .awsThrottleError then .throttled else .finish }
  | .afterHandler => { f with pc := .finish }
  | .resend sent => { f with pc := if sent then .finish else .escaped }
  | .finish => { f with pc := .done }
  | .del _ _ => { f with called := true }

theorem afterHandler_fibers (kind : HandlerKind) (l : Listener) (f : MessageFiber) :
    (l.afterHandler kind f).fibers =
        Function.update l.fibers f.msg.receiptHandle (some { f with pc := .finish }) ∧
      (l.afterHandler kind f).numFibers = l.numFibers := by
  unfold Listener.afterHandler
  simp only
  by_cases hsuccess : f.pc = .returned true
  · rw [if_neg (not_not.mpr hsuccess)]
    cases kind with
    | processMsg => exact ⟨rfl, rfl⟩
    | processMsgDel => exact ⟨rfl, rfl⟩
  · rw [if_pos hsuccess]
    exact ⟨rfl, rfl⟩

/-- A step of a fiber changes no other fiber. -/
theorem fiberStep_fibers (kind : HandlerKind) (l : Listener) (f : MessageFiber) (a : FiberAction) :
    (l.fiberStep kind f a).fibers =
      Function.update l.fibers f.msg.receiptHandle (some (f.after kind a)) := by
  cases a with
  | addToKeepAlive => rfl
  | handlerReturns success => rfl
  | handlerThrows exc => rfl
  | finish => rfl
  | afterHandler => exact (afterHandler_fibers kind l f).1
  | resend sent =>
    cases sent with
    | true => rfl
    | false => rfl
  | del deleteIt timeout =>
    cases deleteIt with
    | true => rfl
    | false => rfl

/-- Only the end of a fiber is counted. -/
theorem fiberStep_numFibers (ha : a ≠ .finish) :
    (l.fiberStep kind f a).numFibers = l.numFibers := by
  cases a with
  | addToKeepAlive => rfl
  | handlerReturns success => rfl
  | handlerThrows exc => rfl
  | finish => exact absurd rfl ha
  | afterHandler => exact (afterHandler_fibers kind l f).2
  | resend sent =>
    cases sent with
    | true => rfl
    | false => rfl
  | del deleteIt timeout =>
    cases deleteIt with
    | true => rfl
    | false => rfl

theorem MessageFiber.after_msg (kind : HandlerKind) (f : MessageFiber) (a : FiberAction) :
    (f.after kind a).msg = f.msg := by
  cases a with
  | addToKeepAlive | handlerReturns success | handlerThrows exc | afterHandler | resend sent
  | finish | del deleteIt timeout =>
    rfl

/-- A step other than the last one leaves a fiber alive; the callback does not need it to be. -/
theorem MessageFiber.alive_after_iff (hstep : f.canStep kind a) (hsent : a.Sent)
    (ha : a ≠ .finish) : (f.after kind a).Alive ↔ f.Alive := by
  unfold MessageFiber.Alive MessageFiber.after
  cases a with
  | addToKeepAlive =>
    have hpc : f.pc = .start := hstep
    simp [hpc]
  | handlerReturns success =>
    have hpc : f.pc = .handler := hstep
    simp [hpc]
  | handlerThrows exc =>
    have hpc : f.pc = .handler := hstep
    by_cases hexc : exc = .awsThrottleError
    · simp [hpc, hexc]
    · simp [hpc, hexc]
  | afterHandler =>
    rcases hstep with hpc | hpc
    · simp [hpc]
    · simp [hpc]
  | resend sent =>
    have hpc : f.pc = .throttled := hstep
    have hsent : sent = true := hsent
    simp [hpc, hsent]
  | finish => exact absurd rfl ha
  | del deleteIt timeout => exact Iff.rfl

/-! ## Counting the fibers -/

/-- Where the same fibers are alive, there are as many. -/
theorem Listener.AliveCount.congr (h : l.AliveCount n)
    (hsame : ∀ r, (∃ f ∈ l'.fibers r, f.Alive) ↔ ∃ f ∈ l.fibers r, f.Alive) : l'.AliveCount n := by
  obtain ⟨alive, halive, hn⟩ := h
  refine ⟨alive, fun r => ?_, hn⟩
  rw [hsame, halive]

/-- A fiber is replaced by its next state. -/
theorem exists_alive_update (hfibers : l'.fibers = Function.update l.fibers r (some f'))
    (r' : Bytes) :
    (∃ g ∈ l'.fibers r', g.Alive) ↔ if r' = r then f'.Alive else ∃ g ∈ l.fibers r', g.Alive := by
  rw [hfibers]
  by_cases hr : r' = r
  · rw [if_pos hr, hr, Function.update_self]
    simp
  · rw [if_neg hr, Function.update_of_ne hr]

/-- A fiber goes on. -/
theorem Listener.AliveCount.move (h : l.AliveCount n) (hf : f ∈ l.fibers r)
    (hfibers : l'.fibers = Function.update l.fibers r (some f')) (halive : f'.Alive ↔ f.Alive) :
    l'.AliveCount n := by
  apply h.congr
  intro r'
  rw [exists_alive_update hfibers]
  split
  · next hr =>
    rw [halive, hr]
    refine ⟨fun hf' => ⟨f, hf, hf'⟩, ?_⟩
    rintro ⟨g, hg, hgalive⟩
    rwa [Option.some.inj (hf.symm.trans hg)]
  · rfl

/-- A fiber comes to its end. -/
theorem Listener.AliveCount.leave (h : l.AliveCount n) (hf : f ∈ l.fibers r) (halive : f.Alive)
    (hfibers : l'.fibers = Function.update l.fibers r (some f')) (hend : ¬f'.Alive) :
    l'.AliveCount (n - 1) := by
  obtain ⟨alive, hmem, hn⟩ := h
  have hr : r ∈ alive := (hmem r).mpr ⟨f, hf, halive⟩
  refine ⟨alive.erase r, fun r' => ?_, ?_⟩
  · rw [exists_alive_update hfibers, Finset.mem_erase]
    split
    · next heq => exact ⟨fun h => absurd heq h.1, fun h => absurd h hend⟩
    · next hne => rw [hmem, and_iff_right hne]
  · have hpos := Finset.card_pos.mpr ⟨r, hr⟩
    rw [Finset.card_erase_of_mem hr, hn]
    omega

/-- A fiber starts. -/
theorem Listener.AliveCount.start (h : l.AliveCount n) (hnew : l.fibers r = none)
    (hfibers : l'.fibers = Function.update l.fibers r (some f')) (halive : f'.Alive) :
    l'.AliveCount (n + 1) := by
  obtain ⟨alive, hmem, hn⟩ := h
  have hr : r ∉ alive := by
    rw [hmem, hnew]
    rintro ⟨g, hg, -⟩
    exact Option.not_mem_none g hg
  refine ⟨insert r alive, fun r' => ?_, ?_⟩
  · rw [exists_alive_update hfibers, Finset.mem_insert]
    split
    · next heq => exact ⟨fun _ => halive, fun _ => Or.inl heq⟩
    · next hne => rw [hmem, or_iff_right hne]
  · rw [Finset.card_insert_of_notMem hr, hn]
    omega

/-- The fibers of received messages start. -/
theorem aliveCount_foldl_setFiber {messages : List Message} (h : l.AliveCount n)
    (hnodup : (messages.map Message.receiptHandle).Nodup)
    (hnew : ∀ m ∈ messages, l.fibers m.receiptHandle = none) :
    (messages.foldl (fun l m => l.setFiber ⟨m, .start, false, false⟩) l).AliveCount
      (n + messages.length) := by
  induction messages generalizing l n with
  | nil =>
    show l.AliveCount (n + 0)
    rwa [add_zero]
  | cons m ms ih =>
    obtain ⟨hm, hms⟩ := List.nodup_cons.mp hnodup
    have hstart : (l.setFiber ⟨m, .start, false, false⟩).AliveCount (n + 1) :=
      h.start (hnew m List.mem_cons_self) rfl ⟨by simp, by simp⟩
    have hrest := ih hstart hms fun m' hm' => ?_
    · rw [List.foldl_cons, List.length_cons]
      have hcount : n + 1 + (ms.length : ℤ) = n + ((ms.length + 1 : ℕ) : ℤ) := by
        push_cast
        ring
      rwa [← hcount]
    · have hne : m'.receiptHandle ≠ m.receiptHandle := fun heq =>
        hm (heq ▸ List.mem_map_of_mem hm')
      show Function.update l.fibers m.receiptHandle _ m'.receiptHandle = none
      rw [Function.update_of_ne hne]
      exact hnew m' (List.mem_cons_of_mem m hm')

theorem numFibers_foldl_setFiber (messages : List Message) (l : Listener) :
    (messages.foldl (fun l m => l.setFiber ⟨m, .start, false, false⟩) l).numFibers =
      l.numFibers := by
  induction messages generalizing l with
  | nil => rfl
  | cons m ms ih => exact ih (l.setFiber ⟨m, .start, false, false⟩)

/-- One of them is there. -/
theorem exists_start_receive {messages : List Message} (hne : messages ≠ []) (l : Listener) :
    ∃ r, ∃ m, (l.receive messages).fibers r = some ⟨m, .start, false, false⟩ := by
  obtain ⟨ms, m, rfl⟩ := (List.eq_nil_or_concat messages).resolve_left hne
  refine ⟨m.receiptHandle, m, ?_⟩
  unfold Listener.receive
  rw [List.concat_eq_append, List.foldl_append]
  exact Function.update_self ..

/-! ## Listening again -/

/-- The fiber, or whoever its handler has left the message to, will listen again. -/
def MessageFiber.Listens (f : MessageFiber) : HandlerKind → Prop
  | .processMsg =>
    f.pc = .start ∨ f.pc = .handler ∨ f.pc = .returned true ∨ f.pc = .returned false
  | .processMsgDel => f.called = false ∧ (f.pc = .start ∨ f.pc = .handler ∨ f.accepted = true)

theorem MessageFiber.Listens.processing (h : f.Listens kind) : f.Processing := by
  unfold MessageFiber.Processing MessageFiber.Alive
  cases kind with
  | processMsg =>
    left
    rcases h with hpc | hpc | hpc | hpc
    · simp [hpc]
    · simp [hpc]
    · simp [hpc]
    · simp [hpc]
  | processMsgDel =>
    obtain ⟨hcalled, hpc | hpc | haccepted⟩ := h
    · left
      simp [hpc]
    · left
      simp [hpc]
    · exact Or.inr ⟨haccepted, hcalled⟩

/-- A fiber that will listen again does so in this step, or will after it. -/
theorem MessageFiber.Listens.after (h : f.Listens kind) (hstep : f.canStep kind a)
    (hends : f.EndsWell kind a) :
    (f.after kind a).Listens kind ∨ ReceiveLoop.listensAfter kind a = true := by
  cases kind with
  | processMsg =>
    cases a with
    | addToKeepAlive => exact Or.inl (Or.inr (Or.inl rfl))
    | handlerReturns success =>
      left
      cases success with
      | true => exact Or.inr (Or.inr (Or.inl rfl))
      | false => exact Or.inr (Or.inr (Or.inr rfl))
    | handlerThrows exc => exact absurd hends.1 (by simp)
    | afterHandler => exact Or.inr rfl
    | resend sent =>
      have hpc : f.pc = .throttled := hstep
      simp [MessageFiber.Listens, hpc] at h
    | finish =>
      have hpc : f.pc = .finish := hstep
      simp [MessageFiber.Listens, hpc] at h
    | del deleteIt timeout => exact Or.inr rfl
  | processMsgDel =>
    obtain ⟨hcalled, hpc⟩ := h
    cases a with
    | addToKeepAlive => exact Or.inl ⟨hcalled, Or.inr (Or.inl rfl)⟩
    | handlerReturns success =>
      left
      cases success with
      | true => exact ⟨hcalled, Or.inr (Or.inr rfl)⟩
      | false => exact absurd ((hends rfl rfl).symm.trans hcalled) (by simp)
    | handlerThrows exc => exact absurd (hends.2.symm.trans hcalled) (by simp)
    | afterHandler =>
      have haccepted : f.accepted = true := by
        rcases hstep with hreturned | hreturned
        · simpa [hreturned] using hpc
        · simpa [hreturned] using hpc
      exact Or.inl ⟨hcalled, Or.inr (Or.inr haccepted)⟩
    | resend sent =>
      have hthrottled : f.pc = .throttled := hstep
      have haccepted : f.accepted = true := by simpa [hthrottled] using hpc
      exact Or.inl ⟨hcalled, Or.inr (Or.inr haccepted)⟩
    | finish =>
      have hfinish : f.pc = .finish := hstep
      have haccepted : f.accepted = true := by simpa [hfinish] using hpc
      exact Or.inl ⟨hcalled, Or.inr (Or.inr haccepted)⟩
    | del deleteIt timeout => exact Or.inr rfl

/-- Something that leads to the next request. -/
def ReceiveLoop.Goes (kind : HandlerKind) (s : ReceiveLoop) : Prop :=
  0 < s.receiving ∨ (∃ c ∈ s.callbacks, c = .failed ∨ c = .received 0) ∨ 0 < s.stalled ∨
    0 < s.restarting ∨ ∃ r, ∃ f ∈ s.listener.fibers r, f.Listens kind

/-- The invariant. -/
structure Kept (kind : HandlerKind) (single : Bool) (s : ReceiveLoop) : Prop where
  count : s.listener.AliveCount s.listener.numFibers
  key : ∀ r, ∀ f ∈ s.listener.fibers r, f.msg.receiptHandle = r
  released : s.released = true → s.exitNow = true
  goes : single = true → s.exitNow = false → s.consecutiveErrors < consecutiveErrorsLimit →
    s.Goes kind

theorem Kept.holds (h : Kept kind single s) : Bookkeeping single s where
  count := h.count
  listening hsingle hexit herrors := by
    rcases h.goes hsingle hexit herrors with hgoes | hgoes | hgoes | hgoes | ⟨r, f, hf, hlistens⟩
    · exact Or.inl hgoes
    · exact Or.inr (Or.inl hgoes)
    · exact Or.inr (Or.inr (Or.inl hgoes))
    · exact Or.inr (Or.inr (Or.inr (Or.inl hgoes)))
    · exact Or.inr (Or.inr (Or.inr (Or.inr ⟨r, f, hf, hlistens.processing⟩)))

theorem kept_init : Kept kind single (receiveMachine kind single).init where
  count := ⟨∅, fun r => ⟨fun h => absurd h (Finset.notMem_empty r),
    fun ⟨f, hf, _⟩ => absurd hf (Option.not_mem_none f)⟩, rfl⟩
  key _ f hf := absurd hf (Option.not_mem_none f)
  released h := absurd h Bool.false_ne_true
  goes _ _ _ := Or.inr (Or.inr (Or.inr (Or.inl Nat.one_pos)))

/-! ## The steps -/

/-- What the requests and callbacks do: the fibers of messages stay as they are, and something that
leads to the next request is left. -/
theorem Kept.of_same (h : Kept kind single s) {s' : ReceiveLoop}
    (hlistener : s'.listener = s.listener) (hreleased : s'.released = true → s'.exitNow = true)
    (hgoes : single = true → s'.exitNow = false →
      s'.consecutiveErrors < consecutiveErrorsLimit → s'.Goes kind) : Kept kind single s' where
  count := by
    rw [hlistener]
    exact h.count
  key := by
    rw [hlistener]
    exact h.key
  released := hreleased
  goes := hgoes

/-- Once an exit was requested, nothing has to be left. -/
theorem Kept.of_exit (h : Kept kind single s) {s' : ReceiveLoop}
    (hlistener : s'.listener = s.listener) (hexit : s'.exitNow = true) : Kept kind single s' := by
  apply h.of_same hlistener
  · intro _
    exact hexit
  · intro _ hnot
    exact absurd (hexit.symm.trans hnot) (by simp)

theorem kept_restart (h : Kept kind single s) : Kept kind single s.restart := by
  unfold ReceiveLoop.restart
  simp only
  split
  · next hreleased =>
    exact h.of_exit rfl (h.released hreleased)
  · exact h.of_same rfl h.released fun _ _ _ => Or.inl (Nat.succ_pos _)

theorem kept_receiveFailed (h : Kept kind single s) : Kept kind single s.receiveFailed := by
  unfold ReceiveLoop.receiveFailed
  simp only
  split
  · next hreleased =>
    exact h.of_exit rfl (h.released hreleased)
  · refine h.of_same rfl h.released ?_
    intro _ _ _
    exact Or.inr (Or.inl ⟨.failed, List.mem_cons_self, Or.inl rfl⟩)

/-- The fibers of received messages are new ones. -/
theorem key_receive {messages : List Message}
    (hkey : ∀ r, ∀ f ∈ l.fibers r, f.msg.receiptHandle = r) :
    ∀ r, ∀ f ∈ (l.receive messages).fibers r, f.msg.receiptHandle = r := by
  have hfold : l.receive messages = messages.foldl
      (fun l m => l.setFiber ⟨m, .start, false, false⟩)
      { l with numFibers := l.numFibers + messages.length } := rfl
  intro r f hf
  rcases (foldl_setFiber messages _ hfold).2.2 r with hsame | ⟨m, -, hr, hnew⟩
  · rw [hsame] at hf
    exact hkey r f hf
  · rw [← Option.some.inj (hnew.symm.trans hf)]
    exact hr

theorem kept_received (h : Kept kind single s) {messages : List Message}
    (hnodup : (messages.map Message.receiptHandle).Nodup)
    (hnew : ∀ m ∈ messages, s.listener.fibers m.receiptHandle = none)
    (continueAfterTimeout : Bool) :
    Kept kind single (s.received messages continueAfterTimeout) := by
  unfold ReceiveLoop.received
  simp only
  split
  · next hreleased =>
    exact h.of_exit rfl (h.released hreleased)
  · split
    · next hpos =>
      refine ⟨?_, key_receive h.key, h.released, fun _ _ _ => ?_⟩
      · have hcount := aliveCount_foldl_setFiber
          (l := { s.listener with numFibers := s.listener.numFibers + messages.length })
          h.count hnodup hnew
        show (s.listener.receive messages).AliveCount (s.listener.receive messages).numFibers
        unfold Listener.receive
        rw [numFibers_foldl_setFiber]
        exact hcount
      · have hne : messages ≠ [] := List.length_pos_iff.mp hpos
        obtain ⟨r, m, hstart⟩ := exists_start_receive hne s.listener
        refine Or.inr (Or.inr (Or.inr (Or.inr ⟨r, _, hstart, ?_⟩)))
        cases kind with
        | processMsg => exact Or.inl rfl
        | processMsgDel => exact ⟨rfl, Or.inl rfl⟩
    · next hzero =>
      have hnone : messages.length = 0 := by omega
      split
      · exact h.of_exit rfl rfl
      · refine h.of_same rfl h.released ?_
        intro _ _ _
        rw [hnone]
        exact Or.inr (Or.inl ⟨.received 0, List.mem_cons_self, Or.inr rfl⟩)

/-- The end of a callback, of which only those count that listen again with one message at a
time. -/
theorem kept_listenAgain (h : Kept kind single s) (c : Callback) :
    Kept kind single (s.listenAgain single c) := by
  unfold ReceiveLoop.listenAgain
  simp only
  split
  · next herrors =>
    split
    · split
      · exact h.of_same rfl h.released fun _ _ _ => Or.inr (Or.inr (Or.inl (Nat.succ_pos _)))
      · exact h.of_same rfl h.released
          fun _ _ _ => Or.inr (Or.inr (Or.inr (Or.inl (Nat.succ_pos _))))
    · next hnot =>
      refine h.of_same rfl h.released ?_
      intro hsingle hexit herrors
      have hexit : s.exitNow = false := hexit
      -- it is none of the callbacks that listen again
      have hc : ¬(c = .failed ∨ c = .received 0) := by
        rintro (hc | hc)
        · exact hnot ⟨Or.inl hc, hexit⟩
        · exact hnot ⟨Or.inr (Or.inr hc), hexit⟩
      rcases h.goes hsingle hexit herrors with hgoes | ⟨c', hc', hkind⟩ | hgoes | hgoes | hgoes
      · exact Or.inl hgoes
      · have hne : c' ≠ c := fun heq => hc (heq ▸ hkind)
        exact Or.inr (Or.inl ⟨c', (List.mem_erase_of_ne hne).mpr hc', hkind⟩)
      · exact Or.inr (Or.inr (Or.inl hgoes))
      · exact Or.inr (Or.inr (Or.inr (Or.inl hgoes)))
      · exact Or.inr (Or.inr (Or.inr (Or.inr hgoes)))
  · next hlimit =>
    refine h.of_same rfl h.released ?_
    intro _ _ herrors
    exact absurd herrors hlimit

/-- A fiber's step keeps what leads to the next request. -/
theorem goes_messageStep (h : Kept kind single s) (hf : f ∈ s.listener.fibers r)
    (hstep : f.canStep kind a) (hsingle : single = true) (hexit : s.exitNow = false)
    (hends : f.EndsWell kind a) (hgoes : s.Goes kind) :
    (s.messageStep kind single f a).Goes kind := by
  unfold ReceiveLoop.messageStep
  simp only
  split
  · exact Or.inl (Nat.succ_pos _)
  · next hnot =>
    have hlater : ReceiveLoop.listensAfter kind a ≠ true := fun hnow => hnot ⟨hnow, hsingle, hexit⟩
    rcases hgoes with hgoes | hgoes | hgoes | hgoes | ⟨r', g, hg, hlistens⟩
    · exact Or.inl hgoes
    · exact Or.inr (Or.inl hgoes)
    · exact Or.inr (Or.inr (Or.inl hgoes))
    · exact Or.inr (Or.inr (Or.inr (Or.inl hgoes)))
    · refine Or.inr (Or.inr (Or.inr (Or.inr ⟨r', ?_⟩)))
      show ∃ f' ∈ (s.listener.fiberStep kind f a).fibers r', f'.Listens kind
      rw [fiberStep_fibers, h.key r f hf]
      by_cases hr : r' = r
      · subst hr
        rw [Function.update_self]
        have hsame : f = g := Option.some.inj (hf.symm.trans hg)
        subst hsame
        exact ⟨_, rfl, (hlistens.after hstep hends).resolve_right hlater⟩
      · rw [Function.update_of_ne hr]
        exact ⟨g, hg, hlistens⟩

theorem kept_messageStep (h : Kept kind single s) (hf : f ∈ s.listener.fibers r)
    (hstep : f.canStep kind a) (hsent : a.Sent)
    (hends : single = true → s.exitNow = false → f.EndsWell kind a) :
    Kept kind single (s.messageStep kind single f a) := by
  have hlistener : (s.messageStep kind single f a).listener = s.listener.fiberStep kind f a := by
    unfold ReceiveLoop.messageStep
    simp only
    split
    · rfl
    · rfl
  have hothers : (s.messageStep kind single f a).released = s.released ∧
      (s.messageStep kind single f a).exitNow = s.exitNow ∧
      (s.messageStep kind single f a).consecutiveErrors = s.consecutiveErrors := by
    unfold ReceiveLoop.messageStep
    simp only
    split
    · exact ⟨rfl, rfl, rfl⟩
    · exact ⟨rfl, rfl, rfl⟩
  obtain ⟨hreleased, hexitNow, herrors⟩ := hothers
  have hfibers : (s.listener.fiberStep kind f a).fibers =
      Function.update s.listener.fibers r (some (f.after kind a)) := by
    rw [fiberStep_fibers, h.key r f hf]
  refine ⟨?_, ?_, ?_, ?_⟩
  · rw [hlistener]
    by_cases ha : a = .finish
    · subst ha
      have hpc : f.pc = .finish := hstep
      have halive : f.Alive := by simp [MessageFiber.Alive, hpc]
      have hend : ¬(f.after kind .finish).Alive := fun hend => hend.1 rfl
      exact h.count.leave hf halive hfibers hend
    · rw [fiberStep_numFibers ha]
      exact h.count.move hf hfibers (f.alive_after_iff hstep hsent ha)
  · intro r' g hg
    rw [hlistener, hfibers] at hg
    by_cases hr : r' = r
    · subst hr
      rw [Function.update_self] at hg
      rw [← Option.some.inj hg, f.after_msg]
      exact h.key _ f hf
    · rw [Function.update_of_ne hr] at hg
      exact h.key r' g hg
  · rw [hreleased, hexitNow]
    exact h.released
  · rw [hexitNow, herrors]
    intro hsingle hexit hlimit
    exact goes_messageStep h hf hstep hsingle hexit (hends hsingle hexit)
      (h.goes hsingle hexit hlimit)

/-- Every step that keeps the listener listening. -/
theorem kept_next (h : Kept kind single s) {a : ReceiveAction}
    (hgood : KeepsListening kind single s a) (ha : s.enabled kind a) :
    Kept kind single (s.next kind single a) := by
  cases a with
  | restart => exact kept_restart h
  | receiveFailed => exact kept_receiveFailed h
  | received messages continueAfterTimeout =>
    exact kept_received h ha.2.1 ha.2.2 continueAfterTimeout
  | listenAgain c => exact kept_listenAgain h c
  | unstall =>
    exact h.of_same rfl h.released fun _ _ _ => Or.inr (Or.inr (Or.inr (Or.inl (Nat.succ_pos _))))
  | message receipt a =>
    obtain ⟨-, f, hf, hstep⟩ := ha
    simp only [ReceiveLoop.next, Option.mem_def.mp hf]
    exact kept_messageStep h hf hstep hgood.1 fun hsingle hexit => hgood.2 hsingle hexit f hf
  | abandon receipt => exact absurd hgood id
  | deleted receipt success => exact ⟨h.count, h.key, h.released, h.goes⟩
  | setVisibilityTimeout => exact ⟨h.count, h.key, h.released, h.goes⟩
  | release => exact h.of_exit rfl rfl

/-! ## Runs -/

/-- In every run whose steps all keep the listener listening, `_num_fibers` is the number of the
fibers of messages, and with one message at a time the listener never stops by itself. -/
theorem bookkeeping (hs : (receiveMachine kind single).Reachable (KeepsListening kind single) s) :
    Bookkeeping single s := by
  have hkept : Kept kind single s := by
    refine hs.invariant kept_init ?_
    intro s a hkept hgood ha
    exact kept_next hkept hgood ha
  exact hkept.holds

instance (a : FiberAction) : Decidable a.Sent :=
  match a with
  | .resend sent => inferInstanceAs (Decidable (sent = true))
  | .addToKeepAlive | .handlerReturns _ | .handlerThrows _ | .afterHandler => isTrue trivial
  | .finish | .del _ _ => isTrue trivial

instance (kind : HandlerKind) (f : MessageFiber) (a : FiberAction) :
    Decidable (f.EndsWell kind a) :=
  match a with
  | .handlerThrows _ => inferInstanceAs (Decidable (kind = .processMsgDel ∧ f.called = true))
  | .handlerReturns success =>
    inferInstanceAs (Decidable (kind = .processMsgDel → success = false → f.called = true))
  | .addToKeepAlive | .afterHandler | .resend _ | .finish | .del _ _ => isTrue trivial

instance (kind : HandlerKind) (single : Bool) (s : ReceiveLoop) (a : ReceiveAction) :
    Decidable (KeepsListening kind single s a) :=
  match a with
  | .abandon _ => isFalse id
  | .message receipt a =>
    inferInstanceAs (Decidable (a.Sent ∧ (single = true → s.exitNow = false →
      ∀ f ∈ s.listener.fibers receipt, f.EndsWell kind a)))
  | .restart | .receiveFailed | .received _ _ | .listenAgain _ | .unstall => isTrue trivial
  | .deleted _ _ | .setVisibilityTimeout | .release => isTrue trivial

/-- A message is processed, and the listener listens again. -/
theorem bookkeeping_oneMessage : ∃ s, Bookkeeping true s ∧ s.receiving = 1 ∧
    s.listener.numFibers = 0 := by
  have hreplay : ((receiveMachine .processMsg true).replay (KeepsListening .processMsg true)
      [.restart, .received [firstMessage] true, .listenAgain (.received 1),
        .message [1] .addToKeepAlive, .message [1] (.handlerReturns true),
        .message [1] .afterHandler, .message [1] .finish]
      (receiveMachine .processMsg true).init).any
        (fun s => decide (s.receiving = 1 ∧ s.listener.numFibers = 0)) = true := by
    decide +kernel
  obtain ⟨s, hs, hp⟩ := Machine.reachable_of_replay hreplay
  obtain ⟨hreceiving, hnumFibers⟩ := of_decide_eq_true hp
  exact ⟨s, bookkeeping hs, hreceiving, hnumFibers⟩

/-- The steps up to the handler of the first message. -/
def firstSteps : List ReceiveAction :=
  [.restart, .received [firstMessage] true, .listenAgain (.received 1),
    .message [1] .addToKeepAlive]

/-- The only fiber there is. -/
theorem eq_of_mem_update {g : MessageFiber} {r' : Bytes}
    (hg : g ∈ Function.update (fun _ : Bytes => none) r (some f) r') : g = f := by
  by_cases hr : r' = r
  · rw [hr, Function.update_self] at hg
    exact (Option.some.inj hg).symm
  · rw [Function.update_of_ne hr] at hg
    exact absurd hg (Option.not_mem_none g)

/-- With one message at a time, a handler that throws a `std::exception` is the end of listening;
and if sending a message again throws, its fiber is counted for ever. -/
theorem exceptions_break_bookkeeping :
    (∃ s, (receiveMachine .processMsg true).Reachable Machine.anyStep s ∧
      s.exitNow = false ∧ s.consecutiveErrors < consecutiveErrorsLimit ∧ ¬s.Listening) ∧
    ∃ s, (receiveMachine .processMsg false).Reachable Machine.anyStep s ∧
      ¬s.listener.AliveCount s.listener.numFibers := by
  constructor
  · have hrun : (receiveMachine .processMsg true).replay Machine.anyStep
        (firstSteps ++ [.message [1] (.handlerThrows .stdException), .message [1] .finish])
        (receiveMachine .processMsg true).init = some
          { listener :=
              ⟨[([1], [10])], Function.update (Function.update (Function.update (Function.update
                (fun _ => none) [1] (some ⟨firstMessage, .start, false, false⟩))
                [1] (some ⟨firstMessage, .handler, false, false⟩))
                [1] (some ⟨firstMessage, .finish, false, false⟩))
                [1] (some ⟨firstMessage, .done, false, false⟩), 0, [], []⟩
            receiving := 0, callbacks := [], stalled := 0, restarting := 0
            consecutiveErrors := 0, exitNow := false, references := 0, released := false } := rfl
    simp only [Function.update_idem] at hrun
    refine ⟨_, Machine.replay_reachable .init hrun, rfl, by decide, ?_⟩
    rintro (h | ⟨c, hc, -⟩ | h | h | ⟨r, g, hg, hprocessing⟩)
    · exact absurd h (Nat.lt_irrefl 0)
    · exact absurd hc List.not_mem_nil
    · exact absurd h (Nat.lt_irrefl 0)
    · exact absurd h (Nat.lt_irrefl 0)
    · -- its fiber has come to an end and was not left to anyone
      rw [eq_of_mem_update hg] at hprocessing
      rcases hprocessing with halive | haccepted
      · exact absurd rfl halive.1
      · exact absurd haccepted.1 (by simp)
  · have hrun : (receiveMachine .processMsg false).replay Machine.anyStep
        (firstSteps ++ [.message [1] (.handlerThrows .awsThrottleError),
          .message [1] (.resend false)])
        (receiveMachine .processMsg false).init = some
          { listener :=
              ⟨[([1], [10])], Function.update (Function.update (Function.update (Function.update
                (fun _ => none) [1] (some ⟨firstMessage, .start, false, false⟩))
                [1] (some ⟨firstMessage, .handler, false, false⟩))
                [1] (some ⟨firstMessage, .throttled, false, false⟩))
                [1] (some ⟨firstMessage, .escaped, false, false⟩), 1, [], []⟩
            receiving := 0, callbacks := [], stalled := 0, restarting := 1
            consecutiveErrors := 0, exitNow := false, references := 0, released := false } := rfl
    simp only [Function.update_idem] at hrun
    refine ⟨_, Machine.replay_reachable .init hrun, ?_⟩
    rintro ⟨alive, halive, hcount⟩
    have hempty : alive = ∅ := by
      apply Finset.eq_empty_of_forall_notMem
      intro r hr
      obtain ⟨g, hg, hgalive⟩ := (halive r).mp hr
      rw [eq_of_mem_update hg] at hgalive
      exact hgalive.2 rfl
    rw [hempty] at hcount
    exact absurd hcount (by decide)

end Anon.Sqs
