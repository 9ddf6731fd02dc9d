import Anon.Sqs.Listener

/-!
# When a message is let go

* `receipts_entriesFrom`: the sweep extends the visibility of the keep-alive set, once each.
* `Ended`: the processing of a message has ended, and so have its delete requests.
* `Released`: such a message is not in the keep-alive set, and the sweep leaves it alone.
* `Tracked`: what keeps a message in the keep-alive set.
* `Handled`: no exception leaves a message behind that nobody has asked to delete or to release.
* `released`: the runs in which every exception is handled.
-/

namespace Anon.Sqs

variable {kind : HandlerKind} {l l' : Listener} {f : MessageFiber} {r : Bytes}

/-! ## The sweep -/

/-- The receipts in the keep-alive set. -/
def Listener.receipts (l : Listener) : List Bytes := l.aliveSet.map Prod.fst

theorem flatten_pushBack {entriesV : List (List BatchEntry)} (hne : entriesV ≠ [])
    (ent : BatchEntry) : (pushBack entriesV ent).flatten = entriesV.flatten ++ [ent] := by
  have hlast := List.dropLast_concat_getLast hne
  rw [pushBack, List.getLast?_eq_getLast_of_ne_nil hne]
  show (entriesV.dropLast ++ [entriesV.getLast hne ++ [ent]]).flatten = _
  conv_rhs => rw [← hlast]
  simp only [List.flatten_append, List.flatten_cons, List.flatten_nil, List.append_nil,
    List.append_assoc]

theorem pushBack_ne_nil {entriesV : List (List BatchEntry)} (hne : entriesV ≠ [])
    (ent : BatchEntry) : pushBack entriesV ent ≠ [] := by
  rw [pushBack, List.getLast?_eq_getLast_of_ne_nil hne]
  exact List.append_ne_nil_of_right_ne_nil _ (List.cons_ne_nil _ _)

/-- The batches hold every receipt of the set, in order. -/
theorem receipts_entriesFrom (m : OrderedMap Bytes Bytes) {index : ℕ}
    {entriesV : List (List BatchEntry)} (hv : index % 10 = 0 ∨ entriesV ≠ []) :
    (entriesFrom index entriesV m).flatten.map BatchEntry.receiptHandle =
      entriesV.flatten.map BatchEntry.receiptHandle ++ m.map Prod.fst := by
  induction m generalizing index entriesV with
  | nil => rw [entriesFrom, List.map_nil, List.append_nil]
  | cons it rest ih =>
    obtain ⟨w, hw⟩ : ∃ w, w = if index % 10 = 0 then entriesV ++ [[]] else entriesV := ⟨_, rfl⟩
    have hne : w ≠ [] := by
      rw [hw]
      split
      next => exact List.append_ne_nil_of_right_ne_nil _ (List.cons_ne_nil _ _)
      next hmod => exact hv.resolve_left hmod
    have hflat : w.flatten = entriesV.flatten := by
      rw [hw]
      split
      next => rw [List.flatten_append, List.flatten_singleton, List.append_nil]
      next => rfl
    rw [entriesFrom]
    simp only [← hw]
    rw [ih (Or.inr (pushBack_ne_nil hne _)), flatten_pushBack hne, hflat, List.map_append,
      List.append_assoc]
    rfl

/-! ## Ended messages -/

/-- The fiber has ended, and if the handler has accepted the message and left it to the callback,
that was called. -/
def MessageFiber.Over (f : MessageFiber) : Prop :=
  (f.pc = .finish ∨ f.pc = .done ∨ f.pc = .escaped) ∧ (f.accepted = true → f.called = true)

/-- The processing of a message and every delete request for it have ended. -/
def Ended (l : Listener) (r : Bytes) : Prop :=
  (∃ f ∈ l.fibers r, f.Over) ∧ r ∉ l.deleting

/-- Ended messages are not in the keep-alive set, and a sweep does not extend their visibility. -/
def Released (l : Listener) : Prop :=
  ∀ r, Ended l r → r ∉ l.receipts ∧
    ∀ entries ∈ entriesFrom 0 [] l.aliveSet, ∀ ent ∈ entries, ent.receiptHandle ≠ r

/-- The handler is still running or about to be followed by a request, or it has left the message
to the callback, and the callback was not called. -/
def MessageFiber.Holds (f : MessageFiber) : Prop :=
  f.called = false ∧
    (f.pc = .handler ∨ f.pc = .returned true ∨ f.pc = .returned false ∨ f.pc = .throttled ∨
      f.accepted = true)

/-- A message is in the keep-alive set only while it is being deleted or its fiber holds it. -/
structure Tracked (kind : HandlerKind) (l : Listener) : Prop where
  held : ∀ r ∈ l.receipts, r ∈ l.deleting ∨ ∃ f ∈ l.fibers r, f.Holds
  key : ∀ r, ∀ f ∈ l.fibers r, f.msg.receiptHandle = r
  start : ∀ r, ∀ f ∈ l.fibers r, f.pc = .start → f.called = false
  returned : ∀ r, ∀ f ∈ l.fibers r, f.pc = .returned true → kind = .processMsgDel →
    f.accepted = true

/-- If the step is an exception of a handler other than `aws_throttle_error`, or one of sending a
message again, the callback has been called. -/
def Handled (l : Listener) : SqsAction → Prop
  | .fiber r (.handlerThrows exc) =>
    exc ≠ .awsThrottleError → ∀ f ∈ l.fibers r, f.called = true
  | .fiber r (.resend sent) => sent = false → ∀ f ∈ l.fibers r, f.called = true
  | _ => True

theorem released_of_tracked (hl : Tracked kind l) : Released l := by
  intro r ⟨⟨f, hf, hpc, hover⟩, hdeleting⟩
  have hout : r ∉ l.receipts := by
    intro halive
    rcases hl.held r halive with hmem | ⟨g, hg, hcalled, hholds⟩
    · exact hdeleting hmem
    · have hfg : f = g := Option.some.inj (hf.symm.trans hg)
      subst hfg
      rcases hholds with hh | hh | hh | hh | haccepted
      · rcases hpc with h | h | h <;> exact FiberPc.noConfusion (h.symm.trans hh)
      · rcases hpc with h | h | h <;> exact FiberPc.noConfusion (h.symm.trans hh)
      · rcases hpc with h | h | h <;> exact FiberPc.noConfusion (h.symm.trans hh)
      · rcases hpc with h | h | h <;> exact FiberPc.noConfusion (h.symm.trans hh)
      · exact absurd ((hover haccepted).symm.trans hcalled) Bool.noConfusion
  refine ⟨hout, ?_⟩
  intro entries hentries ent hent heq
  apply hout
  have hall : (entriesFrom 0 [] l.aliveSet).flatten.map BatchEntry.receiptHandle =
      l.aliveSet.map Prod.fst := receipts_entriesFrom l.aliveSet (Or.inl rfl)
  rw [Listener.receipts, ← hall, ← heq]
  exact List.mem_map_of_mem (List.mem_flatten_of_mem hentries hent)

/-! ## The keep-alive set -/

theorem receipts_addToKeepAlive (m : Message)
    (hr : r ∈ (l.addToKeepAlive m).receipts) (hne : r ≠ m.receiptHandle) : r ∈ l.receipts := by
  obtain ⟨e, he, rfl⟩ := List.mem_map.mp hr
  rcases OrderedMap.mem_alter he with heq | hmem
  · exact absurd heq hne
  · exact List.mem_map_of_mem hmem

theorem receipts_removeFromKeepAlive {receipt : Bytes} (reset : Bool) (timeout : ℤ) :
    r ∈ (l.removeFromKeepAlive receipt reset timeout).receipts ↔ r ∈ l.receipts ∧ r ≠ receipt := by
  constructor
  · intro hr
    obtain ⟨e, he, rfl⟩ := List.mem_map.mp hr
    obtain ⟨hmem, hne⟩ := OrderedMap.mem_erase.mp he
    exact ⟨List.mem_map_of_mem hmem, hne⟩
  · rintro ⟨hr, hne⟩
    obtain ⟨e, he, rfl⟩ := List.mem_map.mp hr
    exact List.mem_map_of_mem (OrderedMap.mem_erase.mpr ⟨he, hne⟩)

/-! ## The steps -/

/-- A step of a fiber changes nothing for other messages, and for its own it leaves the receipt out
of the set, or in a delete request, or held. -/
theorem tracked_fiber (hl : Tracked kind l) (hf : f ∈ l.fibers r) (f' : MessageFiber)
    (hmsg : f'.msg = f.msg) (hfibers : l'.fibers = Function.update l.fibers r (some f'))
    (hreceipts : ∀ r' ∈ l'.receipts, r' ≠ r → r' ∈ l.receipts)
    (hdeleting : ∀ r' ∈ l.deleting, r' ∈ l'.deleting)
    (hself : r ∈ l'.receipts → r ∈ l'.deleting ∨ f'.Holds)
    (hstart : f'.pc = .start → f'.called = false)
    (hreturned : f'.pc = .returned true → kind = .processMsgDel → f'.accepted = true) :
    Tracked kind l' := by
  have hnew : f' ∈ l'.fibers r := by
    rw [hfibers]
    exact Function.update_self ..
  have hold : ∀ r' ≠ r, l'.fibers r' = l.fibers r' := by
    intro r' hne
    rw [hfibers, Function.update_of_ne hne]
  have hsame : ∀ g ∈ l'.fibers r, g = f' := by
    intro g hg
    exact Option.some.inj (hg.symm.trans hnew)
  refine ⟨?_, ?_, ?_, ?_⟩
  · intro r' hr'
    by_cases heq : r' = r
    · subst heq
      exact (hself hr').imp_right fun hholds => ⟨f', hnew, hholds⟩
    · rw [hold r' heq]
      exact (hl.held r' (hreceipts r' hr' heq)).imp_left (hdeleting r')
  · intro r' g hg
    by_cases heq : r' = r
    · subst heq
      rw [hsame g hg, hmsg]
      exact hl.key _ f hf
    · rw [hold r' heq] at hg
      exact hl.key r' g hg
  · intro r' g hg
    by_cases heq : r' = r
    · subst heq
      rw [hsame g hg]
      exact hstart
    · rw [hold r' heq] at hg
      exact hl.start r' g hg
  · intro r' g hg
    by_cases heq : r' = r
    · subst heq
      rw [hsame g hg]
      exact hreturned
    · rw [hold r' heq] at hg
      exact hl.returned r' g hg

/-- Before a step of a fiber: its receipt is in a delete request, or the fiber holds it. -/
theorem Tracked.own (hl : Tracked kind l) (hf : f ∈ l.fibers r) (hr : r ∈ l.receipts) :
    r ∈ l.deleting ∨ f.Holds := by
  rcases hl.held r hr with hmem | ⟨g, hg, hholds⟩
  · exact Or.inl hmem
  · have hfg : f = g := Option.some.inj (hf.symm.trans hg)
    subst hfg
    exact Or.inr hholds

/-- If the callback was called, the receipt of a fiber is in the set only to be deleted. -/
theorem Tracked.deleting_of_called (hl : Tracked kind l) (hf : f ∈ l.fibers r)
    (hcalled : f.called = true) (hr : r ∈ l.receipts) : r ∈ l.deleting := by
  rcases hl.own hf hr with hmem | hholds
  · exact hmem
  · exact absurd (hcalled.symm.trans hholds.1) Bool.noConfusion

theorem tracked_addToKeepAlive (hl : Tracked kind l) (hf : f ∈ l.fibers r)
    (hpc : f.pc = .start) : Tracked kind (l.fiberStep kind f .addToKeepAlive) := by
  have hkey := hl.key r f hf
  have hcalled := hl.start r f hf hpc
  apply tracked_fiber hl hf { f with pc := .handler } rfl (by rw [← hkey]; rfl)
  · intro r' hr' hne
    exact receipts_addToKeepAlive f.msg hr' (by rwa [hkey])
  · intro r' hr'
    exact hr'
  · intro _
    exact Or.inr ⟨hcalled, Or.inl rfl⟩
  · intro _
    exact hcalled
  · exact FiberPc.noConfusion

theorem tracked_handlerReturns (hl : Tracked kind l) (hf : f ∈ l.fibers r) (success : Bool) :
    Tracked kind (l.fiberStep kind f (.handlerReturns success)) := by
  have hkey := hl.key r f hf
  apply tracked_fiber hl hf { f with
    pc := .returned success, accepted := success && decide (kind = .processMsgDel) } rfl
    (by rw [← hkey]; rfl)
  · intro r' hr' _
    exact hr'
  · intro r' hr'
    exact hr'
  · intro hr
    refine (hl.own hf hr).imp_right ?_
    intro hholds
    cases success with
    | true => exact ⟨hholds.1, Or.inr (Or.inl rfl)⟩
    | false => exact ⟨hholds.1, Or.inr (Or.inr (Or.inl rfl))⟩
  · exact FiberPc.noConfusion
  · intro hpc hkind
    have hsuccess : success = true := FiberPc.returned.inj hpc
    show (success && decide (kind = .processMsgDel)) = true
    rw [hsuccess, hkind]
    rfl

/-- An exception other than `aws_throttle_error` ends the fiber, and nothing is requested. -/
theorem tracked_handlerThrows (hl : Tracked kind l) (hf : f ∈ l.fibers r)
    {exc : HandlerException} (hhandled : exc ≠ .awsThrottleError → f.called = true) :
    Tracked kind (l.fiberStep kind f (.handlerThrows exc)) := by
  have hkey := hl.key r f hf
  obtain ⟨pc, hpc⟩ : ∃ pc, pc = if exc = .awsThrottleError then FiberPc.throttled else .finish :=
    ⟨_, rfl⟩
  have hafter : pc = .throttled ∨ pc = .finish := by
    rw [hpc]
    split
    next => exact Or.inl rfl
    next => exact Or.inr rfl
  apply tracked_fiber hl hf { f with pc := pc } rfl (by rw [← hkey, hpc]; rfl)
  · intro r' hr' _
    exact hr'
  · intro r' hr'
    exact hr'
  · intro hr
    by_cases hthrottle : exc = .awsThrottleError
    · refine (hl.own hf hr).imp_right ?_
      intro hholds
      refine ⟨hholds.1, Or.inr (Or.inr (Or.inr (Or.inl ?_)))⟩
      rw [hpc, if_pos hthrottle]
    · exact Or.inl (hl.deleting_of_called hf (hhandled hthrottle) hr)
  · intro hstart
    rcases hafter with h | h <;> exact FiberPc.noConfusion (h.symm.trans hstart)
  · intro hreturned
    rcases hafter with h | h <;> exact FiberPc.noConfusion (h.symm.trans hreturned)

/-- The fiber has a delete request sent for its message. -/
theorem tracked_deleteMessage (hl : Tracked kind l) (hf : f ∈ l.fibers r) (f' : MessageFiber)
    (hmsg : f'.msg = f.msg) (hfibers : l'.fibers = Function.update l.fibers r (some f'))
    (halive : l'.aliveSet = l.aliveSet)
    (hdeleting : l'.deleting = f.msg.receiptHandle :: l.deleting)
    (hstart : f'.pc ≠ .start) (hreturned : f'.pc = .returned true → f.pc = .returned true)
    (haccepted : f'.accepted = f.accepted) : Tracked kind l' := by
  apply tracked_fiber hl hf f' hmsg hfibers
  · intro r' hr' _
    rwa [Listener.receipts, halive] at hr'
  · intro r' hr'
    rw [hdeleting]
    exact List.mem_cons_of_mem _ hr'
  · intro _
    left
    rw [hdeleting, hl.key r f hf]
    exact List.mem_cons_self
  · intro hpc
    exact absurd hpc hstart
  · intro hpc hkind
    rw [haccepted]
    exact hl.returned r f hf (hreturned hpc) hkind

/-- The fiber has its message taken out of the set. -/
theorem tracked_remove (hl : Tracked kind l) (hf : f ∈ l.fibers r) (f' : MessageFiber)
    (hmsg : f'.msg = f.msg) (hfibers : l'.fibers = Function.update l.fibers r (some f'))
    (halive : l'.aliveSet = l.aliveSet.erase f.msg.receiptHandle)
    (hdeleting : l'.deleting = l.deleting) (hstart : f'.pc ≠ .start)
    (hreturned : f'.pc = .returned true → f.pc = .returned true)
    (haccepted : f'.accepted = f.accepted) : Tracked kind l' := by
  have hreceipts : ∀ r' ∈ l'.receipts, r' ∈ l.receipts ∧ r' ≠ r := by
    intro r' hr'
    rw [Listener.receipts, halive] at hr'
    rw [← hl.key r f hf]
    exact (receipts_removeFromKeepAlive false 0).mp hr'
  apply tracked_fiber hl hf f' hmsg hfibers
  · intro r' hr' _
    exact (hreceipts r' hr').1
  · intro r' hr'
    rwa [hdeleting]
  · intro hr
    exact absurd rfl (hreceipts r hr).2
  · intro hpc
    exact absurd hpc hstart
  · intro hpc hkind
    rw [haccepted]
    exact hl.returned r f hf (hreturned hpc) hkind

/-- A handler that returns has its message deleted or released, or leaves it to the callback. -/
theorem tracked_afterHandler (hl : Tracked kind l) (hf : f ∈ l.fibers r) :
    Tracked kind (l.fiberStep kind f .afterHandler) := by
  have hkey := hl.key r f hf
  show Tracked kind (l.afterHandler kind f)
  unfold Listener.afterHandler
  by_cases hsuccess : f.pc = .returned true
  · simp only [hsuccess, not_true_eq_false, if_false]
    cases kind with
    | processMsg =>
      exact tracked_deleteMessage hl hf { f with pc := .finish } rfl (by rw [← hkey]; rfl) rfl rfl
        FiberPc.noConfusion FiberPc.noConfusion rfl
    | processMsgDel =>
      apply tracked_fiber hl hf { f with pc := .finish } rfl (by rw [← hkey]; rfl)
      · intro r' hr' _
        exact hr'
      · intro r' hr'
        exact hr'
      · intro hr
        refine (hl.own hf hr).imp_right ?_
        intro hholds
        have haccepted := hl.returned r f hf hsuccess rfl
        exact ⟨hholds.1, Or.inr (Or.inr (Or.inr (Or.inr haccepted)))⟩
      · exact FiberPc.noConfusion
      · exact FiberPc.noConfusion
  · simp only [hsuccess, not_false_eq_true, if_true]
    exact tracked_remove hl hf { f with pc := .finish } rfl (by rw [← hkey]; rfl) rfl rfl
      FiberPc.noConfusion FiberPc.noConfusion rfl

/-- A message that is sent again is deleted. -/
theorem tracked_resend (hl : Tracked kind l) (hf : f ∈ l.fibers r) {sent : Bool}
    (hhandled : sent = false → f.called = true) :
    Tracked kind (l.fiberStep kind f (.resend sent)) := by
  have hkey := hl.key r f hf
  show Tracked kind (l.resend f sent)
  unfold Listener.resend
  cases sent with
  | true =>
    exact tracked_deleteMessage hl hf { f with pc := .finish } rfl (by rw [← hkey]; rfl) rfl rfl
      FiberPc.noConfusion FiberPc.noConfusion rfl
  | false =>
    apply tracked_fiber hl hf { f with pc := .escaped } rfl (by rw [← hkey]; rfl)
    · intro r' hr' _
      exact hr'
    · intro r' hr'
      exact hr'
    · intro hr
      exact Or.inl (hl.deleting_of_called hf (hhandled rfl) hr)
    · exact FiberPc.noConfusion
    · exact FiberPc.noConfusion

theorem tracked_finish (hl : Tracked kind l) (hf : f ∈ l.fibers r) (hpc : f.pc = .finish) :
    Tracked kind (l.fiberStep kind f .finish) := by
  have hkey := hl.key r f hf
  apply tracked_fiber hl hf { f with pc := .done } rfl (by rw [← hkey]; rfl)
  · intro r' hr' _
    exact hr'
  · intro r' hr'
    exact hr'
  · intro hr
    refine (hl.own hf hr).imp_right ?_
    rintro ⟨hcalled, h | h | h | h | haccepted⟩
    · exact FiberPc.noConfusion (hpc.symm.trans h)
    · exact FiberPc.noConfusion (hpc.symm.trans h)
    · exact FiberPc.noConfusion (hpc.symm.trans h)
    · exact FiberPc.noConfusion (hpc.symm.trans h)
    · exact ⟨hcalled, Or.inr (Or.inr (Or.inr (Or.inr haccepted)))⟩
  · exact FiberPc.noConfusion
  · exact FiberPc.noConfusion

/-- The callback has the message deleted or releases it. -/
theorem tracked_del (hl : Tracked kind l) (hf : f ∈ l.fibers r) (hpc : f.pc ≠ .start)
    (deleteIt : Bool) (timeout : ℤ) :
    Tracked kind (l.fiberStep kind f (.del deleteIt timeout)) := by
  have hkey := hl.key r f hf
  show Tracked kind (l.del f deleteIt timeout)
  unfold Listener.del
  cases deleteIt with
  | true =>
    exact tracked_deleteMessage hl hf { f with called := true } rfl (by rw [← hkey]; rfl) rfl rfl
      hpc id rfl
  | false =>
    exact tracked_remove hl hf { f with called := true } rfl (by rw [← hkey]; rfl) rfl rfl hpc id
      rfl

/-- The answer to a delete request takes the message out of the set. -/
theorem tracked_deleted (hl : Tracked kind l) (receipt : Bytes) :
    Tracked kind (l.deleted receipt) := by
  refine ⟨?_, hl.key, hl.start, hl.returned⟩
  intro r hr
  obtain ⟨halive, hne⟩ := (receipts_removeFromKeepAlive false 0).mp hr
  exact (hl.held r halive).imp_left (List.mem_erase_of_ne hne).mpr

/-- Each message gets a fiber that has done nothing. -/
theorem foldl_setFiber (messages : List Message) (l : Listener)
    (hl' : l' = messages.foldl (fun l m => l.setFiber ⟨m, .start, false, false⟩) l) :
    l'.aliveSet = l.aliveSet ∧ l'.deleting = l.deleting ∧
      ∀ r, l'.fibers r = l.fibers r ∨
        ∃ m ∈ messages, m.receiptHandle = r ∧ l'.fibers r = some ⟨m, .start, false, false⟩ := by
  induction messages generalizing l with
  | nil =>
    rw [hl']
    exact ⟨rfl, rfl, fun r => Or.inl rfl⟩
  | cons m ms ih =>
    obtain ⟨halive, hdeleting, hfibers⟩ := ih (l.setFiber ⟨m, .start, false, false⟩) hl'
    refine ⟨halive, hdeleting, ?_⟩
    intro r
    rcases hfibers r with hsame | ⟨m', hm', hr, hnew⟩
    · by_cases heq : r = m.receiptHandle
      · right
        refine ⟨m, List.mem_cons_self, heq.symm, ?_⟩
        rw [hsame, heq]
        exact Function.update_self ..
      · left
        rw [hsame]
        exact Function.update_of_ne heq ..
    · exact Or.inr ⟨m', List.mem_cons_of_mem m hm', hr, hnew⟩

theorem tracked_receive (hl : Tracked kind l) {messages : List Message}
    (hnew : ∀ m ∈ messages, l.fibers m.receiptHandle = none) :
    Tracked kind (l.receive messages) := by
  have hfold : l.receive messages = messages.foldl
      (fun l m => l.setFiber ⟨m, .start, false, false⟩)
      { l with numFibers := l.numFibers + messages.length } := rfl
  obtain ⟨halive, hdeleting, hfibers⟩ := foldl_setFiber messages _ hfold
  have hcases : ∀ r, ∀ f ∈ (l.receive messages).fibers r, f ∈ l.fibers r ∨
      f.msg.receiptHandle = r ∧ f.pc = .start ∧ f.called = false := by
    intro r f hf
    rcases hfibers r with hsame | ⟨m, -, hr, hfiber⟩
    · left
      rw [hsame] at hf
      exact hf
    · right
      rw [← Option.some.inj (hfiber.symm.trans hf)]
      exact ⟨hr, rfl, rfl⟩
  refine ⟨?_, ?_, ?_, ?_⟩
  · intro r hr
    rw [Listener.receipts, halive] at hr
    rw [hdeleting]
    refine (hl.held r hr).imp_right ?_
    rintro ⟨f, hf, hholds⟩
    -- a receipt in the set is not new
    rcases hfibers r with hsame | ⟨m, hm, rfl, -⟩
    · refine ⟨f, ?_, hholds⟩
      rw [hsame]
      exact hf
    · rw [hnew m hm] at hf
      exact absurd hf (Option.not_mem_none f)
  · intro r f hf
    rcases hcases r f hf with hold | ⟨hr, -⟩
    · exact hl.key r f hold
    · exact hr
  · intro r f hf hpc
    rcases hcases r f hf with hold | ⟨-, -, hcalled⟩
    · exact hl.start r f hold hpc
    · exact hcalled
  · intro r f hf hpc hkind
    rcases hcases r f hf with hold | ⟨-, hstart, -⟩
    · exact hl.returned r f hold hpc hkind
    · exact FiberPc.noConfusion (hstart.symm.trans hpc)

/-! ## Runs -/

/-- Every step with no exception but a handled one. -/
theorem tracked_next (hl : Tracked kind l) {a : SqsAction} (hhandled : Handled l a)
    (ha : l.enabled kind a) : Tracked kind (l.next kind a) := by
  cases a with
  | receive messages => exact tracked_receive hl ha.2
  | deleted receipt success => exact tracked_deleted hl receipt
  | setVisibilityTimeout => exact ⟨hl.held, hl.key, hl.start, hl.returned⟩
  | fiber receipt a =>
    obtain ⟨f, hf, hstep⟩ := ha
    simp only [Listener.next, Option.mem_def.mp hf]
    cases a with
    | addToKeepAlive => exact tracked_addToKeepAlive hl hf hstep
    | handlerReturns success => exact tracked_handlerReturns hl hf success
    | handlerThrows exc => exact tracked_handlerThrows hl hf fun hexc => hhandled hexc f hf
    | afterHandler => exact tracked_afterHandler hl hf
    | resend sent => exact tracked_resend hl hf fun hsent => hhandled hsent f hf
    | finish => exact tracked_finish hl hf hstep
    | del deleteIt timeout => exact tracked_del hl hf hstep.2 deleteIt timeout

/-- In every run in which all exceptions are handled, a message whose processing and delete
requests have ended is no longer in the keep-alive set. -/
theorem released (hl : (sqsMachine kind).Reachable Handled l) : Released l := by
  have htracked : Tracked kind l := by
    refine hl.invariant ?_ ?_
    · have hnone : ∀ r, ∀ f ∈ (sqsMachine kind).init.fibers r, False :=
        fun r f hf => Option.not_mem_none f hf
      exact ⟨fun r hr => absurd hr List.not_mem_nil, fun r f hf => (hnone r f hf).elim,
        fun r f hf => (hnone r f hf).elim, fun r f hf => (hnone r f hf).elim⟩
    · intro l a htracked hhandled ha
      exact tracked_next htracked hhandled ha
  exact released_of_tracked htracked

instance instDecidableHandled (l : Listener) (a : SqsAction) : Decidable (Handled l a) :=
  match a with
  | .fiber r (.handlerThrows exc) =>
    inferInstanceAs (Decidable (exc ≠ .awsThrottleError → ∀ f ∈ l.fibers r, f.called = true))
  | .fiber r (.resend sent) =>
    inferInstanceAs (Decidable (sent = false → ∀ f ∈ l.fibers r, f.called = true))
  | .fiber _ .addToKeepAlive | .fiber _ (.handlerReturns _) | .fiber _ .afterHandler =>
    isTrue trivial
  | .fiber _ .finish | .fiber _ (.del _ _) => isTrue trivial
  | .receive _ | .deleted _ _ | .setVisibilityTimeout => isTrue trivial

/-! ## Two messages -/

def firstMessage : Message := ⟨[1], [10], ascii "a"⟩
def secondMessage : Message := ⟨[2], [20], ascii "b"⟩

/-- One handler accepts its message, the other throws `aws_throttle_error`; the second delete
request fails. -/
theorem released_twoMessages : ∃ l, Released l ∧ Ended l [1] ∧ Ended l [2] ∧ l.receipts = [] := by
  have hreplay : ((sqsMachine .processMsg).replay Handled
      [.receive [firstMessage, secondMessage], .fiber [1] .addToKeepAlive,
        .fiber [2] .addToKeepAlive, .setVisibilityTimeout, .fiber [1] (.handlerReturns true),
        .fiber [2] (.handlerThrows .awsThrottleError), .fiber [1] .afterHandler,
        .fiber [2] (.resend true), .deleted [1] true, .fiber [1] .finish, .deleted [2] false,
        .fiber [2] .finish]
      (sqsMachine .processMsg).init).any
        (fun l => decide (l.fibers [1] = some ⟨firstMessage, .done, false, false⟩ ∧
          l.fibers [2] = some ⟨secondMessage, .done, false, false⟩ ∧ l.deleting = [] ∧
          l.receipts = [])) = true := by decide +kernel
  obtain ⟨l, hl, hp⟩ := Machine.reachable_of_replay hreplay
  obtain ⟨hfirst, hsecond, hdeleting, hreceipts⟩ := of_decide_eq_true hp
  have hnone : ∀ r, r ∉ l.deleting := by
    intro r
    rw [hdeleting]
    exact List.not_mem_nil
  have hover : ∀ m, MessageFiber.Over ⟨m, .done, false, false⟩ :=
    fun _ => ⟨Or.inr (Or.inl rfl), fun h => absurd h Bool.noConfusion⟩
  exact ⟨l, released hl, ⟨⟨_, hfirst, hover _⟩, hnone _⟩, ⟨⟨_, hsecond, hover _⟩, hnone _⟩,
    hreceipts⟩

/-- A handler that throws a `std::exception` leaves its message in the keep-alive set, and the
sweep goes on to extend its visibility. -/
theorem not_released_exception :
    ∃ l, (sqsMachine .processMsg).Reachable Machine.anyStep l ∧ ¬ Released l := by
  have hreplay : ((sqsMachine .processMsg).replay Machine.anyStep
      [.receive [firstMessage], .fiber [1] .addToKeepAlive,
        .fiber [1] (.handlerThrows .stdException), .fiber [1] .finish]
      (sqsMachine .processMsg).init).any
        (fun l => decide (l.fibers [1] = some ⟨firstMessage, .done, false, false⟩ ∧
          l.deleting = [] ∧ l.receipts = [[1]])) = true := by decide +kernel
  obtain ⟨l, hl, hp⟩ := Machine.reachable_of_replay hreplay
  obtain ⟨hfiber, hdeleting, hreceipts⟩ := of_decide_eq_true hp
  refine ⟨l, hl, ?_⟩
  intro hreleased
  have hended : Ended l [1] := by
    refine ⟨⟨_, hfiber, Or.inr (Or.inl rfl), fun h => absurd h Bool.noConfusion⟩, ?_⟩
    rw [hdeleting]
    exact List.not_mem_nil
  apply (hreleased [1] hended).1
  rw [hreceipts]
  exact List.mem_singleton.mpr rfl

end Anon.Sqs
