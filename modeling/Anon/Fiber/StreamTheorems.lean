import Anon.Fiber.Stream

/-!
# What is written is what is read

* `Alone`: what holds of a pipe by itself, whatever the other end does.
* `EndInv`: a pipe, the other end and the two directions between them.
* `stream_transports`: what two pipes do in every run.
-/

namespace Anon.Fiber.Stream

variable {p q : Pipe} {out inp : Channel} {broken : Bool} {bufs : Bool → Buffers}
  {s : StreamState} {a : Bool} {n count : ℕ} {buf : Bytes}

def Write.Fits (w : Write) : Prop :=
  w.totalBytesWritten ≤ w.buf.length ∧ (w.thrown = false → w.totalBytesWritten = w.buf.length)

/-- The control of a pipe. -/
structure Alone (p : Pipe) : Prop where
  closed : p.closed = true → p.place = .outside
  current : ∀ buf total, p.place.call = some (.write buf total) → total ≤ buf.length
  records : ∀ w ∈ p.writes, w.Fits
  registered : p.closed = false → p.attached = p.registered
  armed : p.armed = true → ∃ call, p.place = .suspended call
  event : p.event ≠ none → p.armed = false ∧ ∃ call, p.place = .suspended call
  asleep : ∀ call, p.place = .suspended call → p.armed = true ∨ p.event ≠ none

structure EndInv (p q : Pipe) (out inp : Channel) (broken : Bool) : Prop where
  alone : Alone p
  stream : p.sent = q.received ++ out.arrived ++ out.transit
  finished : out.finished = true → p.closed = true ∧ out.transit = []
  hangup : p.remoteHangup = true ∨ p.event = some true → inp.finished = true ∨ broken = true
  ended : p.sawEnd = true → inp.finished = true ∧ inp.arrived = [] ∨ broken = true
  threw : p.threw = true → q.closed = true ∨ broken = true

/-- The invariant. -/
structure Inv (s : StreamState) : Prop where
  ends : ∀ a, EndInv (s.pipe a) (s.pipe !a) (s.channel a) (s.channel !a) s.broken
  fault : s.fault = false

/-! ## Changes of a pipe -/

theorem Alone.quiet (h : Alone p) (hplace : ∀ call, p.place ≠ .suspended call) :
    p.armed = false ∧ p.event = none := by
  constructor
  · by_contra harmed
    obtain ⟨call, hcall⟩ := h.armed (by simpa using harmed)
    exact hplace call hcall
  · by_contra hevent
    obtain ⟨-, call, hcall⟩ := h.event hevent
    exact hplace call hcall

/-- The fiber goes on, and no event is involved. -/
theorem Alone.move (h : Alone p) {place : Place} (hplace : ∀ call, p.place ≠ .suspended call)
    (hplace' : ∀ call, place ≠ .suspended call) (hopen : p.closed = false)
    (hfits : ∀ buf total, place.call = some (.write buf total) → total ≤ buf.length) :
    Alone { p with place := place } := by
  obtain ⟨harmed, hevent⟩ := h.quiet hplace
  refine ⟨fun hclosed => ?_, hfits, h.records, h.registered, fun harmed' => ?_, fun hevent' => ?_,
    fun call hcall => absurd hcall (hplace' call)⟩
  · exact absurd (hopen.symm.trans hclosed) (by decide)
  · exact absurd (harmed.symm.trans harmed') (by decide)
  · exact absurd hevent hevent'

theorem Pipe.sent_leave (p : Pipe) (thrown : Bool) : (p.leave thrown).sent = p.sent := by
  unfold Pipe.sent Pipe.leave
  cases hcall : p.place.call with
  | none => simp [Place.call]
  | some call =>
    cases call with
    | read count => simp [Place.call]
    | write buf total => simp [Place.call, Write.taken]

/-- A call ends. -/
theorem Alone.leave (h : Alone p) (thrown : Bool) (hplace : ∀ call, p.place ≠ .suspended call)
    (hdone : ∀ buf total, p.place.call = some (.write buf total) → thrown = false →
      buf.length ≤ total) :
    Alone (p.leave thrown) := by
  obtain ⟨harmed, hevent⟩ := h.quiet hplace
  refine ⟨fun _ => rfl, fun buf total hcall => ?_, fun w hw => ?_, h.registered,
    fun harmed' => absurd (harmed.symm.trans harmed') (by decide),
    fun hevent' => absurd hevent hevent', fun call hcall => ?_⟩
  · exact absurd hcall (by simp [Pipe.leave, Place.call])
  · cases hcall : p.place.call with
    | none =>
      simp only [Pipe.leave, hcall] at hw
      exact h.records w hw
    | some call =>
      cases call with
      | read count =>
        simp only [Pipe.leave, hcall] at hw
        exact h.records w hw
      | write buf total =>
        simp only [Pipe.leave, hcall, List.mem_append, List.mem_singleton] at hw
        rcases hw with hw | rfl
        · exact h.records w hw
        · have hle := h.current buf total hcall
          exact ⟨hle, fun hret => le_antisymm hle (hdone buf total hcall hret)⟩
  · exact absurd hcall (by simp [Pipe.leave])

theorem Alone.history (h : Alone p) (received : Bytes) (sawEnd : Bool) :
    Alone { p with received := received, sawEnd := sawEnd } :=
  ⟨h.closed, h.current, h.records, h.registered, h.armed, h.event, h.asleep⟩

/-- The other end does something that this one does not see. -/
theorem EndInv.congr_peer {q' : Pipe} (h : EndInv p q out inp broken)
    (hreceived : q'.received = q.received) (hclosed : q.closed = true → q'.closed = true) :
    EndInv p q' out inp broken :=
  ⟨h.alone, hreceived ▸ h.stream, h.finished, h.hangup, h.ended,
    fun ht => (h.threw ht).imp_left hclosed⟩

/-- A call of an end is over. -/
theorem EndInv.leave (h : EndInv p q out inp broken) {thrown : Bool}
    (hplace : ∀ call, p.place ≠ .suspended call)
    (hdone : ∀ buf total, p.place.call = some (.write buf total) → thrown = false →
      buf.length ≤ total)
    (hthrown : thrown = true → q.closed = true ∨ broken = true) :
    EndInv (p.leave thrown) q out inp broken := by
  refine ⟨h.alone.leave thrown hplace hdone, ?_, h.finished, h.hangup, h.ended, fun ht => ?_⟩
  · rw [Pipe.sent_leave]
    exact h.stream
  · rcases Bool.or_eq_true _ _ ▸ ht with ht | ht
    · exact h.threw ht
    · exact hthrown ht

/-- The fiber of an end goes on, and nothing was written or read. -/
theorem EndInv.move (h : EndInv p q out inp broken) {place : Place}
    (hplace : ∀ call, p.place ≠ .suspended call) (hplace' : ∀ call, place ≠ .suspended call)
    (hopen : p.closed = false)
    (hfits : ∀ buf total, place.call = some (.write buf total) → total ≤ buf.length)
    (hsent : ({ p with place := place } : Pipe).sent = p.sent) :
    EndInv { p with place := place } q out inp broken :=
  ⟨h.alone.move hplace hplace' hopen hfits, hsent.trans h.stream, h.finished, h.hangup, h.ended,
    h.threw⟩

/-- The connection is reset. -/
theorem EndInv.reset (h : EndInv p q out inp broken) : EndInv p q out inp true :=
  ⟨h.alone, h.stream, h.finished, fun _ => .inr rfl, fun _ => .inr rfl, fun _ => .inr rfl⟩

theorem not_self (a : Bool) : (!a) ≠ a := by cases a <;> decide

/-- A step that changes one pipe. -/
theorem Inv.setPipe (h : Inv s)
    (hme : EndInv p (s.pipe !a) (s.channel a) (s.channel !a) s.broken)
    (hreceived : p.received = (s.pipe a).received)
    (hclosed : (s.pipe a).closed = true → p.closed = true) : Inv (s.setPipe a p) := by
  refine ⟨fun b => ?_, h.fault⟩
  have hself : (s.setPipe a p).pipe a = p := Function.update_self _ _ _
  have hother : (s.setPipe a p).pipe (!a) = s.pipe !a := Function.update_of_ne (not_self a) _ _
  rcases Bool.eq_or_eq_not b a with rfl | rfl
  · rw [hself, hother]
    exact hme
  · have hpeer := h.ends !a
    rw [Bool.not_not] at hpeer ⊢
    rw [hself, hother]
    exact hpeer.congr_peer hreceived hclosed

/-- What is to be shown of a state, from the view of one end. -/
theorem Inv.of_ends {s' : StreamState} (a : Bool)
    (hme : EndInv (s'.pipe a) (s'.pipe !a) (s'.channel a) (s'.channel !a) s'.broken)
    (hpeer : EndInv (s'.pipe !a) (s'.pipe a) (s'.channel !a) (s'.channel a) s'.broken)
    (hfault : s'.fault = false) : Inv s' := by
  refine ⟨fun b => ?_, hfault⟩
  rcases Bool.eq_or_eq_not b a with rfl | rfl
  · exact hme
  · rw [Bool.not_not]
    exact hpeer

/-- A step that changes a direction. -/
theorem Inv.setChannel {c : Channel} (h : Inv s)
    (hme : EndInv (s.pipe a) (s.pipe !a) c (s.channel !a) s.broken)
    (hpeer : EndInv (s.pipe !a) (s.pipe a) (s.channel !a) c s.broken) :
    Inv (s.setChannel a c) := by
  have hself : (s.setChannel a c).channel a = c := Function.update_self _ _ _
  have hother : (s.setChannel a c).channel (!a) = s.channel !a :=
    Function.update_of_ne (not_self a) _ _
  refine Inv.of_ends a ?_ ?_ h.fault
  · rw [hself, hother]
    exact hme
  · rw [hself, hother]
    exact hpeer

/-- A step that changes a pipe and the direction in which it reads. -/
theorem Inv.setInput {c : Channel} (h : Inv s)
    (hme : EndInv p (s.pipe !a) (s.channel a) c s.broken)
    (hpeer : EndInv (s.pipe !a) p c (s.channel a) s.broken) :
    Inv ((s.setPipe a p).setChannel (!a) c) := by
  have hpipe : ((s.setPipe a p).setChannel (!a) c).pipe a = p := Function.update_self _ _ _
  have hpipe' : ((s.setPipe a p).setChannel (!a) c).pipe (!a) = s.pipe !a :=
    Function.update_of_ne (not_self a) _ _
  have hself : ((s.setPipe a p).setChannel (!a) c).channel (!a) = c := Function.update_self _ _ _
  have hother : ((s.setPipe a p).setChannel (!a) c).channel a = s.channel a :=
    Function.update_of_ne (not_self a).symm _ _
  refine Inv.of_ends a ?_ ?_ h.fault
  · rw [hpipe, hpipe', hself, hother]
    exact hme
  · rw [hpipe, hpipe', hself, hother]
    exact hpeer

/-- A step that changes a pipe and the direction in which it writes. -/
theorem Inv.setOutput {c : Channel} (h : Inv s)
    (hme : EndInv p (s.pipe !a) c (s.channel !a) s.broken)
    (hpeer : EndInv (s.pipe !a) p (s.channel !a) c s.broken) :
    Inv ((s.setPipe a p).setChannel a c) := by
  have hpipe : ((s.setPipe a p).setChannel a c).pipe a = p := Function.update_self _ _ _
  have hpipe' : ((s.setPipe a p).setChannel a c).pipe (!a) = s.pipe !a :=
    Function.update_of_ne (not_self a) _ _
  have hself : ((s.setPipe a p).setChannel a c).channel a = c := Function.update_self _ _ _
  have hother : ((s.setPipe a p).setChannel a c).channel (!a) = s.channel !a :=
    Function.update_of_ne (not_self a) _ _
  refine Inv.of_ends a ?_ ?_ h.fault
  · rw [hpipe, hpipe', hself, hother]
    exact hme
  · rw [hpipe, hpipe', hself, hother]
    exact hpeer

/-! ## Each step -/

theorem Place.reads_iff {place : Place} {r : ℕ → Prop} :
    place.Reads r ↔ ∃ count, place = .running (.read count) ∧ r count := by
  cases place with
  | running call => cases call <;> simp [Place.Reads]
  | _ => simp [Place.Reads]

theorem Place.writes_iff {place : Place} {r : Bytes → ℕ → Prop} :
    place.Writes r ↔ ∃ buf total, place = .running (.write buf total) ∧ r buf total := by
  cases place with
  | running call => cases call <;> simp [Place.Writes]
  | _ => simp [Place.Writes]

theorem Place.sleeps_iff {place : Place} {r : Call → Prop} :
    place.Sleeps r ↔ ∃ call, place = .suspended call ∧ r call := by
  cases place <;> simp [Place.Sleeps]

/-- A fiber that is in a function of the pipe has not destroyed it. -/
theorem Alone.isOpen (h : Alone p) (hplace : p.place ≠ .outside) : p.closed = false := by
  by_contra hclosed
  exact hplace (h.closed (by simpa using hclosed))

theorem inv_callRead (h : Inv s) (hout : (s.pipe a).place = .outside)
    (hopen : (s.pipe a).closed = false) : Inv (s.next (.callRead a count)) := by
  refine h.setPipe ((h.ends a).move ?_ ?_ hopen ?_ ?_) rfl id
  · rw [hout]
    exact fun _ => Place.noConfusion
  · exact fun _ => Place.noConfusion
  · simp [Place.call]
  · simp [Pipe.sent, hout, Place.call]

theorem inv_callWrite (h : Inv s) (hout : (s.pipe a).place = .outside)
    (hopen : (s.pipe a).closed = false) : Inv (s.next (.callWrite a buf)) := by
  refine h.setPipe ((h.ends a).move ?_ ?_ hopen ?_ ?_) rfl id
  · rw [hout]
    exact fun _ => Place.noConfusion
  · exact fun _ => Place.noConfusion
  · intro buf' total hcall
    simp only [Place.call, Option.some.injEq, Call.write.injEq] at hcall
    omega
  · simp [Pipe.sent, hout, Place.call]

theorem inv_close (h : Inv s) (hout : (s.pipe a).place = .outside) :
    Inv (s.next (.close a)) := by
  have hend := h.ends a
  have halone := hend.alone
  obtain ⟨-, hevent⟩ := halone.quiet (by rw [hout]; exact fun _ => Place.noConfusion)
  refine h.setPipe ⟨?_, hend.stream, fun hf => ⟨rfl, (hend.finished hf).2⟩, hend.hangup,
    hend.ended, hend.threw⟩ rfl fun _ => rfl
  refine ⟨fun _ => hout, halone.current, halone.records, fun hopen => ?_, fun harmed => ?_,
    fun hevent' => absurd hevent hevent', fun call hcall => ?_⟩
  · exact absurd hopen (by simp)
  · exact absurd harmed (by simp)
  · exact absurd (hout.symm.trans hcall) Place.noConfusion

/-- A call ends with a return or an exception, and nothing else happens. -/
theorem inv_leave (h : Inv s) {thrown : Bool} {call : Call}
    (hplace : (s.pipe a).place = .running call)
    (hdone : ∀ buf total, call = .write buf total → thrown = false → buf.length ≤ total)
    (hthrown : thrown = true → (s.pipe !a).closed = true ∨ s.broken = true) :
    Inv (s.setPipe a ((s.pipe a).leave thrown)) := by
  refine h.setPipe ((h.ends a).leave ?_ (fun buf total hcall hret => ?_) hthrown) rfl id
  · rw [hplace]
    exact fun _ => Place.noConfusion
  · rw [hplace] at hcall
    exact hdone buf total (Option.some.inj hcall) hret

/-- The other end has closed where it is known to be finished. -/
theorem Inv.peer_closed (h : Inv s)
    (hend : (s.channel !a).finished = true ∨ s.broken = true) :
    (s.pipe !a).closed = true ∨ s.broken = true :=
  hend.imp_left fun hf => ((h.ends !a).finished hf).1

theorem inv_read (h : Inv s)
    (hplace : (s.pipe a).place = .running (.read count)) : Inv (s.next (.read a n)) := by
  have hend := h.ends a
  have hpeer := h.ends !a
  rw [Bool.not_not] at hpeer
  have hleave : EndInv ((s.pipe a).leave false) (s.pipe !a) (s.channel a) (s.channel !a)
      s.broken := by
    refine hend.leave ?_ (fun buf total hcall => ?_) (fun hthrown => absurd hthrown (by decide))
    · rw [hplace]
      exact fun _ => Place.noConfusion
    · rw [hplace] at hcall
      exact absurd hcall (by simp [Place.call])
  refine h.setInput ⟨hleave.alone.history _ _, hleave.stream, hleave.finished, hleave.hangup,
    fun hended => ?_, hleave.threw⟩
    ⟨hpeer.alone, ?_, hpeer.finished, hpeer.hangup, hpeer.ended, hpeer.threw⟩
  · refine (hend.ended hended).imp_left fun hfin => ⟨hfin.1, ?_⟩
    rw [hfin.2]
    exact List.drop_nil
  · rw [hpeer.stream]
    show _ = (s.pipe a).received ++ _ ++ _ ++ _
    rw [List.append_assoc _ (List.take n _), List.take_append_drop]

theorem inv_readEnd (h : Inv s) (hplace : (s.pipe a).place = .running (.read count))
    (hend : s.AtEnd a) : Inv (s.next (.readEnd a)) := by
  have hleave : EndInv ((s.pipe a).leave true) (s.pipe !a) (s.channel a) (s.channel !a)
      s.broken := by
    refine (h.ends a).leave ?_ (fun _ _ _ hret => absurd hret (by decide))
      fun _ => h.peer_closed hend.2
    rw [hplace]
    exact fun _ => Place.noConfusion
  refine h.setPipe ⟨hleave.alone.history _ true, hleave.stream, hleave.finished, hleave.hangup,
    fun _ => ?_, hleave.threw⟩ rfl id
  exact hend.2.imp_left fun hfin => ⟨hfin, hend.1⟩

/-- A fiber of an open pipe switches to its parent. -/
theorem inv_sleep (h : Inv s) {call : Call} (hplace : (s.pipe a).place = .running call) :
    Inv (s.sleep a) := by
  have hend := h.ends a
  have hnext : s.sleep a = s.setPipe a { s.pipe a with place := .switched call } := by
    simp only [StreamState.sleep, hplace]
  have hrunning : ∀ call, (s.pipe a).place ≠ .suspended call := by
    rw [hplace]
    exact fun _ => Place.noConfusion
  rw [hnext]
  refine h.setPipe (hend.move hrunning (fun _ => Place.noConfusion) ?_ (fun buf total hcall => ?_)
    ?_) rfl id
  · exact hend.alone.isOpen (by rw [hplace]; exact Place.noConfusion)
  · exact hend.alone.current buf total (by rw [hplace]; exact hcall)
  · simp [Pipe.sent, hplace, Place.call]

theorem inv_readEagain (h : Inv s) (hplace : (s.pipe a).place = .running (.read count)) :
    Inv (s.next (.readEagain a)) := by
  show Inv (if (s.pipe a).remoteHangup then s.setPipe a ((s.pipe a).leave true) else s.sleep a)
  by_cases hhangup : (s.pipe a).remoteHangup = true
  · rw [if_pos hhangup]
    exact inv_leave h hplace (fun _ _ _ hret => absurd hret (by decide))
      fun _ => h.peer_closed ((h.ends a).hangup (.inl hhangup))
  · rw [if_neg hhangup]
    exact inv_sleep h hplace

theorem inv_write {total : ℕ} (h : Inv s)
    (hplace : (s.pipe a).place = .running (.write buf total)) (hle : total + n ≤ buf.length) :
    Inv (s.next (.write a n)) := by
  have hend := h.ends a
  have hpeer := h.ends !a
  rw [Bool.not_not] at hpeer
  have hopen := hend.alone.isOpen (by rw [hplace]; exact Place.noConfusion)
  have hrunning : ∀ call, (s.pipe a).place ≠ .suspended call := by
    rw [hplace]
    exact fun _ => Place.noConfusion
  have hunfinished : (s.channel a).finished = true → False := fun hf =>
    absurd (hopen.symm.trans (hend.finished hf).1) (by decide)
  have hsent : (s.pipe a).sent = ((s.pipe a).writes.map Write.taken).flatten ++ buf.take total := by
    simp [Pipe.sent, hplace, Place.call]
  have hstream := hend.stream
  simp only [StreamState.next, hplace]
  refine h.setOutput ⟨hend.alone.move hrunning (fun _ => Place.noConfusion) hopen
    (fun buf' total' hcall => ?_), ?_, fun hf => (hunfinished hf).elim, hend.hangup, hend.ended,
    hend.threw⟩ ⟨hpeer.alone, hpeer.stream, hpeer.finished, hpeer.hangup, hpeer.ended, hpeer.threw⟩
  · simp only [Place.call, Option.some.injEq, Call.write.injEq] at hcall
    obtain ⟨rfl, rfl⟩ := hcall
    exact hle
  · rw [hsent] at hstream
    show _ ++ buf.take (total + n) = _ ++ ((s.channel a).transit ++ (buf.drop total).take n)
    rw [List.take_add, ← List.append_assoc, hstream, List.append_assoc _ (s.channel a).transit]

theorem inv_epollCtl (h : Inv s) {call : Call} (hplace : (s.pipe a).place = .switched call) :
    Inv (s.next (.epollCtl a)) := by
  have hend := h.ends a
  have halone := hend.alone
  have hopen := halone.isOpen (by rw [hplace]; exact Place.noConfusion)
  obtain ⟨-, hevent⟩ := halone.quiet (by rw [hplace]; exact fun _ => Place.noConfusion)
  simp only [StreamState.next, hplace, if_pos (halone.registered hopen)]
  refine h.setPipe ⟨⟨fun hclosed => ?_, fun buf total hcall => ?_, halone.records, fun _ => rfl,
    fun _ => ⟨call, rfl⟩, fun hevent' => absurd hevent hevent', fun _ _ => .inl rfl⟩, ?_,
    hend.finished, hend.hangup, hend.ended, hend.threw⟩ rfl id
  · exact absurd (hopen.symm.trans hclosed) (by decide)
  · exact halone.current buf total (by rw [hplace]; exact hcall)
  · rw [← hend.stream]
    simp [Pipe.sent, hplace, Place.call]

theorem inv_epollWait (h : Inv s) (harmed : (s.pipe a).armed = true) :
    Inv (s.next (.epollWait a)) := by
  have hend := h.ends a
  have halone := hend.alone
  refine h.setPipe ⟨⟨halone.closed, halone.current, halone.records, halone.registered,
    fun harmed' => absurd harmed' (by simp), fun _ => ⟨rfl, halone.armed harmed⟩,
    fun _ _ => .inr (by simp)⟩, hend.stream, hend.finished, fun hhangup => ?_, hend.ended,
    hend.threw⟩ rfl id
  rcases hhangup with hhangup | hhangup
  · exact hend.hangup (.inl hhangup)
  · exact Bool.or_eq_true _ _ ▸ Option.some.inj hhangup

theorem inv_ioAvail (h : Inv s) (hevent : (s.pipe a).event ≠ none) :
    Inv (s.next (.ioAvail a)) := by
  have hend := h.ends a
  have halone := hend.alone
  obtain ⟨harmed, call, hplace⟩ := halone.event hevent
  obtain ⟨rdhup, hrdhup⟩ := Option.ne_none_iff_exists'.mp hevent
  simp only [StreamState.next, hrdhup, hplace]
  refine h.setPipe ⟨⟨fun hclosed => ?_, fun buf total hcall => ?_, halone.records,
    halone.registered, fun harmed' => ?_, fun hnone => absurd rfl hnone,
    fun _ hcall => absurd hcall Place.noConfusion⟩, ?_, hend.finished, fun hhangup => ?_,
    hend.ended, hend.threw⟩ rfl id
  · exact absurd (hplace.symm.trans (halone.closed hclosed)) Place.noConfusion
  · exact halone.current buf total (by rw [hplace]; exact hcall)
  · exact absurd (harmed.symm.trans harmed') (by decide)
  · rw [← hend.stream]
    simp [Pipe.sent, hplace, Place.call]
  · rcases hhangup with hhangup | hhangup
    · rcases Bool.or_eq_true _ _ ▸ hhangup with hold | hnew
      · exact hend.hangup (.inl hold)
      · exact hend.hangup (.inr (hnew ▸ hrdhup))
    · exact absurd hhangup (by simp)

theorem Inv.broke (h : Inv s) : Inv { s with broken := true } :=
  ⟨fun a => (h.ends a).reset, h.fault⟩

theorem inv_arrive (h : Inv s) (hpos : 0 < n) (hle : n ≤ (s.channel a).transit.length) :
    Inv (s.next (.arrive a n)) := by
  have hend := h.ends a
  have hpeer := h.ends !a
  rw [Bool.not_not] at hpeer
  have hunfinished : (s.channel a).finished = true → False := fun hf => by
    rw [(hend.finished hf).2, List.length_nil] at hle
    omega
  show Inv (if (s.pipe !a).closed then { s with broken := true } else s.setChannel a _)
  by_cases hclosed : (s.pipe !a).closed = true
  · rw [if_pos hclosed]
    exact h.broke
  · rw [if_neg hclosed]
    refine h.setChannel ⟨hend.alone, ?_, fun hf => (hunfinished hf).elim, hend.hangup, hend.ended,
      hend.threw⟩ ⟨hpeer.alone, hpeer.stream, hpeer.finished, hpeer.hangup, fun hended => ?_,
      hpeer.threw⟩
    · rw [hend.stream]
      show _ = _ ++ (_ ++ (s.channel a).transit.take n) ++ (s.channel a).transit.drop n
      rw [List.append_assoc, List.append_assoc, List.append_assoc, List.take_append_drop]
    · exact (hpeer.ended hended).imp_left fun hfin => (hunfinished hfin.1).elim

theorem inv_finish (h : Inv s) (hclosed : (s.pipe a).closed = true)
    (hempty : (s.channel a).transit = []) : Inv (s.next (.finish a)) := by
  have hend := h.ends a
  have hpeer := h.ends !a
  rw [Bool.not_not] at hpeer
  exact h.setChannel ⟨hend.alone, hend.stream, fun _ => ⟨hclosed, hempty⟩, hend.hangup, hend.ended,
    hend.threw⟩ ⟨hpeer.alone, hpeer.stream, hpeer.finished,
    fun hhangup => (hpeer.hangup hhangup).imp_left fun _ => rfl,
    fun hended => (hpeer.ended hended).imp_left fun hfin => ⟨rfl, hfin.2⟩, hpeer.threw⟩

theorem inv_next {x : StreamAction} (h : Inv s) (hen : s.enabled bufs x) : Inv (s.next x) := by
  cases x with
  | callRead a count => exact inv_callRead h hen.1 hen.2
  | callWrite a buf => exact inv_callWrite h hen.1 hen.2
  | close a => exact inv_close h hen.1
  | read a n =>
    obtain ⟨count, hplace, -⟩ := Place.reads_iff.mp hen
    exact inv_read h hplace
  | readEnd a =>
    obtain ⟨count, hplace, -, hend⟩ := Place.reads_iff.mp hen
    exact inv_readEnd h hplace hend
  | readEagain a =>
    obtain ⟨count, hplace, -⟩ := Place.reads_iff.mp hen
    exact inv_readEagain h hplace
  | readError a =>
    obtain ⟨count, hplace, hbroken⟩ := Place.reads_iff.mp hen
    exact inv_leave h hplace (fun _ _ _ hret => absurd hret (by decide)) fun _ => .inr hbroken
  | writeReturn a =>
    obtain ⟨buf, total, hplace, hle⟩ := Place.writes_iff.mp hen
    refine inv_leave h hplace (fun buf' total' hcall _ => ?_) fun hret => absurd hret (by decide)
    obtain ⟨rfl, rfl⟩ := Call.write.inj hcall
    exact hle
  | writeHangup a =>
    obtain ⟨buf, total, hplace, -, hhangup⟩ := Place.writes_iff.mp hen
    exact inv_leave h hplace (fun _ _ _ hret => absurd hret (by decide))
      fun _ => h.peer_closed ((h.ends a).hangup (.inl hhangup))
  | write a n =>
    obtain ⟨buf, total, hplace, -, -, -, hle, -⟩ := Place.writes_iff.mp hen
    exact inv_write h hplace hle
  | writeEagain a =>
    obtain ⟨buf, total, hplace, -⟩ := Place.writes_iff.mp hen
    exact inv_sleep h hplace
  | writeError a =>
    obtain ⟨buf, total, hplace, -, -, hclosed⟩ := Place.writes_iff.mp hen
    exact inv_leave h hplace (fun _ _ _ hret => absurd hret (by decide)) fun _ => hclosed
  | epollCtl a =>
    cases hplace : (s.pipe a).place with
    | switched call => exact inv_epollCtl h hplace
    | _ => exact absurd hen (by simp [StreamState.enabled, Place.isSwitched, hplace])
  | epollWait a => exact inv_epollWait h hen.1
  | ioAvail a => exact inv_ioAvail h hen
  | arrive a n => exact inv_arrive h hen.2.1 hen.2.2.1
  | finish a => exact inv_finish h hen.1 hen.2.1
  | reset => exact h.broke

theorem inv_init : Inv (streamMachine bufs).init := by
  refine ⟨fun a => ⟨⟨fun _ => rfl, ?_, ?_, fun _ => rfl, ?_, ?_, ?_⟩, rfl, ?_, ?_, ?_, ?_⟩, rfl⟩ <;>
    simp [streamMachine, Place.call]

/-! ## At rest -/

/-- A fiber that runs can go on. -/
theorem StreamState.not_running (hrest : s.AtRest bufs) {call : Call} :
    (s.pipe a).place ≠ .running call := by
  intro hplace
  cases call with
  | read count =>
    by_cases hcount : count = 0
    · refine hrest (.read a 0) ?_
      exact Place.reads_iff.mpr ⟨count, hplace, Nat.zero_le _, Nat.zero_le _, fun _ => hcount⟩
    · by_cases hempty : (s.channel !a).arrived = []
      · by_cases hend : (s.channel !a).finished = true ∨ s.broken = true
        · exact hrest (.readEnd a) (Place.reads_iff.mpr ⟨count, hplace, hcount, hempty, hend⟩)
        · obtain ⟨hfin, hbroken⟩ := not_or.mp hend
          exact hrest (.readEagain a) (Place.reads_iff.mpr ⟨count, hplace, hcount, hempty,
            by simpa using hfin, by simpa using hbroken⟩)
      · have hlength := List.length_pos_of_ne_nil hempty
        exact hrest (.read a 1) (Place.reads_iff.mpr ⟨count, hplace, by omega, by omega,
          fun h => absurd h (by decide)⟩)
  | write buf total =>
    by_cases hlt : total < buf.length
    · cases hhangup : (s.pipe a).remoteHangup with
      | true =>
        exact hrest (.writeHangup a) (Place.writes_iff.mpr ⟨buf, total, hplace, hlt, hhangup⟩)
      | false =>
        cases hbroken : s.broken with
        | true =>
          exact hrest (.writeError a) (Place.writes_iff.mpr ⟨buf, total, hplace, hlt, hhangup,
            .inr hbroken⟩)
        | false =>
          by_cases hroom : (s.channel a).transit.length < (bufs a).sndbuf
          · exact hrest (.write a 1) (Place.writes_iff.mpr ⟨buf, total, hplace, hhangup, hbroken,
              by decide, hlt, hroom⟩)
          · exact hrest (.writeEagain a) (Place.writes_iff.mpr ⟨buf, total, hplace, hlt, hhangup,
              Nat.le_of_not_lt hroom⟩)
    · exact hrest (.writeReturn a)
        (Place.writes_iff.mpr ⟨buf, total, hplace, Nat.le_of_not_lt hlt⟩)

/-- Epoll has nothing to report for a fiber that sleeps. -/
theorem Inv.not_ready (h : Inv s) (hrest : s.AtRest bufs) {call : Call}
    (hplace : (s.pipe a).place = .suspended call) : ¬s.Ready bufs a call := by
  intro hready
  rcases (h.ends a).alone.asleep call hplace with harmed | hevent
  · exact hrest (.epollWait a) ⟨harmed, Place.sleeps_iff.mpr ⟨call, hplace, hready⟩⟩
  · exact hrest (.ioAvail a) hevent

/-- Bytes for an open end arrive, as far as there is room. -/
theorem StreamState.full_of_transit (hrest : s.AtRest bufs) (hbroken : s.broken = false)
    (htransit : (s.channel a).transit ≠ []) :
    (s.pipe !a).closed = false ∧ (bufs a).rcvbuf ≤ (s.channel a).arrived.length := by
  have hlength := List.length_pos_of_ne_nil htransit
  constructor
  · by_contra hclosed
    exact hrest (.arrive a 1) ⟨hbroken, by decide, hlength, .inl (by simpa using hclosed)⟩
  · by_contra hroom
    exact hrest (.arrive a 1) ⟨hbroken, by decide, hlength, .inr (by omega)⟩

theorem Inv.rest_read (h : Inv s) (hrest : s.AtRest bufs)
    (hplace : (s.pipe a).place = .suspended (.read count)) :
    s.broken = false ∧ (s.pipe !a).closed = false ∧ (s.pipe a).received = (s.pipe !a).sent := by
  obtain ⟨harrived, hready⟩ := not_or.mp (h.not_ready hrest hplace)
  obtain ⟨hfinished, hbroken⟩ := not_or.mp hready
  rw [not_not] at harrived
  rw [Bool.not_eq_true] at hfinished hbroken
  have htransit : (s.channel !a).transit = [] := by
    by_contra hne
    obtain ⟨-, hfull⟩ := StreamState.full_of_transit hrest hbroken hne
    rw [harrived] at hfull
    exact absurd (bufs !a).rcvbuf_pos (by simpa using hfull)
  refine ⟨hbroken, ?_, ?_⟩
  · by_contra hclosed
    exact hrest (.finish !a) ⟨by simpa using hclosed, htransit, hfinished, hbroken⟩
  · have hstream := (h.ends !a).stream
    rw [Bool.not_not, harrived, htransit, List.append_nil, List.append_nil] at hstream
    exact hstream.symm

theorem Inv.rest_write (h : Inv s) (hrest : s.AtRest bufs) {total : ℕ}
    (hplace : (s.pipe a).place = .suspended (.write buf total)) :
    s.broken = false ∧ (s.pipe !a).closed = false ∧
      (bufs a).lowat < (s.channel a).transit.length ∧
      (bufs a).rcvbuf ≤ (s.channel a).arrived.length ∧
      ∀ count, (s.pipe !a).place ≠ .suspended (.read count) := by
  obtain ⟨hroom, hready⟩ := not_or.mp (h.not_ready hrest hplace)
  have hbroken := (not_or.mp hready).2
  rw [Bool.not_eq_true] at hbroken
  have htransit : (s.channel a).transit ≠ [] := by
    intro hempty
    rw [hempty] at hroom
    exact hroom (Nat.zero_le _)
  obtain ⟨hopen, hfull⟩ := StreamState.full_of_transit hrest hbroken htransit
  refine ⟨hbroken, hopen, Nat.lt_of_not_le hroom, hfull, fun count hpeer => ?_⟩
  have hpos := (bufs a).rcvbuf_pos
  have hempty := (not_or.mp (h.not_ready hrest hpeer)).1
  rw [not_not, Bool.not_not] at hempty
  rw [hempty, List.length_nil] at hfull
  omega

theorem Inv.rest (h : Inv s) (hrest : s.AtRest bufs) : s.Settled bufs a (s.pipe a).place := by
  cases hplace : (s.pipe a).place with
  | outside => trivial
  | running call => exact StreamState.not_running hrest hplace
  | switched call =>
    refine hrest (.epollCtl a) ?_
    show (s.pipe a).place.isSwitched = true
    rw [hplace]
    rfl
  | suspended call =>
    cases call with
    | read count => exact h.rest_read hrest hplace
    | write buf total => exact h.rest_write hrest hplace

/-! ## The result -/

/-- In every run of two pipes, what one end has received is what the other one has sent, as far as
it has come; who reads to the end has all of it, and no fiber sleeps beside something to do. -/
theorem stream_transports (hs : (streamMachine bufs).Reachable Machine.anyStep s) (a : Bool) :
    s.Transports bufs a := by
  have h : Inv s := by
    apply Machine.Reachable.invariant _ _ hs
    · exact inv_init
    · exact fun s x h _ hen => inv_next h hen
  have hend := h.ends a
  refine ⟨hend.stream, fun w hw => ?_, hend.threw, fun hended hbroken => ?_, h.fault, h.rest⟩
  · obtain ⟨hle, hall⟩ := hend.alone.records w hw
    refine ⟨hle, fun hret => ?_⟩
    rw [Write.taken, hall hret, List.take_length]
  · rcases hend.ended hended with ⟨hfinished, harrived⟩ | hbroken'
    · obtain ⟨hclosed, htransit⟩ := (h.ends !a).finished hfinished
      have hstream := (h.ends !a).stream
      rw [Bool.not_not, harrived, htransit, List.append_nil, List.append_nil] at hstream
      exact ⟨hclosed, hstream.symm⟩
    · exact absurd (hbroken.symm.trans hbroken') (by decide)

/-- Six bytes through small buffers, with both fibers asleep on the way, and the end after them. -/
theorem stream_transports_six : ∃ s : StreamState,
    ((s.pipe false).received = [1, 2, 3, 4, 5, 6] ∧ (s.pipe false).sawEnd = true ∧
      (s.pipe true).closed = true ∧ (s.pipe true).threw = false) ∧
    ∀ a, s.Transports (fun _ => ⟨3, 2, 1, by decide, by decide⟩) a := by
  have hreplay : ((streamMachine fun _ => ⟨3, 2, 1, by decide, by decide⟩).replay Machine.anyStep
      [.callRead false 8, .readEagain false, .callWrite true [1, 2, 3, 4, 5, 6], .write true 2,
        .epollCtl false, .arrive true 1, .write true 2, .writeEagain true, .epollWait false,
        .epollCtl true, .ioAvail false, .arrive true 1, .read false 2, .arrive true 1,
        .epollWait true, .ioAvail true, .callRead false 3, .read false 1, .write true 2,
        .callRead false 8, .readEagain false, .writeReturn true, .close true, .epollCtl false,
        .arrive true 2, .epollWait false, .ioAvail false, .read false 2, .arrive true 1,
        .finish true, .callRead false 8, .read false 1, .callRead false 8, .readEnd false]
      (streamMachine fun _ => ⟨3, 2, 1, by decide, by decide⟩).init).any (fun s => decide
        ((s.pipe false).received = [1, 2, 3, 4, 5, 6] ∧ (s.pipe false).sawEnd = true ∧
          (s.pipe true).closed = true ∧ (s.pipe true).threw = false)) = true := by
    decide +kernel
  obtain ⟨s, hs, hp⟩ := Machine.reachable_of_replay hreplay
  exact ⟨s, of_decide_eq_true hp, fun a => stream_transports hs a⟩

end Anon.Fiber.Stream
