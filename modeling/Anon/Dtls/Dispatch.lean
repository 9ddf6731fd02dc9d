import Anon.Lib.Machine
import Anon.Lib.OrderedMap
import Anon.Timespec

/-!
# DTLS associations

`dtls_dispatch`: associations are registered, messages are passed to them, and a task that is
scheduled while there are associations removes the idle ones. What is done under `dtls_mtx` is
taken apart into the single steps, between which messages are delivered and time passes.

* `Holder`: what the fiber that has `dtls_mtx` is about to do.
* `Sweep`: the record of a sweep that has gone through all associations.
* `DtlsDispatch`: the state, with the messages and the sweeps so far.
* `dtlsMachine`: any interleaving of the steps.
-/

namespace Anon.Dtls

/-- The time without messages, in seconds, after which an association is idle. -/
def idleLimit : ℤ := 30

/-- `last_used_time + 30`. -/
def limitOf (lastUsedTime : Timespec) : Timespec :=
  ⟨lastUsedTime.sec + idleLimit, lastUsedTime.nsec⟩

/-- A sweep: its `now`, the associations at its beginning, each one with whether it was idle when
the sweep came to it, and the associations at its end. -/
structure Sweep (Addr : Type) where
  now : Timespec
  present : List (Addr × ℕ)
  checks : List ((Addr × ℕ) × Bool)
  left : List (Addr × ℕ)

/-- Who has `dtls_mtx`. -/
inductive Holder (Addr : Type)
  | free
  /-- `register_association`, before `find`. -/
  | register (addr : Addr)
  /-- `register_association`, after `emplace`. -/
  | emplaced
  /-- `recv_msg`, before `find`. -/
  | receive (addr : Addr)
  /-- The loop of a sweep, with its iterator as a position. -/
  | sweep (now : Timespec) (present : List (Addr × ℕ)) (checks : List ((Addr × ℕ) × Bool)) (it : ℕ)
  /-- A sweep, behind its loop. -/
  | swept
  /-- About to unlock. -/
  | leaving
  deriving DecidableEq

/-- In the loop of a sweep. -/
def Holder.isSweep {Addr : Type} : Holder Addr → Bool
  | .sweep _ _ _ _ => true
  | _ => false

/-- An association is a number that stands for the object. -/
structure DtlsDispatch (Addr : Type) where
  sctpAssociations : OrderedMap Addr ℕ
  lastUsedTime : ℕ → Timespec
  /-- How many associations were made. -/
  made : ℕ
  holder : Holder Addr
  /-- The sweep tasks that the timer has not started. -/
  scheduled : ℕ
  /-- The `now` of the sweep tasks that were started and wait for `dtls_mtx`. -/
  waiting : List Timespec
  /-- The associations that `recv_msg` has found and not called. -/
  receiving : List ℕ
  clock : Timespec
  /-- When an association was made or has received a message. -/
  messages : List (ℕ × Timespec)
  /-- The sweeps that have gone through all associations. -/
  sweeps : List (Sweep Addr)

inductive DtlsAction (Addr : Type)
  /-- Time passes. -/
  | tick (now : Timespec)
  | lockToRegister (addr : Addr)
  | emplace (addr : Addr)
  | scheduleFirst
  | lockToReceive (addr : Addr)
  | find (addr : Addr)
  /-- `conn->recv_msg` -/
  | deliver (i : ℕ)
  /-- The timer starts a sweep task, which reads the clock. -/
  | startSweep
  | lockToSweep (i : ℕ)
  /-- One iteration of the loop of a sweep. -/
  | check
  | scheduleNext
  | unlock

variable {Addr : Type} [LinearOrder Addr]

namespace DtlsDispatch

/-- The sweep tasks that were scheduled and have not begun to sweep. -/
def pending (s : DtlsDispatch Addr) : ℕ := s.scheduled + s.waiting.length

/-- Everything that the association has received is more than the limit before `now`. -/
def Idle (s : DtlsDispatch Addr) (now : Timespec) (conn : ℕ) : Prop :=
  ∀ m ∈ s.messages, m.1 = conn → limitOf m.2 < now

instance (s : DtlsDispatch Addr) (now : Timespec) (conn : ℕ) : Decidable (s.Idle now conn) :=
  inferInstanceAs (Decidable (∀ m ∈ s.messages, _ → _))

/-- The association is used: it is made, or a message comes. -/
def use (s : DtlsDispatch Addr) (conn : ℕ) : DtlsDispatch Addr :=
  { s with
    lastUsedTime := Function.update s.lastUsedTime conn s.clock
    messages := (conn, s.clock) :: s.messages }

/-- `register_association`, from `find` to `emplace`. -/
def register (s : DtlsDispatch Addr) (addr : Addr) : DtlsDispatch Addr :=
  match s.sctpAssociations.get addr with
  | none =>
    { s.use s.made with
      sctpAssociations := s.sctpAssociations.alter addr fun _ => s.made
      made := s.made + 1
      holder := .emplaced }
  | some _ => { s with holder := .leaving }

/-- `recv_msg`, from `find` to `unlock`. -/
def receive (s : DtlsDispatch Addr) (addr : Addr) : DtlsDispatch Addr :=
  match s.sctpAssociations.get addr with
  | some conn => { s with receiving := s.receiving ++ [conn], holder := .free }
  | none => { s with holder := .free }

/-- One iteration of the loop of a sweep, or its end. -/
def sweepStep (s : DtlsDispatch Addr) (now : Timespec) (present : List (Addr × ℕ))
    (checks : List ((Addr × ℕ) × Bool)) (it : ℕ) : DtlsDispatch Addr :=
  match s.sctpAssociations[it]? with
  | some e =>
    let checks := checks ++ [(e, decide (s.Idle now e.2))]
    if limitOf (s.lastUsedTime e.2) < now then
      { s with
        sctpAssociations := s.sctpAssociations.eraseIdx it
        holder := .sweep now present checks it }
    else { s with holder := .sweep now present checks (it + 1) }
  | none =>
    { s with
      sweeps := ⟨now, present, checks, s.sctpAssociations⟩ :: s.sweeps
      holder := .swept }

def enabled (s : DtlsDispatch Addr) : DtlsAction Addr → Prop
  | .tick now => s.clock ≤ now
  | .lockToRegister _ => s.holder = .free
  | .emplace addr => s.holder = .register addr
  | .scheduleFirst => s.holder = .emplaced
  | .lockToReceive _ => s.holder = .free
  | .find addr => s.holder = .receive addr
  | .deliver i => i < s.receiving.length
  | .startSweep => 0 < s.scheduled
  | .lockToSweep i => s.holder = .free ∧ i < s.waiting.length
  | .check => s.holder.isSweep = true
  | .scheduleNext => s.holder = .swept
  | .unlock => s.holder = .leaving

def next (s : DtlsDispatch Addr) : DtlsAction Addr → DtlsDispatch Addr
  | .tick now => { s with clock := now }
  | .lockToRegister addr => { s with holder := .register addr }
  | .emplace addr => s.register addr
  | .scheduleFirst =>
    { s with
      scheduled := if s.sctpAssociations.length = 1 then s.scheduled + 1 else s.scheduled
      holder := .leaving }
  | .lockToReceive addr => { s with holder := .receive addr }
  | .find addr => s.receive addr
  | .deliver i =>
    match s.receiving[i]? with
    | some conn => { s.use conn with receiving := s.receiving.eraseIdx i }
    | none => s
  | .startSweep => { s with scheduled := s.scheduled - 1, waiting := s.waiting ++ [s.clock] }
  | .lockToSweep i =>
    match s.waiting[i]? with
    | some now =>
      { s with waiting := s.waiting.eraseIdx i, holder := .sweep now s.sctpAssociations [] 0 }
    | none => s
  | .check =>
    match s.holder with
    | .sweep now present checks it => s.sweepStep now present checks it
    | _ => s
  | .scheduleNext =>
    { s with
      scheduled := if s.sctpAssociations.length > 0 then s.scheduled + 1 else s.scheduled
      holder := .leaving }
  | .unlock => { s with holder := .free }

instance (s : DtlsDispatch Addr) (x : DtlsAction Addr) : Decidable (s.enabled x) :=
  match x with
  | .tick _ => inferInstanceAs (Decidable (_ ≤ _))
  | .lockToRegister _ => inferInstanceAs (Decidable (_ = _))
  | .emplace _ => inferInstanceAs (Decidable (_ = _))
  | .scheduleFirst => inferInstanceAs (Decidable (_ = _))
  | .lockToReceive _ => inferInstanceAs (Decidable (_ = _))
  | .find _ => inferInstanceAs (Decidable (_ = _))
  | .deliver _ => inferInstanceAs (Decidable (_ < _))
  | .startSweep => inferInstanceAs (Decidable (_ < _))
  | .lockToSweep _ => inferInstanceAs (Decidable (_ ∧ _))
  | .check => inferInstanceAs (Decidable (_ = _))
  | .scheduleNext => inferInstanceAs (Decidable (_ = _))
  | .unlock => inferInstanceAs (Decidable (_ = _))

end DtlsDispatch

/-- A dispatch right after its constructor, at some time. -/
def dtlsMachine (Addr : Type) [LinearOrder Addr] (start : Timespec) :
    Machine (DtlsDispatch Addr) (DtlsAction Addr) where
  init :=
    { sctpAssociations := []
      lastUsedTime := fun _ => start
      made := 0
      holder := .free
      scheduled := 0
      waiting := []
      receiving := []
      clock := start
      messages := []
      sweeps := [] }
  enabled := DtlsDispatch.enabled
  next := DtlsDispatch.next

instance (start : Timespec) (s : DtlsDispatch Addr) (x : DtlsAction Addr) :
    Decidable ((dtlsMachine Addr start).enabled s x) :=
  inferInstanceAs (Decidable (s.enabled x))

end Anon.Dtls
