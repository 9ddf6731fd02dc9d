import Anon.BigEndian
import Anon.Lib.Machine

/-!
# Two pipes and the connection between them

`fiber_pipe::read` and `fiber_pipe::write` with their loops, the sleep in the middle of them, and
`fiber_pipe::io_avail`, at the two ends of one connection. One fiber at a time uses a pipe. The
sockets are as documented: a `write` takes what it has room for, a `read` gives what has arrived,
epoll returns one event for each `epoll_ctl`. The timeouts of pipes are in `Anon.Fiber.PipeSweep`.

* `Call`: what a fiber is in the middle of.
* `Pipe`, `Channel`: an end of the connection, and one of its directions.
* `streamMachine`: any interleaving of the two fibers, of io threads and of the network.
* `Transports`: what is expected.
-/

namespace Anon.Fiber.Stream

inductive Call
  | read (count : ℕ)
  | write (buf : Bytes) (totalBytesWritten : ℕ)
  deriving DecidableEq

/-- Where the fiber of a pipe is. -/
inductive Place
  /-- In no function of the pipe. -/
  | outside
  /-- At the head of the loop. -/
  | running (call : Call)
  /-- Has switched to its parent, which is about to call `epoll_ctl`. -/
  | switched (call : Call)
  | suspended (call : Call)
  deriving DecidableEq

def Place.call : Place → Option Call
  | outside => none
  | running call | switched call | suspended call => some call

/-- At the head of the loop of `read`. -/
def Place.Reads (p : ℕ → Prop) : Place → Prop
  | running (.read count) => p count
  | _ => False

/-- At the head of the loop of `write`. -/
def Place.Writes (p : Bytes → ℕ → Prop) : Place → Prop
  | running (.write buf total) => p buf total
  | _ => False

/-- Suspended in a call. -/
def Place.Sleeps (p : Call → Prop) : Place → Prop
  | suspended call => p call
  | _ => False

def Place.isSwitched : Place → Bool
  | switched _ => true
  | _ => false

instance (p : ℕ → Prop) [∀ count, Decidable (p count)] (place : Place) :
    Decidable (place.Reads p) :=
  match place with
  | .running (.read count) => inferInstanceAs (Decidable (p count))
  | .running (.write _ _) | .outside | .switched _ | .suspended _ => .isFalse id

instance (p : Bytes → ℕ → Prop) [∀ buf total, Decidable (p buf total)] (place : Place) :
    Decidable (place.Writes p) :=
  match place with
  | .running (.write buf total) => inferInstanceAs (Decidable (p buf total))
  | .running (.read _) | .outside | .switched _ | .suspended _ => .isFalse id

instance (p : Call → Prop) [∀ call, Decidable (p call)] (place : Place) :
    Decidable (place.Sleeps p) :=
  match place with
  | .suspended call => inferInstanceAs (Decidable (p call))
  | .running _ | .outside | .switched _ => .isFalse id

/-- A `write` that has ended. -/
structure Write where
  buf : Bytes
  totalBytesWritten : ℕ
  thrown : Bool

/-- The bytes that the socket took. -/
def Write.taken (w : Write) : Bytes := w.buf.take w.totalBytesWritten

structure Pipe where
  place : Place
  attached : Bool
  remoteHangup : Bool
  /-- The file descriptor is in the interest list of epoll. -/
  registered : Bool
  /-- It is, and no event has been returned since `epoll_ctl`. -/
  armed : Bool
  /-- A thread has an event, with or without `EPOLLRDHUP`. -/
  event : Option Bool
  /-- The destructor has run. -/
  closed : Bool
  /-- What calls of `read` have returned. -/
  received : Bytes
  writes : List Write
  /-- A call has thrown. -/
  threw : Bool
  /-- A `read` of the socket has returned 0. -/
  sawEnd : Bool

/-- One direction. -/
structure Channel where
  /-- The bytes that were taken from the writer and have not arrived. -/
  transit : Bytes
  /-- The bytes that have arrived and were not read. -/
  arrived : Bytes
  /-- The reader's side knows that the writer has closed. -/
  finished : Bool

/-- The sizes of the buffers of one direction. -/
structure Buffers where
  sndbuf : ℕ
  rcvbuf : ℕ
  /-- epoll reports room when no more bytes than this are waiting. -/
  lowat : ℕ
  lowat_lt : lowat < sndbuf
  rcvbuf_pos : 0 < rcvbuf

structure StreamState where
  pipe : Bool → Pipe
  /-- The direction in which an end writes. -/
  channel : Bool → Channel
  /-- The connection was reset. -/
  broken : Bool
  /-- `epoll_ctl` has failed, or an event has found no fiber. -/
  fault : Bool

inductive StreamAction
  /-- A fiber calls `read` or `write`. -/
  | callRead (a : Bool) (count : ℕ)
  | callWrite (a : Bool) (buf : Bytes)
  /-- The destructor. -/
  | close (a : Bool)
  /-- `::read` returns `n` bytes. -/
  | read (a : Bool) (n : ℕ)
  /-- `::read` returns 0 where more was asked for. -/
  | readEnd (a : Bool)
  | readEagain (a : Bool)
  /-- Any other error. -/
  | readError (a : Bool)
  /-- The loop of `write` ends. -/
  | writeReturn (a : Bool)
  /-- The test of `remote_hangup_` in the loop. -/
  | writeHangup (a : Bool)
  /-- `::write` returns `n`. -/
  | write (a : Bool) (n : ℕ)
  | writeEagain (a : Bool)
  | writeError (a : Bool)
  | epollCtl (a : Bool)
  | epollWait (a : Bool)
  | ioAvail (a : Bool)
  /-- Bytes of an end arrive at the other one. -/
  | arrive (a : Bool) (n : ℕ)
  /-- So does the news that it has closed. -/
  | finish (a : Bool)
  | reset

/-- The call is over; a `write` is recorded. -/
def Pipe.leave (p : Pipe) (thrown : Bool) : Pipe :=
  { p with
    place := .outside
    writes :=
      match p.place.call with
      | some (.write buf total) => p.writes ++ [⟨buf, total, thrown⟩]
      | _ => p.writes
    threw := p.threw || thrown }

namespace StreamState

variable (s : StreamState)

/-- What epoll reports for an end that waits. -/
def Ready (bufs : Bool → Buffers) (a : Bool) : Call → Prop
  | .read _ => (s.channel !a).arrived ≠ [] ∨ (s.channel !a).finished = true ∨ s.broken = true
  | .write _ _ => (s.channel a).transit.length ≤ (bufs a).lowat ∨
      (s.channel !a).finished = true ∨ s.broken = true

instance (bufs : Bool → Buffers) (a : Bool) (call : Call) : Decidable (s.Ready bufs a call) :=
  match call with
  | .read _ => inferInstanceAs (Decidable (_ ∨ _ ∨ _))
  | .write _ _ => inferInstanceAs (Decidable (_ ∨ _ ∨ _))

/-- `::read` finds nothing, now and later. -/
def AtEnd (a : Bool) : Prop :=
  (s.channel !a).arrived = [] ∧ ((s.channel !a).finished = true ∨ s.broken = true)

instance (a : Bool) : Decidable (s.AtEnd a) := inferInstanceAs (Decidable (_ ∧ _))

def enabled (bufs : Bool → Buffers) : StreamAction → Prop
  | .callRead a _ | .callWrite a _ | .close a =>
    (s.pipe a).place = .outside ∧ (s.pipe a).closed = false
  | .read a n => (s.pipe a).place.Reads fun count =>
      n ≤ count ∧ n ≤ (s.channel !a).arrived.length ∧ (n = 0 → count = 0)
  | .readEnd a => (s.pipe a).place.Reads fun count => count ≠ 0 ∧ s.AtEnd a
  | .readEagain a => (s.pipe a).place.Reads fun count =>
      count ≠ 0 ∧ (s.channel !a).arrived = [] ∧ (s.channel !a).finished = false ∧ s.broken = false
  | .readError a => (s.pipe a).place.Reads fun _ => s.broken = true
  | .writeReturn a => (s.pipe a).place.Writes fun buf total => buf.length ≤ total
  | .writeHangup a => (s.pipe a).place.Writes fun buf total =>
      total < buf.length ∧ (s.pipe a).remoteHangup = true
  | .write a n => (s.pipe a).place.Writes fun buf total =>
      (s.pipe a).remoteHangup = false ∧ s.broken = false ∧ 0 < n ∧ total + n ≤ buf.length ∧
        (s.channel a).transit.length + n ≤ (bufs a).sndbuf
  | .writeEagain a => (s.pipe a).place.Writes fun buf total =>
      total < buf.length ∧ (s.pipe a).remoteHangup = false ∧
        (bufs a).sndbuf ≤ (s.channel a).transit.length
  | .writeError a => (s.pipe a).place.Writes fun buf total =>
      total < buf.length ∧ (s.pipe a).remoteHangup = false ∧
        ((s.pipe !a).closed = true ∨ s.broken = true)
  | .epollCtl a => (s.pipe a).place.isSwitched = true
  | .epollWait a => (s.pipe a).armed = true ∧ (s.pipe a).place.Sleeps (s.Ready bufs a)
  | .ioAvail a => (s.pipe a).event ≠ none
  -- bytes for an end that has closed are answered with a reset
  | .arrive a n => s.broken = false ∧ 0 < n ∧ n ≤ (s.channel a).transit.length ∧
      ((s.pipe !a).closed = true ∨ (s.channel a).arrived.length + n ≤ (bufs a).rcvbuf)
  | .finish a => (s.pipe a).closed = true ∧ (s.channel a).transit = [] ∧
      (s.channel a).finished = false ∧ s.broken = false
  | .reset => s.broken = false

instance (bufs : Bool → Buffers) (x : StreamAction) : Decidable (s.enabled bufs x) :=
  match x with
  | .callRead _ _ | .callWrite _ _ | .close _ => inferInstanceAs (Decidable (_ ∧ _))
  | .read _ _ | .readEnd _ | .readEagain _ | .readError _ =>
    inferInstanceAs (Decidable (Place.Reads _ _))
  | .writeReturn _ | .writeHangup _ | .write _ _ | .writeEagain _ | .writeError _ =>
    inferInstanceAs (Decidable (Place.Writes _ _))
  | .epollCtl _ => inferInstanceAs (Decidable (_ = true))
  | .ioAvail _ => inferInstanceAs (Decidable (_ ≠ none))
  | .reset => inferInstanceAs (Decidable (_ = false))
  | .epollWait _ | .finish _ | .arrive _ _ => inferInstanceAs (Decidable (_ ∧ _))

def setPipe (a : Bool) (p : Pipe) : StreamState := { s with pipe := Function.update s.pipe a p }

def setChannel (a : Bool) (c : Channel) : StreamState :=
  { s with channel := Function.update s.channel a c }

/-- The fiber switches to its parent. -/
def sleep (a : Bool) : StreamState :=
  match (s.pipe a).place with
  | .running call => s.setPipe a { s.pipe a with place := .switched call }
  | _ => s

def next : StreamAction → StreamState
  | .callRead a count => s.setPipe a { s.pipe a with place := .running (.read count) }
  | .callWrite a buf => s.setPipe a { s.pipe a with place := .running (.write buf 0) }
  | .close a => s.setPipe a { s.pipe a with closed := true, registered := false, armed := false }
  | .read a n =>
    let c := s.channel !a
    let p := (s.pipe a).leave false
    (s.setPipe a { p with received := p.received ++ c.arrived.take n }).setChannel (!a)
      { c with arrived := c.arrived.drop n }
  | .readEnd a => s.setPipe a { (s.pipe a).leave true with sawEnd := true }
  | .readEagain a =>
    if (s.pipe a).remoteHangup then s.setPipe a ((s.pipe a).leave true) else s.sleep a
  | .readError a | .writeHangup a | .writeError a => s.setPipe a ((s.pipe a).leave true)
  | .writeReturn a => s.setPipe a ((s.pipe a).leave false)
  | .write a n =>
    match (s.pipe a).place with
    | .running (.write buf total) =>
      let c := s.channel a
      (s.setPipe a { s.pipe a with place := .running (.write buf (total + n)) }).setChannel a
        { c with transit := c.transit ++ (buf.drop total).take n }
    | _ => s
  | .writeEagain a => s.sleep a
  | .epollCtl a =>
    match (s.pipe a).place with
    | .switched call =>
      let p := s.pipe a
      -- `EPOLL_CTL_MOD` where `attached_` is set, `EPOLL_CTL_ADD` elsewhere
      if p.attached = p.registered then
        s.setPipe a
          { p with attached := true, registered := true, armed := true, place := .suspended call }
      else { s with fault := true }
    | _ => s
  | .epollWait a => s.setPipe a
      { s.pipe a with
        armed := false
        event := some ((s.channel !a).finished || s.broken) }
  | .ioAvail a =>
    let p := s.pipe a
    match p.event, p.place with
    | some rdhup, .suspended call => s.setPipe a
        { p with
          event := none
          remoteHangup := p.remoteHangup || rdhup
          place := .running call }
    | _, _ => { s with fault := true }
  | .arrive a n =>
    let c := s.channel a
    if (s.pipe !a).closed then { s with broken := true }
    else s.setChannel a
      { c with transit := c.transit.drop n, arrived := c.arrived ++ c.transit.take n }
  | .finish a => s.setChannel a { s.channel a with finished := true }
  | .reset => { s with broken := true }

end StreamState

/-- Both ends are connected. -/
def streamMachine (bufs : Bool → Buffers) : Machine StreamState StreamAction where
  init :=
    { pipe := fun _ =>
        ⟨.outside, false, false, false, false, none, false, [], [], false, false⟩
      channel := fun _ => ⟨[], [], false⟩
      broken := false
      fault := false }
  enabled := fun s x => s.enabled bufs x
  next := StreamState.next

instance (bufs : Bool → Buffers) (s : StreamState) (x : StreamAction) :
    Decidable ((streamMachine bufs).enabled s x) :=
  inferInstanceAs (Decidable (s.enabled bufs x))

/-! ## What is expected -/

/-- The bytes that the socket of an end has taken, in all calls of `write`. -/
def Pipe.sent (p : Pipe) : Bytes :=
  (p.writes.map Write.taken).flatten ++
    match p.place.call with
    | some (.write buf total) => buf.take total
    | _ => []

namespace StreamState

variable (s : StreamState)

/-- Only a new call, a destructor and a reset are left to happen. -/
def AtRest (bufs : Bool → Buffers) : Prop :=
  ∀ x, s.enabled bufs x → match x with
    | .callRead _ _ | .callWrite _ _ | .close _ | .reset => True
    | _ => False

/-- Where a fiber may stay: a reader has everything, and a writer has filled all buffers while the
other end does not read. -/
def Settled (bufs : Bool → Buffers) (a : Bool) : Place → Prop
  | .outside => True
  | .suspended (.read _) => s.broken = false ∧ (s.pipe !a).closed = false ∧
      (s.pipe a).received = (s.pipe !a).sent
  | .suspended (.write _ _) => s.broken = false ∧ (s.pipe !a).closed = false ∧
      (bufs a).lowat < (s.channel a).transit.length ∧
      (bufs a).rcvbuf ≤ (s.channel a).arrived.length ∧
      ∀ count, (s.pipe !a).place ≠ .suspended (.read count)
  | _ => False

/-- What an end and the direction in which it writes are to do. -/
structure Transports (bufs : Bool → Buffers) (a : Bool) : Prop where
  /-- What is received was sent; nothing is lost on the way, or comes twice, or too early. -/
  stream : (s.pipe a).sent =
    (s.pipe !a).received ++ (s.channel a).arrived ++ (s.channel a).transit
  /-- A `write` that returns has written everything. -/
  writes : ∀ w ∈ (s.pipe a).writes,
    w.totalBytesWritten ≤ w.buf.length ∧ (w.thrown = false → w.taken = w.buf)
  /-- Only a closed connection makes a call throw. -/
  threw : (s.pipe a).threw = true → (s.pipe !a).closed = true ∨ s.broken = true
  /-- Who comes to the end has received everything. -/
  complete : (s.pipe a).sawEnd = true → s.broken = false →
    (s.pipe !a).closed = true ∧ (s.pipe a).received = (s.pipe !a).sent
  fault : s.fault = false
  /-- At rest, who still waits has nothing to read, or no room to write. -/
  rest : s.AtRest bufs → s.Settled bufs a (s.pipe a).place

end StreamState

end Anon.Fiber.Stream
