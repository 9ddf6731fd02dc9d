import Anon.BigEndian
import Anon.Lib.Exclusive
import Anon.Lib.Machine

/-!
# Datagrams and their buffers

`udp_dispatch`: any io thread takes datagrams from the socket into buffers of a pool, a fiber
passes the datagram to `recv_msg` and gives the buffer back. Several threads are in `io_avail` at a
time, and all of a buffer's life is made of single steps.

* `cleanSockaddr`: what is left of the address that `recvfrom` has written.
* `Place`: where a thread is in the loop of `io_avail`.
* `UdpDispatch`: the state, with the calls of `recv_msg` and the bytes that these have read.
* `udpMachine`: any interleaving of threads, fibers and senders.
* `Delivers`: what the dispatcher is to do.
-/

namespace Anon.Udp

/-- The size of a `sockaddr_storage`. -/
def storageSize : ℕ := 128

/-- `sin_family`, in the byte order of the host. -/
def AF_INET : Bytes := [2, 0]
def AF_INET6 : Bytes := [10, 0]

/-- The address of a sender. -/
inductive Peer
  | inet (port : Vector UInt8 2) (addr : Vector UInt8 4)
  | inet6 (port : Vector UInt8 2) (flowinfo : Vector UInt8 4) (addr : Vector UInt8 16)
    (scopeId : Vector UInt8 4)
  deriving DecidableEq

/-- What `recvfrom` writes. -/
def Peer.sockaddr : Peer → Bytes
  | inet port addr => AF_INET ++ port.toList ++ addr.toList ++ List.replicate 8 0
  | inet6 port flowinfo addr scopeId =>
    AF_INET6 ++ port.toList ++ flowinfo.toList ++ addr.toList ++ scopeId.toList

/-- A `sockaddr_storage` with no more than the family, the port and the address of the sender. -/
def Peer.clean : Peer → Bytes
  | inet port addr => AF_INET ++ port.toList ++ addr.toList ++ List.replicate 120 0
  | inet6 port _ addr _ =>
    AF_INET6 ++ port.toList ++ List.replicate 4 0 ++ addr.toList ++ List.replicate 104 0

/-- `clean_sockaddr`: family, address and port, and otherwise zeros. -/
def cleanSockaddr (addr : Bytes) : Bytes :=
  let clean := List.replicate storageSize 0
  let family := addr.take 2
  if family = AF_INET then
    let clean := writeAt clean 0 AF_INET
    let clean := writeAt clean 4 ((addr.drop 4).take 4)
    writeAt clean 2 ((addr.drop 2).take 2)
  else if family = AF_INET6 then
    let clean := writeAt clean 0 AF_INET6
    let clean := writeAt clean 8 ((addr.drop 8).take 16)
    writeAt clean 2 ((addr.drop 2).take 2)
  else clean

/-- A datagram that was sent to the socket, with its number. -/
structure Datagram where
  id : ℕ
  bytes : Bytes
  peer : Peer
  deriving DecidableEq

/-- What the lambda that is passed to `run_in_fiber` captures, for the datagram with a number. -/
structure Capture where
  id : ℕ
  buff : ℕ
  dlen : ℕ
  host : Bytes
  hostAddrSize : ℕ
  deriving DecidableEq

/-- Where a thread is. -/
inductive Place
  | outside
  /-- At the top of the loop of `io_avail`. -/
  | looping
  /-- Has a buffer. -/
  | filling (buff : ℕ)
  /-- Behind `recvfrom`. -/
  | received (capture : Capture)
  deriving DecidableEq

/-- A call of `recv_msg`. -/
structure Call where
  id : ℕ
  len : ℕ
  sockaddr : Bytes
  sockaddrLen : ℕ
  deriving DecidableEq

/-- A byte that a call of `recv_msg` has read. -/
structure Read where
  id : ℕ
  index : ℕ
  byte : UInt8
  deriving DecidableEq

/-- The size of a buffer. -/
def bufferSize : ℕ := 65536

structure UdpDispatch (T : Type) where
  /-- The object exists. -/
  alive : Bool
  /-- The datagrams that wait in the socket. -/
  socket : List Datagram
  /-- The bytes of every buffer that was made. -/
  memory : ℕ → ℕ → UInt8
  /-- How many buffers were made. -/
  made : ℕ
  freeBuffs : List ℕ
  place : T → Place
  /-- The fibers that have not begun. -/
  scheduled : List Capture
  /-- The fibers that are in `recv_msg`. -/
  running : List Capture
  /-- Everything that was sent. -/
  sent : List Datagram
  /-- The numbers of the datagrams that `recv_msg` is not called for: they are too big, or the
  object is gone. -/
  dropped : List ℕ
  calls : List Call
  reads : List Read

inductive UdpAction (T : Type)
  | send (bytes : Bytes) (peer : Peer)
  | ioAvail (t : T)
  | getAvailBuff (t : T)
  /-- The first bytes of `host` are overwritten. -/
  | recvfrom (t : T) (host : Bytes)
  /-- `recvfrom` fails for another reason than that there is nothing to read. -/
  | fail (t : T)
  | runInFiber (t : T)
  /-- The fiber begins. -/
  | recvMsg (capture : Capture)
  /-- `recv_msg` reads a byte of its message. -/
  | read (capture : Capture) (index : ℕ)
  /-- `recv_msg` has come back. -/
  | releaseBuff (capture : Capture)
  /-- The last owner lets go of the object. -/
  | destroy

variable {T : Type} [DecidableEq T]

namespace UdpDispatch

variable (s : UdpDispatch T)

/-- `recvfrom`, with a buffer. -/
def receive (t : T) (buff : ℕ) (host : Bytes) : UdpDispatch T :=
  match s.socket with
  | [] => { s with place := Function.update s.place t .outside }
  | d :: socket =>
    let dlen := min d.bytes.length bufferSize
    let fill : ℕ → UInt8 := fun i => (d.bytes.take dlen).getD i (s.memory buff i)
    let s := { s with socket := socket, memory := Function.update s.memory buff fill }
    if dlen = bufferSize then
      { s with place := Function.update s.place t .looping, dropped := d.id :: s.dropped }
    else
      let capture := ⟨d.id, buff, dlen, writeAt host 0 d.peer.sockaddr, d.peer.sockaddr.length⟩
      { s with place := Function.update s.place t (.received capture) }

def enabled : UdpAction T → Prop
  | .send _ _ => True
  | .ioAvail t => s.place t = .outside ∧ s.alive = true
  | .getAvailBuff t => s.place t = .looping
  | .recvfrom t host =>
    match s.place t with
    | .filling _ => host.length = storageSize
    | _ => False
  | .fail t =>
    match s.place t with
    | .filling _ => True
    | _ => False
  | .runInFiber t =>
    match s.place t with
    | .received _ => True
    | _ => False
  | .recvMsg capture => capture ∈ s.scheduled
  | .read capture index => capture ∈ s.running ∧ index < capture.dlen
  | .releaseBuff capture => capture ∈ s.running
  -- a fiber in `recv_msg` owns the object, too
  | .destroy => s.alive = true ∧ s.running = []

def next : UdpAction T → UdpDispatch T
  | .send bytes peer =>
    let d := ⟨s.sent.length, bytes, peer⟩
    { s with socket := s.socket ++ [d], sent := s.sent ++ [d] }
  | .ioAvail t => { s with place := Function.update s.place t .looping }
  | .getAvailBuff t =>
    match s.freeBuffs with
    | buff :: freeBuffs =>
      { s with freeBuffs := freeBuffs, place := Function.update s.place t (.filling buff) }
    | [] =>
      { s with
        memory := Function.update s.memory s.made fun _ => 0
        made := s.made + 1
        place := Function.update s.place t (.filling s.made) }
  | .recvfrom t host =>
    match s.place t with
    | .filling buff => s.receive t buff host
    | _ => s
  | .fail t => { s with place := Function.update s.place t .outside }
  | .runInFiber t =>
    match s.place t with
    | .received capture =>
      { s with
        place := Function.update s.place t .looping
        scheduled := capture :: s.scheduled }
    | _ => s
  | .recvMsg capture =>
    let s := { s with scheduled := s.scheduled.erase capture }
    if s.alive then
      let call := ⟨capture.id, capture.dlen, cleanSockaddr capture.host, capture.hostAddrSize⟩
      { s with running := capture :: s.running, calls := call :: s.calls }
    else { s with dropped := capture.id :: s.dropped }
  | .read capture index =>
    { s with reads := ⟨capture.id, index, s.memory capture.buff index⟩ :: s.reads }
  | .releaseBuff capture =>
    { s with
      running := s.running.erase capture
      freeBuffs := s.freeBuffs ++ [capture.buff] }
  | .destroy => { s with alive := false }

instance (x : UdpAction T) : Decidable (s.enabled x) := by
  cases x <;> simp only [enabled] <;> (try split) <;> infer_instance

end UdpDispatch

/-- The socket is bound, and no buffer was made. -/
def udpMachine : Machine (UdpDispatch T) (UdpAction T) where
  init :=
    { alive := true
      socket := []
      memory := fun _ _ => 0
      made := 0
      freeBuffs := []
      place := fun _ => .outside
      scheduled := []
      running := []
      sent := []
      dropped := []
      calls := []
      reads := [] }
  enabled := UdpDispatch.enabled
  next := UdpDispatch.next

instance (s : UdpDispatch T) (x : UdpAction T) : Decidable (udpMachine.enabled s x) :=
  inferInstanceAs (Decidable (s.enabled x))

/-! ## What is expected -/

/-- What has a datagram. -/
inductive Stage (T : Type)
  | socket
  | thread (t : T)
  | scheduled
  | called
  | dropped

/-- What has a buffer. -/
inductive Owner (T : Type)
  | free
  | thread (t : T)
  | scheduled
  | running

def Place.capture : Place → Option Capture
  | .received capture => some capture
  | _ => none

def Place.buff : Place → Option ℕ
  | .filling buff => some buff
  | .received capture => some capture.buff
  | _ => none

namespace UdpDispatch

variable {T : Type} (s : UdpDispatch T)

/-- The numbers of the datagrams. -/
def ids : Stage T → List ℕ
  | .socket => s.socket.map Datagram.id
  | .thread t => (s.place t).capture.toList.map Capture.id
  | .scheduled => s.scheduled.map Capture.id
  | .called => s.calls.map Call.id
  | .dropped => s.dropped

def buffs : Owner T → List ℕ
  | .free => s.freeBuffs
  | .thread t => (s.place t).buff.toList
  | .scheduled => s.scheduled.map Capture.buff
  | .running => s.running.map Capture.buff

/-- What the dispatcher is to do with datagrams and buffers. -/
structure Delivers : Prop where
  /-- `recv_msg` gets the length of the datagram, and the address of the sender and nothing else. -/
  calls : ∀ call ∈ s.calls, ∃ d, s.sent[call.id]? = some d ∧ call.len = d.bytes.length ∧
    call.sockaddr = d.peer.clean ∧ call.sockaddrLen = d.peer.sockaddr.length
  /-- Whenever it reads a byte of its message, this is the byte that was sent. -/
  reads : ∀ r ∈ s.reads, ∃ d, s.sent[r.id]? = some d ∧ d.bytes[r.index]? = some r.byte
  /-- Every datagram is at one place; so `recv_msg` is called no more than once for it. -/
  once : Distributed s.ids {i | i < s.sent.length}
  dropped : ∀ i ∈ s.dropped, s.alive = false ∨
    ∃ d, s.sent[i]? = some d ∧ bufferSize ≤ d.bytes.length
  /-- A buffer has one owner. -/
  owner : Exclusive s.buffs

end UdpDispatch

/-- The object is not destroyed while a thread is in `io_avail`. -/
def KeepsObject (s : UdpDispatch T) : UdpAction T → Prop
  | .destroy => ∀ t, s.place t = .outside
  | _ => True

instance [Fintype T] (s : UdpDispatch T) (x : UdpAction T) : Decidable (KeepsObject s x) := by
  cases x <;> simp only [KeepsObject] <;> infer_instance

end Anon.Udp
