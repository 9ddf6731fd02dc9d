import Anon.Lib.Machine
import Anon.Sctp.Association

/-!
# What a SACK says and what was received

A session is an association together with what an observer of its packets knows: the initial
TSN of the most recent INIT that was accepted and the TSNs of the DATA chunks received since.
The observer looks at the packets only, never at the association.

* `chunksFrom`: the chunks of a packet, as their length fields delimit them.
* `Observed.packet`: what a packet tells the observer.
* `Acknowledges`: the TSNs that the bytes of a SACK chunk acknowledge.
* `sctpMachine`: the runs of `recvMsg` on arbitrary packets.
-/

namespace Anon.Sctp

/-- A chunk of a packet: its type and its bytes, header included. -/
structure Chunk where
  chunkType : UInt8
  bytes : Bytes

/-- The complete chunks from `chunkStart` on, and whether they are all of them. -/
def chunksFrom (msg : Bytes) (chunkStart : ℕ) : List Chunk × Bool :=
  if chunkStart + kSctpChunkHeaderSize ≤ msg.length then
    match msg[chunkStart]?, getBeUint16 msg (chunkStart + 2) with
    | some chunkType, some chunkLen =>
      if _hlen : chunkLen < kSctpChunkHeaderSize then ([], false)
      else if msg.length < chunkStart + chunkLen then ([], false)
      else
        let c : Chunk := ⟨chunkType, (msg.drop chunkStart).take chunkLen⟩
        let rest := chunksFrom msg (chunkStart + round4 chunkLen)
        (c :: rest.1, rest.2)
    | _, _ => ([], false)
  else ([], true)
termination_by msg.length - chunkStart
decreasing_by
  have := le_round4 chunkLen
  simp only [kSctpChunkHeaderSize] at *
  omega

/-- The INIT chunk is long enough and all its options are acceptable. -/
def Chunk.acceptable (c : Chunk) : Bool :=
  kInitChunkHeaderSize ≤ c.bytes.length && initOptions c.bytes kInitChunkHeaderSize == some true

def Chunk.isRejectedInit (c : Chunk) : Bool := c.chunkType == CHNK_INIT && !c.acceptable

/-- The TSN field of a DATA chunk. -/
def Chunk.tsn (c : Chunk) : Tsn := BitVec.ofNat 32 ((getBeUint32 c.bytes 4).getD 0)

/-- The initial TSN field of an INIT chunk. -/
def Chunk.initialTsn (c : Chunk) : Tsn := BitVec.ofNat 32 ((getBeUint32 c.bytes 16).getD 0)

def Chunk.isData (c : Chunk) : Bool :=
  c.chunkType == CHNK_DATA && kDataChunkHeaderSize ≤ c.bytes.length

def Chunk.isAcceptedInit (c : Chunk) : Bool := c.chunkType == CHNK_INIT && c.acceptable

/-- What an observer of the packets knows. -/
structure Observed where
  /-- The initial TSN of the most recent accepted INIT. -/
  initial : Option Tsn
  /-- The TSNs of the DATA chunks received after it. -/
  received : List Tsn

def Observed.chunk (o : Observed) (c : Chunk) : Observed :=
  if c.isData then { o with received := c.tsn :: o.received }
  else if c.isAcceptedInit then ⟨some c.initialTsn, []⟩
  else o

/-- The packet has a common header with the right checksum. -/
def checksumOk (msg : Bytes) : Bool :=
  kSctpCommonHeaderSize ≤ msg.length && getBeUint32 msg 8 == some (crc32Sctp msg).toNat

/-- The chunks of a packet that the receiver gets to see: none without a correct checksum, and
none from a rejected INIT on. -/
def reached (msg : Bytes) : List Chunk :=
  if checksumOk msg then
    (chunksFrom msg kSctpCommonHeaderSize).1.takeWhile fun c => !c.isRejectedInit
  else []

def Observed.packet (o : Observed) (msg : Bytes) : Observed := (reached msg).foldl Observed.chunk o

/-- The packet is answered: its checksum is right, its chunks are all complete and none of
them is an INIT to reject. -/
def answered (msg : Bytes) : Bool :=
  checksumOk msg && (chunksFrom msg kSctpCommonHeaderSize).2 &&
    (chunksFrom msg kSctpCommonHeaderSize).1.all fun c => !c.isRejectedInit

/-- The SACK chunk acknowledges `t`: it is one of the TSNs from `initial` up to the cumulative
TSN, or lies in a gap block. -/
def Acknowledges (sack : Bytes) (initial t : Tsn) : Prop :=
  ∃ cum n, getBeUint32 sack 4 = some cum ∧ getBeUint16 sack 12 = some n ∧
    ((t - initial).toNat < (BitVec.ofNat 32 cum + 1 - initial).toNat ∨
      ∃ k < n, ∃ s e, getBeUint16 sack (16 + 4 * k) = some s ∧
        getBeUint16 sack (18 + 4 * k) = some e ∧
        s ≤ (t - BitVec.ofNat 32 cum).toNat ∧ (t - BitVec.ofNat 32 cum).toNat ≤ e)

structure Session where
  assoc : Association
  observed : Observed
  /-- The answer to the last packet. -/
  reply : Option Reply

/-- A fresh association that is given arbitrary packets. -/
def sctpMachine (localPort remotePort : ℕ) : Machine Session Bytes where
  init := ⟨.fresh localPort remotePort, ⟨none, []⟩, none⟩
  enabled _ _ := True
  next s msg :=
    match s.assoc.recvMsg msg with
    | some (assoc, reply) => ⟨assoc, s.observed.packet msg, reply⟩
    | none => s

instance (localPort remotePort : ℕ) (s : Session) (msg : Bytes) :
    Decidable ((sctpMachine localPort remotePort).enabled s msg) :=
  inferInstanceAs (Decidable True)

/-! ## Where the acknowledgements are sound -/

/-- The chunk finds the association in a state that it handles soundly: an INIT is not rejected
for its options and finds no recorded TSNs, and a DATA chunk that is to be recorded is at most
65535 past the last complete TSN. -/
def Association.ChunkSafe (a : Association) (c : Chunk) : Prop :=
  (c.chunkType = CHNK_INIT → kInitChunkHeaderSize ≤ c.bytes.length →
    c.acceptable = true ∧ a.tsns = ∅) ∧
  (c.isData = true → a.lastCompleteTsn < c.tsn → (c.tsn - a.lastCompleteTsn).toNat < 2 ^ 16)

instance (a : Association) (c : Chunk) : Decidable (a.ChunkSafe c) := by
  unfold Association.ChunkSafe
  infer_instance

/-- Every chunk is handled soundly by the association that the ones before it leave. -/
def Association.ChunksSafe (a : Association) : List Chunk → Prop
  | [] => True
  | c :: cs => a.ChunkSafe c ∧
    match a.doChunk c.chunkType c.bytes with
    | .ok a' => a'.ChunksSafe cs
    | .error _ => True

instance : (a : Association) → (cs : List Chunk) → Decidable (a.ChunksSafe cs)
  | _, [] => inferInstanceAs (Decidable True)
  | a, c :: cs => by
    have : (a' : Association) → Decidable (a'.ChunksSafe cs) := fun a' =>
      instDecidableChunksSafe a' cs
    unfold Association.ChunksSafe
    split <;> infer_instance

/-- A DATA chunk with the initial TSN of the most recent INIT has been received after it. -/
def Observed.InitialReceived (o : Observed) : Prop :=
  match o.initial with
  | some i => i ∈ o.received
  | none => True

instance (o : Observed) : Decidable o.InitialReceived :=
  show Decidable (match o.initial with
    | some i => i ∈ o.received
    | none => True) from
  match o.initial with
  | some i => decidable_of_iff (o.received.contains i = true) List.contains_iff_mem
  | none => isTrue trivial

/-- The packet's chunks are handled soundly, and if it is answered, a DATA chunk with the
initial TSN of the most recent INIT has been received after that INIT. -/
def PacketSafe (s : Session) (msg : Bytes) : Prop :=
  s.assoc.ChunksSafe (if checksumOk msg then (chunksFrom msg kSctpCommonHeaderSize).1 else []) ∧
  (answered msg = true → (s.observed.packet msg).InitialReceived)

instance (s : Session) (msg : Bytes) : Decidable (PacketSafe s msg) := by
  unfold PacketSafe
  infer_instance

end Anon.Sctp
