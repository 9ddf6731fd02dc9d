import Anon.Lib.Except
import Anon.Sctp.Checksum
import Mathlib.Tactic.Basic

/-!
# SCTP associations

`sctp_dispatch` and the `data_channel_dispatch` it feeds: one association with a peer, which
receives packets, keeps account of the transmission sequence numbers (TSNs) of their DATA
chunks and answers every packet it accepts with one that ends in a SACK chunk.

* `TsnSet`: `std::set<uint32_t>`, in ascending order.
* `Association.doChunkInit`, `Association.recvDataChunk`: the chunks that change the association.
* `Association.parseSctpChunks`: the chunk loop.
* `Association.sendAcks`, `Association.recvMsg`: the answer to a packet.

A function that can return early with the association changed so far does so through
`Stop.rejected`; `Stop.outOfBounds` is a read outside the packet.
-/

namespace Anon.Sctp

abbrev Tsn := BitVec 32

/-! ## Sets of TSNs -/

/-- `std::set<uint32_t>`: its elements in ascending order. -/
def TsnSet := { ts : List Tsn // ts.Pairwise (· < ·) }

/-- Insert into an ascending list. -/
def insertTsn (t : Tsn) : List Tsn → List Tsn
  | [] => [t]
  | u :: us => if t < u then t :: u :: us else if t = u then u :: us else u :: insertTsn t us

@[simp] theorem mem_insertTsn {t u : Tsn} {ts : List Tsn} :
    u ∈ insertTsn t ts ↔ u = t ∨ u ∈ ts := by
  induction ts with
  | nil => simp [insertTsn]
  | cons v vs ih =>
    rw [insertTsn]
    split
    · simp
    · split
      · next htv => simp [htv]
      · rw [List.mem_cons, List.mem_cons, ih]
        tauto

theorem pairwise_insertTsn {t : Tsn} {ts : List Tsn} (h : ts.Pairwise (· < ·)) :
    (insertTsn t ts).Pairwise (· < ·) := by
  induction ts with
  | nil => simp [insertTsn]
  | cons v vs ih =>
    rw [List.pairwise_cons] at h
    rw [insertTsn]
    split
    · next htv =>
      rw [List.pairwise_cons, List.pairwise_cons]
      refine ⟨?_, h⟩
      intro u hu
      rcases List.mem_cons.mp hu with rfl | hu
      · exact htv
      · exact BitVec.lt_trans htv (h.1 u hu)
    · next htv =>
      split
      · exact List.pairwise_cons.mpr h
      · next hne =>
        rw [List.pairwise_cons]
        refine ⟨?_, ih h.2⟩
        intro u hu
        rcases mem_insertTsn.mp hu with rfl | hu
        · bv_omega
        · exact h.1 u hu

namespace TsnSet

instance : EmptyCollection TsnSet := ⟨⟨[], List.Pairwise.nil⟩⟩

instance : Membership Tsn TsnSet := ⟨fun s t => t ∈ s.val⟩

instance (t : Tsn) (s : TsnSet) : Decidable (t ∈ s) := inferInstanceAs (Decidable (t ∈ s.val))

instance : DecidableEq TsnSet := inferInstanceAs (DecidableEq { _ts : List Tsn // _ })

def insert (s : TsnSet) (t : Tsn) : TsnSet := ⟨insertTsn t s.val, pairwise_insertTsn s.property⟩

@[simp] theorem mem_insert {s : TsnSet} {t u : Tsn} : u ∈ s.insert t ↔ u = t ∨ u ∈ s :=
  mem_insertTsn

@[simp] theorem not_mem_empty {t : Tsn} : t ∉ (∅ : TsnSet) := List.not_mem_nil

end TsnSet

/-! ## Associations -/

/-- `data_channel_stream` -/
structure DataChannelStream where
  channelType : UInt8
  priority : ℕ
  reliability : ℕ
  label : Bytes
  protocol : Bytes
  deriving DecidableEq

/-- The fields of `sctp_dispatch`, and the `streams` of its `data_channel_dispatch`. -/
structure Association where
  localPort : ℕ
  remotePort : ℕ
  tsns : TsnSet
  chunks : List Bytes
  duplicateTsns : List Tsn
  verificationTag : BitVec 32
  lastCompleteTsn : Tsn
  streams : List (ℕ × DataChannelStream)

inductive Stop
  | outOfBounds
  /-- The function returned false and left this association behind. -/
  | rejected (a : Association)

/-- A read of a packet, a fault if it is not inside. -/
def inBounds {α : Type} : Option α → Except Stop α
  | none => .error .outOfBounds
  | some a => .ok a

def kSctpChunkHeaderSize : ℕ := 4
def kSctpOptionHeaderSize : ℕ := 4
def kInitChunkHeaderSize : ℕ := 20
def kDataChunkHeaderSize : ℕ := 16
def kSackChunkHeaderSize : ℕ := 16

def CHNK_DATA : UInt8 := 0
def CHNK_INIT : UInt8 := 1
def CHNK_INIT_ACK : UInt8 := 2
def CHNK_SACK : UInt8 := 3
def CHNK_HEARTBEAT : UInt8 := 4
def CHNK_HEARTBEAT_ACK : UInt8 := 5
def CHNK_COOKIE_ECHO : UInt8 := 10
def CHNK_COOKIE_ACK : UInt8 := 11

def OPT_FORWARD_TSN : UInt8 := 192
def OPT_SUPPORTED_EXTENSIONS_FIRST_BYTE : UInt8 := 0x80
def OPT_SUPPORTED_EXTENSIONS_SECOND_BYTE : UInt8 := 0x08
def OPT_COOKIE : ℕ := 7

def PPID_DCEP : ℕ := 50
def PPID_String : ℕ := 51
def PPID_Binary : ℕ := 53
def PPID_EmptyString : ℕ := 56
def PPID_EmptyBinary : ℕ := 57

/-- `(n + 3) & ~3` -/
def round4 (n : ℕ) : ℕ := (n + 3) / 4 * 4

theorem le_round4 (n : ℕ) : n ≤ round4 n := by
  unfold round4
  omega

/-- A chunk followed by the zero bytes up to the next multiple of four. -/
def padded (c : Bytes) : Bytes := c ++ List.replicate (round4 c.length - c.length) 0

/-! ## DATA chunks -/

namespace Association

/-- The function that `sctp_dispatch::connect` gives to the data channels: account for `tsn`, and
add a chunk to the answer. -/
def addChunk (a : Association) (tsn : Tsn) (chunk : Bytes) : Association :=
  let a :=
    if a.lastCompleteTsn < tsn then
      if tsn ∈ a.tsns then { a with duplicateTsns := a.duplicateTsns ++ [tsn] }
      else { a with tsns := a.tsns.insert tsn }
    else a
  if chunk = [] then a else { a with chunks := a.chunks ++ [chunk] }

/-- `streams.find(id) != streams.end()` -/
def hasStream (a : Association) (id : ℕ) : Bool := (a.streams.lookup id).isSome

/-- `streams.emplace(id, stream)` -/
def emplaceStream (a : Association) (id : ℕ) (stream : DataChannelStream) : Association :=
  if a.hasStream id then a else { a with streams := (id, stream) :: a.streams }

/-- `data_channel_dispatch::do_dcep` -/
def doDcep (a : Association) (tsn : Tsn) (streamId : ℕ) (data : Bytes) :
    Option Association :=
  if data.length = 0 then return a
  else do
    let messageType ← data[0]?
    -- DATA_CHANNEL_OPEN; a DATA_CHANNEL_ACK and anything else is ignored
    if messageType = 0x03 ∧ 12 ≤ data.length then
      let channelType ← data[1]?
      let priority ← getBeUint16 data 2
      let reliability ← getBeUint32 data 4
      let labelLen ← getBeUint16 data 8
      let protocolLen ← getBeUint16 data 10
      if 12 + labelLen + protocolLen ≤ data.length then
        let label ← readBytes data 12 labelLen
        let protocol ← readBytes data (12 + labelLen) protocolLen
        let stream := DataChannelStream.mk channelType priority reliability label protocol
        return (a.emplaceStream streamId stream).addChunk tsn [0x02]
      else return a
    else return a

/-- `data_channel_stream::do_data` -/
def doData (a : Association) (tsn : Tsn) (ppid : ℕ) : Association :=
  if ppid = PPID_String then a.addChunk tsn [] else a

/-- `data_channel_dispatch::recv_data_chunk` -/
def recvDataChunk (a : Association) (chunk : Bytes) : Option Association :=
  if chunk.length < kDataChunkHeaderSize then return a
  else do
    let flags ← chunk[1]?
    let tsn ← getBeUint32 chunk 4
    let streamId ← getBeUint16 chunk 8
    let _streamSeqNum ← getBeUint16 chunk 10
    let ppid ← getBeUint32 chunk 12
    let tsn := BitVec.ofNat 32 tsn
    if ppid = PPID_DCEP then
      a.doDcep tsn streamId (chunk.drop kDataChunkHeaderSize)
    else if ppid = PPID_String ∨ ppid = PPID_Binary ∨ ppid = PPID_EmptyString ∨
        ppid = PPID_EmptyBinary then
      -- an unknown stream, or a chunk that is not the whole message, is ignored
      if a.hasStream streamId ∧ flags &&& 0x02 ≠ 0 ∧ flags &&& 0x01 ≠ 0 then
        return a.doData tsn ppid
      else return a
    else return a

/-! ## INIT chunks -/

end Association

/-- The loop over the options of an INIT chunk: whether it gets through. -/
def initOptions (initData : Bytes) (optStart : ℕ) : Option Bool :=
  if optStart + kSctpOptionHeaderSize < initData.length then do
    let optType ← initData[optStart]?
    let optFlags ← initData[optStart + 1]?
    let optLen ← getBeUint16 initData (optStart + 2)
    if _hlen : optLen < kSctpOptionHeaderSize then some false
    else if initData.length < optStart + optLen then some false
    else if optType = OPT_FORWARD_TSN ∨ (optType = OPT_SUPPORTED_EXTENSIONS_FIRST_BYTE ∧
        optFlags = OPT_SUPPORTED_EXTENSIONS_SECOND_BYTE) then
      initOptions initData (optStart + round4 optLen)
    else some false
  else some true
termination_by initData.length - optStart
decreasing_by
  have := le_round4 optLen
  simp only [kSctpOptionHeaderSize] at *
  omega

/-- The INIT_ACK: a copy of the INIT with its type changed and an empty cookie option behind
it. -/
def initAck (initData : Bytes) : Bytes :=
  let lenWithCookie := round4 initData.length + kSctpOptionHeaderSize
  let ackChunk := padded initData ++ setBeUint16 OPT_COOKIE ++ setBeUint16 kSctpOptionHeaderSize
  writeAt (writeAt ackChunk 0 [CHNK_INIT_ACK]) 2 (setBeUint16 lenWithCookie)

namespace Association

/-- `sctp_dispatch::do_chunk_init` -/
def doChunkInit (a : Association) (initData : Bytes) : Except Stop Association :=
  if initData.length < kInitChunkHeaderSize then .error (.rejected a)
  else do
    let verificationTag ← inBounds (getBeUint32 initData 4)
    let _windowCredit ← inBounds (getBeUint32 initData 8)
    let _outStreams ← inBounds (getBeUint16 initData 12)
    let _inStreams ← inBounds (getBeUint16 initData 14)
    let initialTsn ← inBounds (getBeUint32 initData 16)
    let a := { a with
      verificationTag := BitVec.ofNat 32 verificationTag
      lastCompleteTsn := BitVec.ofNat 32 initialTsn - 1 }
    let accepted ← inBounds (initOptions initData kInitChunkHeaderSize)
    if accepted then
      return { a with
        tsns := a.tsns.insert (a.lastCompleteTsn + 1)
        chunks := a.chunks ++ [initAck initData] }
    else .error (.rejected a)

/-! ## The chunk loop -/

/-- The `switch` on the type of a chunk. The types that are only logged change nothing. -/
def doChunk (a : Association) (chunkType : UInt8) (chunk : Bytes) : Except Stop Association :=
  if chunkType = CHNK_DATA then inBounds (a.recvDataChunk chunk)
  else if chunkType = CHNK_INIT then
    match a.doChunkInit chunk with
    | .error (.rejected a') => .error (.rejected { a' with verificationTag := 0 })
    | r => r
  else if chunkType = CHNK_HEARTBEAT then
    return { a with chunks := a.chunks ++ [writeAt chunk 0 [CHNK_HEARTBEAT_ACK]] }
  else if chunkType = CHNK_COOKIE_ECHO then
    return { a with chunks := a.chunks ++ [[CHNK_COOKIE_ACK, 0] ++ setBeUint16 4] }
  else return a

/-- `sctp_dispatch::parse_sctp_chunks`, from the chunk at `chunkStart` on. -/
def parseSctpChunks (a : Association) (msg : Bytes) (chunkStart : ℕ) : Except Stop Association :=
  if chunkStart + kSctpChunkHeaderSize ≤ msg.length then do
    let chunkType ← inBounds msg[chunkStart]?
    let _chunkFlags ← inBounds msg[chunkStart + 1]?
    let chunkLen ← inBounds (getBeUint16 msg (chunkStart + 2))
    if _hlen : chunkLen < kSctpChunkHeaderSize then .error (.rejected a)
    else if msg.length < chunkStart + chunkLen then .error (.rejected a)
    else
      let chunk ← inBounds (readBytes msg chunkStart chunkLen)
      let a ← a.doChunk chunkType chunk
      parseSctpChunks a msg (chunkStart + round4 chunkLen)
  else return a
termination_by msg.length - chunkStart
decreasing_by
  have := le_round4 chunkLen
  simp only [kSctpChunkHeaderSize] at *
  omega

end Association

/-! ## The answer -/

/-- What `send_acks` builds: its SACK chunk, and the packet it sends, which ends in it. -/
structure Reply where
  sack : Bytes
  packet : Bytes
  deriving DecidableEq

/-- The first loop of `send_acks`: move `last_complete_tsn` over the sequential TSNs and remove
those. -/
def advance (last : Tsn) : List Tsn → Tsn × List Tsn
  | [] => (last, [])
  | t :: ts => if t = last + 1 then advance (last + 1) ts else (last, t :: ts)

theorem advance_sublist (last : Tsn) (ts : List Tsn) : (advance last ts).2.Sublist ts := by
  induction ts generalizing last with
  | nil => exact List.Sublist.refl _
  | cons t ts ih =>
    rw [advance]
    split
    · exact (ih (last + 1)).trans (List.sublist_cons_self t ts)
    · exact List.Sublist.refl _

/-- The second loop of `send_acks`, with the block from `blockStart` to `prev` open. -/
def blocksFrom (last blockStart prev : Tsn) : List Tsn → List (Tsn × Tsn)
  | [] => [(blockStart - last, prev - last)]
  | t :: ts =>
    if t ≠ prev + 1 then (blockStart - last, prev - last) :: blocksFrom last t t ts
    else blocksFrom last blockStart t ts

/-- `tsn_blocks`: the gap blocks, relative to `last_complete_tsn`. -/
def tsnBlocks (last : Tsn) : List Tsn → List (Tsn × Tsn)
  | [] => []
  | t :: ts => blocksFrom last t (t - 1) (t :: ts)

/-- The first TSN opens the first block. -/
theorem tsnBlocks_cons (last t : Tsn) (ts : List Tsn) :
    tsnBlocks last (t :: ts) = blocksFrom last t t ts := by
  have hsucc : ¬t ≠ t - 1 + 1 := by
    rw [not_not]
    bv_omega
  rw [tsnBlocks, blocksFrom, if_neg hsucc]

/-- The bytes of a gap block. -/
def encodeBlock (b : Tsn × Tsn) : Bytes := setBeUint16 b.1.toNat ++ setBeUint16 b.2.toNat

/-- The bytes of a duplicate TSN: `set_be_uint16` into the first two of four zero bytes. -/
def encodeDuplicate (dup : Tsn) : Bytes := setBeUint16 dup.toNat ++ [0, 0]

namespace Association

/-- `tsn_blocks` of an association whose `last_complete_tsn` has been moved. -/
def gapBlocks (a : Association) : List (Tsn × Tsn) := tsnBlocks a.lastCompleteTsn a.tsns.val

def sackSize (a : Association) : ℕ :=
  kSackChunkHeaderSize + a.gapBlocks.length * 4 + a.duplicateTsns.length * 4

/-- The SACK chunk of an association whose `last_complete_tsn` has been moved. -/
def sack (a : Association) : Bytes :=
  [CHNK_SACK, 0] ++ setBeUint16 a.sackSize ++ setBeUint32 a.lastCompleteTsn.toNat ++
    setBeUint32 (65536 * 4) ++ setBeUint16 a.gapBlocks.length ++
    setBeUint16 a.duplicateTsns.length ++ a.gapBlocks.flatMap encodeBlock ++
    a.duplicateTsns.flatMap encodeDuplicate

def moveLastComplete (a : Association) : Association :=
  { a with
    lastCompleteTsn := (advance a.lastCompleteTsn a.tsns.val).1
    tsns := ⟨(advance a.lastCompleteTsn a.tsns.val).2,
      a.tsns.property.sublist (advance_sublist _ _)⟩ }

/-- `sctp_dispatch::send_acks`: the association it leaves and what it sends. -/
def sendAcks (a : Association) : Association × Reply :=
  let a := a.moveLastComplete
  let header := setBeUint16 a.localPort ++ setBeUint16 a.remotePort ++
    setBeUint32 a.verificationTag.toNat ++ [0, 0, 0, 0]
  let packet := setChecksum (header ++ a.chunks.flatMap padded ++ a.sack)
  ({ a with chunks := [], duplicateTsns := [] }, ⟨a.sack, packet⟩)

/-- `sctp_dispatch::recv_msg`: the association afterwards, and the answer if there is one;
`none` is a read outside the packet. -/
def recvMsg (a : Association) (msg : Bytes) : Option (Association × Option Reply) :=
  if msg.length < kSctpCommonHeaderSize then some (a, none)
  else do
    let provided ← getBeUint32 msg 8
    if (crc32Sctp msg).toNat = provided then
      match a.parseSctpChunks msg kSctpCommonHeaderSize with
      | .ok a' => some (a'.sendAcks.1, some a'.sendAcks.2)
      | .error (.rejected a') => some (a', none)
      | .error .outOfBounds => none
    else some (a, none)

/-- A fresh association after `connect`. -/
def fresh (localPort remotePort : ℕ) : Association where
  localPort := localPort
  remotePort := remotePort
  tsns := ∅
  chunks := []
  duplicateTsns := []
  verificationTag := 0
  lastCompleteTsn := 0
  streams := []

end Association

end Anon.Sctp
