import Anon.Sctp.Chunks

/-!
# When the packets that are sent are well formed

* `WalksToEnd`: the length fields of the chunks lead exactly to the end of the packet.
* `ChunkFormed`: the invariant of the chunks that wait for the next answer: their length fields
  are right.
* `PacketFits`: the packets that give the next answer no chunk with a wrong length field.
* `output_well_formed`: the packets sent in runs of such packets.
-/

namespace Anon.Sctp

variable {a a' : Association} {c : Chunk} {msg : Bytes}

/-! ## The checksum -/

/-- The checksum does not depend on the checksum field. -/
theorem crc32Sctp_writeAt {packet field : Bytes} (hlen : kSctpCommonHeaderSize ≤ packet.length)
    (hfield : field.length = 4) : crc32Sctp (writeAt packet 8 field) = crc32Sctp packet := by
  rw [kSctpCommonHeaderSize] at hlen
  have htake : (writeAt packet 8 field).take 8 = packet.take 8 := by
    rw [writeAt, List.append_assoc, List.take_append_of_le_length (by simp; omega),
      List.take_take, Nat.min_self]
  have hdrop : (writeAt packet 8 field).drop 12 = packet.drop 12 := by
    have hfront : (packet.take 8 ++ field).length = 12 := by
      simp
      omega
    rw [writeAt, hfield, ← hfront, List.drop_left]
    rw [hfront]
  have hlen' : (writeAt packet 8 field).length = packet.length := by
    simp [writeAt, hfield]
    omega
  rw [crc32Sctp, crc32Sctp, kSctpCommonHeaderSize, if_neg (by omega), if_neg (by omega), htake,
    hdrop]

/-- A packet whose checksum has been filled in passes the check. -/
theorem checksumOk_setChecksum {packet : Bytes} (hlen : kSctpCommonHeaderSize ≤ packet.length) :
    checksumOk (setChecksum packet) = true := by
  have hcrc : crc32Sctp (setChecksum packet) = crc32Sctp packet :=
    crc32Sctp_writeAt hlen (length_setBeUint32 _)
  rw [kSctpCommonHeaderSize] at hlen
  have hfield : getBeUint32 (setChecksum packet) 8 = some (crc32Sctp packet).toNat := by
    have htake : (packet.take 8).length = 8 := by
      rw [List.length_take]
      omega
    have hread := getBeUint32_append (packet.take 8)
      (setBeUint32 (crc32Sctp packet).toNat ++ packet.drop 12) 0
    rw [htake, ← List.append_assoc, getBeUint32_setBeUint32,
      Nat.mod_eq_of_lt (crc32Sctp packet).toNat_lt] at hread
    exact hread
  have hlen' : kSctpCommonHeaderSize ≤ (setChecksum packet).length := by
    simp [setChecksum, writeAt, kSctpCommonHeaderSize]
    omega
  rw [checksumOk, hcrc, hfield]
  simp [hlen']

/-! ## Walking the chunks -/

/-- From `start` on, the length fields delimit complete chunks, each followed by its padding,
that end exactly at the end of the packet. -/
inductive WalksToEnd (msg : Bytes) : ℕ → Prop
  | done : WalksToEnd msg msg.length
  | chunk {start len : ℕ} (hlen : getBeUint16 msg (start + 2) = some len)
      (hmin : kSctpChunkHeaderSize ≤ len) (hin : start + len ≤ msg.length)
      (hrest : WalksToEnd msg (start + round4 len)) : WalksToEnd msg start

/-- The chunk loop of the dispatcher sees only complete chunks in such a packet. -/
theorem WalksToEnd.chunksFrom {start : ℕ} (h : WalksToEnd msg start) :
    (chunksFrom msg start).2 = true := by
  induction h with
  | done => rw [Sctp.chunksFrom, if_neg (by simp [kSctpChunkHeaderSize])]
  | @chunk start len hlen hmin hin hrest ih =>
    rw [Sctp.chunksFrom]
    rw [kSctpChunkHeaderSize] at hmin
    rw [if_pos (by rw [kSctpChunkHeaderSize]; omega)]
    obtain ⟨chunkType, htype⟩ : ∃ v, msg[start]? = some v :=
      Option.isSome_iff_exists.mp (isSome_getElem (by omega))
    simp only [htype, hlen, kSctpChunkHeaderSize]
    rw [dif_neg (by omega), if_neg (by omega)]
    exact ih

/-- The length field of a chunk holds its length. -/
def ChunkFormed (c : Bytes) : Prop :=
  kSctpChunkHeaderSize ≤ c.length ∧ getBeUint16 c 2 = some c.length

theorem length_padded (c : Bytes) : (padded c).length = round4 c.length := by
  have := le_round4 c.length
  simp [padded]
  omega

theorem getBeUint16_append_left {xs ys : Bytes} {i : ℕ} (h : i + 2 ≤ xs.length) :
    getBeUint16 (xs ++ ys) i = getBeUint16 xs i := by
  rw [getBeUint16, getBeUint16, List.getElem?_append_left (by omega),
    List.getElem?_append_left (by omega)]

/-- Chunks with right length fields, each with its padding, are walked to the end. -/
theorem walksToEnd_flatMap (cs : List Bytes) (h : ∀ c ∈ cs, ChunkFormed c) (front : Bytes) :
    WalksToEnd (front ++ cs.flatMap padded) front.length := by
  induction cs generalizing front with
  | nil =>
    rw [List.flatMap_nil, List.append_nil]
    exact .done
  | cons c cs ih =>
    obtain ⟨hmin, hlen⟩ := h c List.mem_cons_self
    have hrest := ih (fun d hd => h d (List.mem_cons_of_mem c hd)) (front ++ padded c)
    rw [List.length_append, length_padded, List.append_assoc, ← List.flatMap_cons] at hrest
    have hround := le_round4 c.length
    have hfield : getBeUint16 (front ++ (c :: cs).flatMap padded) (front.length + 2)
        = some c.length := by
      rw [getBeUint16_append, List.flatMap_cons, padded, List.append_assoc,
        getBeUint16_append_left]
      · exact hlen
      · rw [kSctpChunkHeaderSize] at hmin
        omega
    refine .chunk hfield hmin ?_ hrest
    rw [List.length_append, List.flatMap_cons, List.length_append, length_padded]
    omega

/-! ## The chunks of the answer -/

theorem getBeUint16_writeAt_zero {b : UInt8} {i : ℕ} (hi : 1 ≤ i) (hc : 1 ≤ msg.length) :
    getBeUint16 (writeAt msg 0 [b]) i = getBeUint16 msg i := by
  obtain ⟨x, xs, rfl⟩ : ∃ x xs, msg = x :: xs := List.exists_cons_of_length_pos hc
  obtain ⟨j, rfl⟩ : ∃ j, i = j + 1 := ⟨i - 1, by omega⟩
  show getBeUint16 (b :: xs) (j + 1) = _
  simp [getBeUint16]

theorem length_writeAt {i : ℕ} {bs : Bytes} (h : i + bs.length ≤ msg.length) :
    (writeAt msg i bs).length = msg.length := by
  simp [writeAt]
  omega

/-- A HEARTBEAT_ACK keeps the length field of the HEARTBEAT. -/
theorem chunkFormed_heartbeatAck (h : ChunkFormed msg) :
    ChunkFormed (writeAt msg 0 [CHNK_HEARTBEAT_ACK]) := by
  obtain ⟨hmin, hlen⟩ := h
  rw [kSctpChunkHeaderSize] at hmin
  have hlen' : (writeAt msg 0 [CHNK_HEARTBEAT_ACK]).length = msg.length :=
    length_writeAt (by simp; omega)
  refine ⟨?_, ?_⟩
  · rw [hlen']
    exact hmin
  · rw [hlen', getBeUint16_writeAt_zero (by omega) (by omega)]
    exact hlen

theorem chunkFormed_cookieAck : ChunkFormed ([CHNK_COOKIE_ACK, 0] ++ setBeUint16 4) := by
  refine ⟨?_, ?_⟩ <;> decide

/-- The length field of an INIT_ACK is right if the length fits it. -/
theorem chunkFormed_initAck (hfit : round4 msg.length + kSctpOptionHeaderSize < 2 ^ 16) :
    ChunkFormed (initAck msg) := by
  obtain ⟨ack, hack⟩ : ∃ ack, ack = writeAt (padded msg ++ setBeUint16 OPT_COOKIE ++
      setBeUint16 kSctpOptionHeaderSize) 0 [CHNK_INIT_ACK] := ⟨_, rfl⟩
  have hacklen : ack.length = round4 msg.length + 4 := by
    rw [hack, length_writeAt] <;> simp [length_padded]
  have htotal : (initAck msg).length = round4 msg.length + kSctpOptionHeaderSize := by
    show (writeAt (writeAt _ 0 _) 2 _).length = _
    rw [← hack, length_writeAt, hacklen]
    · rfl
    · rw [length_setBeUint16]
      omega
  refine ⟨?_, ?_⟩
  · rw [htotal, kSctpOptionHeaderSize, kSctpChunkHeaderSize]
    omega
  · have htake : (ack.take 2).length = 2 := by
      rw [List.length_take]
      omega
    have hread := getBeUint16_append (ack.take 2)
      (setBeUint16 (round4 msg.length + kSctpOptionHeaderSize) ++ ack.drop 4) 0
    rw [htake, ← List.append_assoc, getBeUint16_setBeUint16, Nat.mod_eq_of_lt hfit] at hread
    rw [htotal]
    rw [hack] at hread
    exact hread

/-! ## The SACK chunk -/

/-- The number of ranges that a SACK has to name: how often the ascending TSNs leave out some,
counted from the last complete TSN on. -/
def rangeCount (last : Tsn) : List Tsn → ℕ
  | [] => 0
  | t :: ts => (if t = last + 1 then 0 else 1) + rangeCount t ts

theorem length_blocksFrom (last blockStart prev : Tsn) (ts : List Tsn) :
    (blocksFrom last blockStart prev ts).length = 1 + rangeCount prev ts := by
  induction ts generalizing blockStart prev with
  | nil => rfl
  | cons t ts ih =>
    rw [blocksFrom, rangeCount]
    by_cases hsucc : t = prev + 1
    · rw [if_neg (by rwa [not_not]), if_pos hsucc, ih]
      omega
    · rw [if_pos hsucc, if_neg hsucc, List.length_cons, ih]
      omega

/-- The gap blocks are the ranges behind the ones that the first loop removes. -/
theorem length_tsnBlocks_advance (last : Tsn) (ts : List Tsn) :
    (tsnBlocks (advance last ts).1 (advance last ts).2).length = rangeCount last ts := by
  induction ts generalizing last with
  | nil => rfl
  | cons t ts ih =>
    rw [advance, rangeCount]
    by_cases hsucc : t = last + 1
    · rw [if_pos hsucc, if_pos hsucc, ih, hsucc]
      omega
    · rw [if_neg hsucc, if_neg hsucc, tsnBlocks_cons, length_blocksFrom]

theorem length_sack (a : Association) : a.sack.length = a.sackSize := by
  have hblocks := length_flatMap_four (f := encodeBlock) (fun _ => rfl) a.gapBlocks
  have hdups := length_flatMap_four (f := encodeDuplicate) (fun _ => rfl) a.duplicateTsns
  simp only [Association.sack, List.length_append, hblocks, hdups, length_setBeUint16,
    length_setBeUint32, List.length_cons, List.length_nil, Association.sackSize,
    kSackChunkHeaderSize]

/-- The length field of a SACK is right if the length fits it. -/
theorem chunkFormed_sack (hfit : a.sackSize < 2 ^ 16) : ChunkFormed a.sack := by
  refine ⟨?_, ?_⟩
  · rw [length_sack, Association.sackSize, kSackChunkHeaderSize, kSctpChunkHeaderSize]
    omega
  · obtain ⟨rest, hsack⟩ : ∃ rest, a.sack = [CHNK_SACK, 0] ++ (setBeUint16 a.sackSize ++ rest) := by
      simp only [Association.sack, List.append_assoc]
      exact ⟨_, rfl⟩
    have hread := getBeUint16_append [CHNK_SACK, 0] (setBeUint16 a.sackSize ++ rest) 0
    rw [getBeUint16_setBeUint16, Nat.mod_eq_of_lt hfit, ← hsack] at hread
    rw [length_sack]
    exact hread

/-- A SACK needs no padding. -/
theorem padded_sack (a : Association) : padded a.sack = a.sack := by
  have hround : round4 a.sackSize = a.sackSize := by
    simp only [round4, Association.sackSize, kSackChunkHeaderSize]
    omega
  rw [padded, length_sack, hround, Nat.sub_self]
  exact List.append_nil _

/-! ## The packets that are answered well -/

/-- The chunk adds nothing but well formed chunks to the answer: it opens no data channel, and an
INIT_ACK has a length that its length field can hold. -/
def Chunk.Fits (c : Chunk) : Prop :=
  c.isOpen = false ∧
    (c.isAcceptedInit = true → round4 c.bytes.length + kSctpOptionHeaderSize < 2 ^ 16)

instance (c : Chunk) : Decidable c.Fits :=
  inferInstanceAs (Decidable (c.isOpen = false ∧
    (c.isAcceptedInit = true → round4 c.bytes.length + kSctpOptionHeaderSize < 2 ^ 16)))

/-- The SACK for the TSNs and the duplicates on record has a length that its length field can
hold. -/
def Association.SackFits (a : Association) : Prop :=
  kSackChunkHeaderSize + rangeCount a.lastCompleteTsn a.tsns.val * 4 +
    a.duplicateTsns.length * 4 < 2 ^ 16

instance (a : Association) : Decidable a.SackFits :=
  inferInstanceAs (Decidable (_ < _))

/-- What the loop leaves behind has an acknowledgement that fits. -/
def SackFitsAfter : Except Stop Association → Prop
  | .ok a => a.SackFits
  | .error _ => True

instance : (r : Except Stop Association) → Decidable (SackFitsAfter r)
  | .ok a => inferInstanceAs (Decidable a.SackFits)
  | .error _ => inferInstanceAs (Decidable True)

/-- The chunks of the packet that the dispatcher gets to, and the acknowledgement of what has been
received when it is through with them, fit the answer. -/
def PacketFits (s : Session) (msg : Bytes) : Prop :=
  (∀ c ∈ reached msg, c.Fits) ∧
    (checksumOk msg = true →
      SackFitsAfter (s.assoc.parseSctpChunks msg kSctpCommonHeaderSize))

instance (s : Session) (msg : Bytes) : Decidable (PacketFits s msg) :=
  inferInstanceAs (Decidable (_ ∧ _))

/-! ## One chunk -/

/-- All chunks that wait for the next answer are well formed. -/
def ChunksFormed (a : Association) : Prop := ∀ c ∈ a.chunks, ChunkFormed c

/-- A chunk of a packet has the length that its length field says. -/
def Chunk.Delimited (c : Chunk) : Prop := ChunkFormed c.bytes

/-- A chunk that fits adds only well formed chunks to the answer. -/
theorem ChunksFormed.chunk (h : ChunksFormed a) (hc : c.Delimited) (hfits : c.Fits)
    (hok : a.doChunk c.chunkType c.bytes = .ok a') : ChunksFormed a' := by
  have hadd : ∀ d, ChunkFormed d → ∀ e ∈ a.chunks ++ [d], ChunkFormed e := by
    intro d hd e he
    rcases List.mem_append.mp he with he | he
    · exact h e he
    · rw [List.mem_singleton.mp he]
      exact hd
  cases handles_doChunk hok with
  | opens hopen => exact absurd hopen (by simp [hfits.1])
  | string hstring hstream =>
    rw [ChunksFormed, chunks_addChunk_nil]
    exact h
  | init hinit => exact hadd _ (chunkFormed_initAck (hfits.2 hinit))
  | heartbeat htype => exact hadd _ (chunkFormed_heartbeatAck hc)
  | cookieEcho htype => exact hadd _ chunkFormed_cookieAck
  | nothing => exact h

/-! ## Packets -/

/-- The chunks of a packet have the lengths that their length fields say. -/
theorem delimited_chunksFrom (msg : Bytes) (start : ℕ) :
    ∀ c ∈ (chunksFrom msg start).1, c.Delimited := by
  induction start using chunksFrom.induct msg with
  | case1 start hstart chunkType chunkLen hlen htype hshort =>
    rw [chunksFrom, if_pos hstart]
    simp [htype, hlen, hshort]
  | case2 start hstart chunkType chunkLen hlen htype hshort hend =>
    rw [chunksFrom, if_pos hstart]
    simp [htype, hlen, hshort, hend]
  | case3 start hstart chunkType chunkLen hlen htype hshort hend ih =>
    rw [chunksFrom, if_pos hstart]
    simp only [htype, hlen, dif_neg hshort, if_neg hend]
    intro c hc
    rcases List.mem_cons.mp hc with rfl | hc
    · show ChunkFormed ((msg.drop start).take chunkLen)
      have htake : ((msg.drop start).take chunkLen).length = chunkLen := by
        rw [List.length_take, List.length_drop]
        omega
      refine ⟨by rw [htake]; omega, ?_⟩
      rw [kSctpChunkHeaderSize] at hshort
      have hread :
          getBeUint16 ((msg.drop start).take chunkLen) 2 = getBeUint16 msg (start + 2) := by
        rw [getBeUint16, getBeUint16, List.getElem?_take_of_lt (by omega),
          List.getElem?_take_of_lt (by omega), List.getElem?_drop, List.getElem?_drop,
          Nat.add_assoc]
      rw [htake, hread]
      exact hlen
    · exact ih c hc
  | case4 start hstart hnone =>
    rw [chunksFrom, if_pos hstart]
    split
    · next chunkType chunkLen htype hlen => exact absurd hlen (hnone _ _ htype)
    · simp
  | case5 start hstart =>
    rw [chunksFrom, if_neg hstart]
    simp

theorem chunks_rejected (h : a.doChunk c.chunkType c.bytes = .error (.rejected a')) :
    a'.chunks = a.chunks := by
  rw [doChunk_eq_rejected h]

/-- The chunks of a packet that are handled add only well formed chunks to the answer. -/
theorem ChunksFormed.handled (h : ChunksFormed a) (hfits : ∀ c ∈ handled msg, c.Fits)
    (hrun : runChunks a (handled msg) = .ok a') : ChunksFormed a' := by
  refine runChunks_invariant ?_ h hrun
  intro c hc a1 a2 h1 hok
  have hmem : c ∈ (chunksFrom msg kSctpCommonHeaderSize).1 :=
    (List.takeWhile_sublist _).subset hc
  exact h1.chunk (delimited_chunksFrom msg _ c hmem) (hfits c hc) hok

/-- The answer of an association with well formed chunks and an acknowledgement that fits is well
formed. -/
theorem sendAcks_well_formed (h : ChunksFormed a) (hfits : a.SackFits) :
    checksumOk a.sendAcks.2.packet = true ∧
      WalksToEnd a.sendAcks.2.packet kSctpCommonHeaderSize := by
  have hsize : a.moveLastComplete.sackSize < 2 ^ 16 := by
    have hblocks : a.moveLastComplete.gapBlocks.length =
        rangeCount a.lastCompleteTsn a.tsns.val :=
      length_tsnBlocks_advance a.lastCompleteTsn a.tsns.val
    rw [Association.sackSize, hblocks]
    exact hfits
  obtain ⟨front, hfront⟩ : ∃ front, front = setBeUint16 a.localPort ++
    setBeUint16 a.remotePort ++ setBeUint32 a.verificationTag.toNat := ⟨_, rfl⟩
  have hlen : front.length = 8 := by
    rw [hfront]
    rfl
  obtain ⟨body, hbody⟩ : ∃ body,
    body = (a.chunks ++ [a.moveLastComplete.sack]).flatMap padded := ⟨_, rfl⟩
  have hpacket : a.sendAcks.2.packet = setChecksum (front ++ [0, 0, 0, 0] ++ body) := by
    rw [hbody, hfront, List.flatMap_append, List.flatMap_singleton, padded_sack,
      ← List.append_assoc]
    rfl
  rw [hpacket]
  refine ⟨checksumOk_setChecksum ?_, ?_⟩
  · rw [kSctpCommonHeaderSize, List.length_append, List.length_append, hlen]
    simp
  · obtain ⟨crc, hcrc⟩ :
        ∃ crc, crc = setBeUint32 (crc32Sctp (front ++ [0, 0, 0, 0] ++ body)).toNat := ⟨_, rfl⟩
    -- the checksum is written between the ports and the chunks
    have hset : setChecksum (front ++ [0, 0, 0, 0] ++ body) = (front ++ crc) ++ body := by
      have htake : (front ++ ([0, 0, 0, 0] ++ body)).take 8 = front := by
        rw [← hlen]
        exact List.take_left
      have hdrop : (front ++ [0, 0, 0, 0] ++ body).drop 12 = body := by
        have h12 : (front ++ [0, 0, 0, 0]).length = 12 := by
          rw [List.length_append, hlen]
          rfl
        rw [← h12]
        exact List.drop_left
      rw [setChecksum, ← hcrc, writeAt, hcrc, length_setBeUint32, ← hcrc, hdrop,
        List.append_assoc front, htake]
    have hwalk := walksToEnd_flatMap (a.chunks ++ [a.moveLastComplete.sack]) ?_ (front ++ crc)
    · have h12 : (front ++ crc).length = kSctpCommonHeaderSize := by
        rw [List.length_append, hlen, hcrc]
        rfl
      rw [h12, ← hbody] at hwalk
      rw [hset]
      exact hwalk
    · intro c hc
      rcases List.mem_append.mp hc with hc | hc
      · exact h c hc
      · rw [List.mem_singleton.mp hc]
        exact chunkFormed_sack hsize

/-! ## Runs -/

/-- The chunks that wait are well formed, and so is the answer to the last packet. -/
structure OutputFormed (s : Session) : Prop where
  chunks : ChunksFormed s.assoc
  reply : ∀ r ∈ s.reply, checksumOk r.packet = true ∧ WalksToEnd r.packet kSctpCommonHeaderSize

/-- One packet that fits keeps the session well formed. -/
theorem OutputFormed.packet {s : Session} (h : OutputFormed s) (hfits : PacketFits s msg)
    {o : Observed} {r : Option Reply} (hr : Receives s.assoc msg a r) :
    OutputFormed ⟨a, o, r⟩ := by
  cases hr with
  | ignored hsum => exact ⟨h.chunks, fun r hr => absurd hr (by simp)⟩
  | @acknowledged a' hsum hparse =>
    have hends := ends_parseSctpChunks s.assoc msg
    have hsack := hfits.2 hsum
    have hchunks := hfits.1
    rw [reached_eq_handled hsum] at hchunks
    rw [hparse] at hends hsack
    cases hends with
    | complete hall hcomplete hrun =>
      refine ⟨fun c hc => absurd hc List.not_mem_nil, ?_⟩
      intro r hr
      rw [← Option.mem_some_iff.mp hr]
      exact sendAcks_well_formed (h.chunks.handled hchunks hrun) hsack
  | @rejected a' hsum hparse =>
    have hends := ends_parseSctpChunks s.assoc msg
    have hchunks := hfits.1
    rw [reached_eq_handled hsum] at hchunks
    rw [hparse] at hends
    refine ⟨?_, fun r hr => absurd hr (by simp)⟩
    cases hends with
    | incomplete hnone hincomplete hrun => exact h.chunks.handled hchunks hrun
    | init hsome hrun hrej =>
      show ∀ c ∈ a.chunks, ChunkFormed c
      rw [chunks_rejected hrej]
      exact h.chunks.handled hchunks hrun

variable {localPort remotePort : ℕ} {s : Session}

/-- In every run of packets that fit, every packet that is sent has the right checksum, and the
length fields of its chunks lead exactly to its end. -/
theorem output_well_formed (hs : (sctpMachine localPort remotePort).Reachable PacketFits s) :
    ∀ r ∈ s.reply, checksumOk r.packet = true ∧ WalksToEnd r.packet kSctpCommonHeaderSize := by
  refine (Machine.Reachable.invariant (P := OutputFormed) ?_ ?_ hs).reply
  · refine ⟨fun c hc => absurd hc List.not_mem_nil, ?_⟩
    intro r hr
    exact absurd hr (by simp [sctpMachine])
  · intro s msg hformed hfits _
    obtain ⟨⟨a', r⟩, hrecv⟩ := Option.isSome_iff_exists.mp (isSome_recvMsg s.assoc msg)
    simp only [sctpMachine, hrecv]
    exact hformed.packet hfits (receives_recvMsg hrecv)

/-- The answer to a lone INIT. -/
theorem output_well_formed_init : ∃ s : Session, s.reply.isSome = true ∧
    ∀ r ∈ s.reply, checksumOk r.packet = true ∧ WalksToEnd r.packet kSctpCommonHeaderSize := by
  obtain ⟨s, hs, hp⟩ := Machine.reachable_of_replay (M := sctpMachine 5000 5000)
    (C := PacketFits) (l := [packetOf initChunk]) (p := fun s => s.reply.isSome)
    (by decide +kernel)
  exact ⟨s, hp, output_well_formed hs⟩

/-- The answer to an open request has the one byte of a DATA_CHANNEL_ACK in the place of a
chunk. -/
theorem open_answer_not_walkable : ∃ s,
    (sctpMachine 5000 5000).Reachable Machine.anyStep s ∧
      ∃ r ∈ s.reply, ¬WalksToEnd r.packet kSctpCommonHeaderSize := by
  obtain ⟨s, hs, hp⟩ := Machine.reachable_of_replay (M := sctpMachine 5000 5000)
    (C := Machine.anyStep) (l := [packetOf (initChunk ++ openChunk)])
    (p := fun s => s.reply.any fun r => !(chunksFrom r.packet kSctpCommonHeaderSize).2)
    (by decide +kernel)
  rw [Option.any_eq_true] at hp
  obtain ⟨r, hr, hwalk⟩ := hp
  refine ⟨s, hs, r, hr, ?_⟩
  intro hwalks
  rw [hwalks.chunksFrom] at hwalk
  exact absurd hwalk (by decide)

end Anon.Sctp
