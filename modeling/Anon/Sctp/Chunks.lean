import Anon.Sctp.SackTheorems

/-!
# What the chunks of a packet do

* `Chunk.isOpen`, `Chunk.isMessage`: the DATA chunks that carry something for the data channels,
  judged by their bytes.
* `recvDataChunk_eq`: a DATA chunk opens a data channel, or is a whole string on an open channel,
  or leaves the association alone.
* `doChunkInit_eq`: an INIT starts the account of TSNs and is answered.
* `Handles`, `handles_doChunk`: all that a chunk can do when the chunk loop goes on after it.
* `Ends`, `ends_parseSctpChunks`: the ways in which the chunk loop ends.
-/

namespace Anon.Sctp

/-! ## The fields of a DATA chunk -/

def Chunk.flags (c : Chunk) : UInt8 := c.bytes[1]?.getD 0

def Chunk.streamId (c : Chunk) : ℕ := (getBeUint16 c.bytes 8).getD 0

def Chunk.ppid (c : Chunk) : ℕ := (getBeUint32 c.bytes 12).getD 0

def Chunk.payload (c : Chunk) : Bytes := c.bytes.drop kDataChunkHeaderSize

/-- The stream that a DATA_CHANNEL_OPEN message describes. -/
def openStream (data : Bytes) : DataChannelStream where
  channelType := data[1]?.getD 0
  priority := (getBeUint16 data 2).getD 0
  reliability := (getBeUint32 data 4).getD 0
  label := (data.drop 12).take ((getBeUint16 data 8).getD 0)
  protocol := (data.drop (12 + (getBeUint16 data 8).getD 0)).take ((getBeUint16 data 10).getD 0)

/-- The message is a DATA_CHANNEL_OPEN, with its label and its protocol complete. -/
def completeOpen (data : Bytes) : Bool :=
  data[0]? == some 0x03 && 12 ≤ data.length &&
    12 + (getBeUint16 data 8).getD 0 + (getBeUint16 data 10).getD 0 ≤ data.length

/-- The DATA chunk opens a data channel. -/
def Chunk.isOpen (c : Chunk) : Bool :=
  c.isData && c.ppid == PPID_DCEP && completeOpen c.payload

/-- The chunk is a whole message, not a fragment of one. -/
def Chunk.isWhole (c : Chunk) : Bool := c.flags &&& 0x02 != 0 && c.flags &&& 0x01 != 0

/-- The DATA chunk is a whole message for a data channel. -/
def Chunk.isMessage (c : Chunk) : Bool :=
  c.isData && (c.ppid == PPID_String || c.ppid == PPID_Binary || c.ppid == PPID_EmptyString ||
    c.ppid == PPID_EmptyBinary) && c.isWhole

/-- The DATA chunk is a whole string message. -/
def Chunk.isString (c : Chunk) : Bool := c.isData && c.ppid == PPID_String && c.isWhole

variable {a : Association} {c : Chunk} {t tsn : Tsn}

/-! ## `add_chunk` -/

theorem lastCompleteTsn_addChunk (tsn : Tsn) (chunk : Bytes) :
    (a.addChunk tsn chunk).lastCompleteTsn = a.lastCompleteTsn := by
  cases records_addChunk a tsn chunk with
  | same hlast => exact hlast
  | insert hlast => exact hlast

/-- `add_chunk` records a TSN if its number is above the last complete one. -/
theorem mem_tsns_addChunk (tsn : Tsn) (chunk : Bytes) :
    t ∈ (a.addChunk tsn chunk).tsns ↔ t ∈ a.tsns ∨ t = tsn ∧ a.lastCompleteTsn < tsn := by
  unfold Association.addChunk
  by_cases hlt : a.lastCompleteTsn < tsn
  · by_cases hmem : tsn ∈ a.tsns
    · simp only [hlt, hmem, if_true]
      split
      · simp only [and_true, iff_self_or]
        rintro rfl
        exact hmem
      · simp only [and_true, iff_self_or]
        rintro rfl
        exact hmem
    · simp only [hlt, hmem, if_true, if_false]
      split <;> simp [or_comm]
  · simp only [hlt, if_false]
    split <;> simp

/-- A TSN that is on record already becomes a duplicate. -/
theorem mem_duplicates_addChunk {tsn : Tsn} {chunk : Bytes}
    (h : t ∈ (a.addChunk tsn chunk).duplicateTsns) : t ∈ a.duplicateTsns ∨ t ∈ a.tsns := by
  unfold Association.addChunk at h
  by_cases hlt : a.lastCompleteTsn < tsn
  · by_cases hmem : tsn ∈ a.tsns
    · simp only [hlt, hmem, if_true] at h
      have h : t ∈ a.duplicateTsns ++ [tsn] := by
        split at h <;> exact h
      rcases List.mem_append.mp h with h | h
      · exact Or.inl h
      · rw [List.mem_singleton.mp h]
        exact Or.inr hmem
    · simp only [hlt, hmem, if_true, if_false] at h
      split at h <;> exact Or.inl h
  · simp only [hlt, if_false] at h
    split at h <;> exact Or.inl h

theorem streams_addChunk (tsn : Tsn) (chunk : Bytes) :
    (a.addChunk tsn chunk).streams = a.streams := by
  unfold Association.addChunk
  by_cases hlt : a.lastCompleteTsn < tsn
  · by_cases hmem : tsn ∈ a.tsns
    · simp only [hlt, hmem, if_true]
      split <;> rfl
    · simp only [hlt, hmem, if_true, if_false]
      split <;> rfl
  · simp only [hlt, if_false]
    split <;> rfl

theorem chunks_addChunk_nil (a : Association) (tsn : Tsn) :
    (a.addChunk tsn []).chunks = a.chunks := by
  unfold Association.addChunk
  simp only [if_true]
  split
  · split <;> rfl
  · rfl

/-! ## The equations -/

theorem doDcep_eq (streamId : ℕ) (data : Bytes) :
    a.doDcep tsn streamId data =
      some (if completeOpen data then
        (a.emplaceStream streamId (openStream data)).addChunk tsn [0x02] else a) := by
  unfold Association.doDcep
  by_cases hzero : data.length = 0
  · have hopen : completeOpen data = false := by
      simp [completeOpen, List.length_eq_zero_iff.mp hzero]
    rw [if_pos hzero, hopen]
    rfl
  · rw [if_neg hzero]
    obtain ⟨messageType, htype⟩ : ∃ v, data[0]? = some v :=
      Option.isSome_iff_exists.mp (isSome_getElem (by omega))
    simp only [htype, Option.bind_eq_bind, Option.bind_some]
    by_cases hlong : messageType = 0x03 ∧ 12 ≤ data.length
    · rw [if_pos hlong]
      obtain ⟨rfl, hlen⟩ := hlong
      obtain ⟨channelType, hchannel⟩ : ∃ v, data[1]? = some v :=
        Option.isSome_iff_exists.mp (isSome_getElem (by omega))
      obtain ⟨priority, hpriority⟩ : ∃ v, getBeUint16 data 2 = some v :=
        Option.isSome_iff_exists.mp (isSome_getBeUint16 (by omega))
      obtain ⟨reliability, hreliability⟩ : ∃ v, getBeUint32 data 4 = some v :=
        Option.isSome_iff_exists.mp (isSome_getBeUint32 (by omega))
      obtain ⟨labelLen, hlabel⟩ : ∃ v, getBeUint16 data 8 = some v :=
        Option.isSome_iff_exists.mp (isSome_getBeUint16 (by omega))
      obtain ⟨protocolLen, hprotocol⟩ : ∃ v, getBeUint16 data 10 = some v :=
        Option.isSome_iff_exists.mp (isSome_getBeUint16 (by omega))
      simp only [hchannel, hpriority, hreliability, hlabel, hprotocol, Option.bind_some]
      -- the label and the protocol are inside the message or it is ignored
      by_cases hfit : 12 + labelLen + protocolLen ≤ data.length
      · have hopen : completeOpen data = true := by
          simp [completeOpen, htype, hlen, hlabel, hprotocol, hfit]
        rw [if_pos hfit, hopen, readBytes, if_pos (by omega), readBytes, if_pos (by omega)]
        simp [openStream, hchannel, hpriority, hreliability, hlabel, hprotocol]
      · have hopen : completeOpen data = false := by
          simp [completeOpen, hlabel, hprotocol]
          omega
        rw [if_neg hfit, hopen]
        rfl
    · have hopen : completeOpen data = false := by
        rw [not_and_or] at hlong
        rcases hlong with hne | hshort
        · simp [completeOpen, htype, hne]
        · simp [completeOpen, hshort]
      rw [if_neg hlong, hopen]
      rfl

/-- What a DATA chunk does to the association. -/
theorem recvDataChunk_eq (hdata : c.isData = true) :
    a.recvDataChunk c.bytes =
      some (if c.isOpen then
        (a.emplaceStream c.streamId (openStream c.payload)).addChunk c.tsn [0x02]
      else if c.isString && a.hasStream c.streamId then a.addChunk c.tsn []
      else a) := by
  have hlen : kDataChunkHeaderSize ≤ c.bytes.length := by
    simp only [Chunk.isData, Bool.and_eq_true, decide_eq_true_eq] at hdata
    exact hdata.2
  rw [Association.recvDataChunk, if_neg (by omega)]
  rw [kDataChunkHeaderSize] at hlen
  obtain ⟨flags, hflags⟩ : ∃ v, c.bytes[1]? = some v :=
    Option.isSome_iff_exists.mp (isSome_getElem (by omega))
  obtain ⟨tsn, htsn⟩ : ∃ v, getBeUint32 c.bytes 4 = some v :=
    Option.isSome_iff_exists.mp (isSome_getBeUint32 (by omega))
  obtain ⟨streamId, hstream⟩ : ∃ v, getBeUint16 c.bytes 8 = some v :=
    Option.isSome_iff_exists.mp (isSome_getBeUint16 (by omega))
  obtain ⟨streamSeqNum, hseq⟩ : ∃ v, getBeUint16 c.bytes 10 = some v :=
    Option.isSome_iff_exists.mp (isSome_getBeUint16 (by omega))
  obtain ⟨ppid, hppid⟩ : ∃ v, getBeUint32 c.bytes 12 = some v :=
    Option.isSome_iff_exists.mp (isSome_getBeUint32 (by omega))
  have htsn' : c.tsn = BitVec.ofNat 32 tsn := by rw [Chunk.tsn, htsn]; rfl
  have hstream' : c.streamId = streamId := by rw [Chunk.streamId, hstream]; rfl
  have hppid' : c.ppid = ppid := by rw [Chunk.ppid, hppid]; rfl
  have hflags' : c.flags = flags := by rw [Chunk.flags, hflags]; rfl
  simp only [hflags, htsn, hstream, hseq, hppid, Option.bind_eq_bind, Option.bind_some]
  rw [htsn', hstream']
  by_cases hdcep : ppid = PPID_DCEP
  · rw [if_pos hdcep, doDcep_eq]
    have hopen : c.isOpen = completeOpen c.payload := by
      simp [Chunk.isOpen, hdata, hppid', hdcep]
    have hstring : c.isString = false := by
      simp [Chunk.isString, hppid', hdcep, PPID_DCEP, PPID_String]
    rw [hopen, hstring]
    rfl
  · have hopen : c.isOpen = false := by
      simp [Chunk.isOpen, hppid', hdcep]
    rw [if_neg hdcep, hopen]
    -- of the messages on an open stream only the strings are looked at
    by_cases hmsg : ppid = PPID_String ∨ ppid = PPID_Binary ∨ ppid = PPID_EmptyString ∨
        ppid = PPID_EmptyBinary
    · rw [if_pos hmsg]
      by_cases hwhole : a.hasStream streamId ∧ flags &&& 0x02 ≠ 0 ∧ flags &&& 0x01 ≠ 0
      · rw [if_pos hwhole, Association.doData]
        by_cases hstr : ppid = PPID_String
        · simp [Chunk.isString, Chunk.isWhole, hdata, hppid', hflags', hstr, hwhole]
        · simp [Chunk.isString, hppid', hstr]
      · rw [if_neg hwhole]
        have hno : (c.isString && a.hasStream streamId) = false := by
          rw [Bool.eq_false_iff]
          intro hyes
          apply hwhole
          simp [Chunk.isString, Chunk.isWhole, hflags'] at hyes
          exact ⟨hyes.2, hyes.1.2⟩
        rw [hno]
        rfl
    · rw [if_neg hmsg]
      have hstr : c.isString = false := by
        simp only [Chunk.isString, hppid']
        rw [not_or] at hmsg
        simp [hmsg.1]
      rw [hstr]
      rfl

/-- What an INIT that is long enough does to the association. -/
theorem doChunkInit_eq (hlen : kInitChunkHeaderSize ≤ c.bytes.length) :
    a.doChunkInit c.bytes =
      if c.acceptable then .ok { a with
        verificationTag := BitVec.ofNat 32 ((getBeUint32 c.bytes 4).getD 0)
        lastCompleteTsn := c.initialTsn - 1
        tsns := a.tsns.insert c.initialTsn
        chunks := a.chunks ++ [initAck c.bytes] }
      else .error (.rejected { a with
        verificationTag := BitVec.ofNat 32 ((getBeUint32 c.bytes 4).getD 0)
        lastCompleteTsn := c.initialTsn - 1 }) := by
  rw [Association.doChunkInit, if_neg (by omega)]
  obtain ⟨accepted, hopt⟩ :=
    Option.isSome_iff_exists.mp (isSome_initOptions c.bytes kInitChunkHeaderSize)
  rw [acceptable_iff hlen hopt]
  rw [kInitChunkHeaderSize] at hlen
  obtain ⟨tag, htag⟩ : ∃ v, getBeUint32 c.bytes 4 = some v :=
    Option.isSome_iff_exists.mp (isSome_getBeUint32 (by omega))
  obtain ⟨credit, hcredit⟩ : ∃ v, getBeUint32 c.bytes 8 = some v :=
    Option.isSome_iff_exists.mp (isSome_getBeUint32 (by omega))
  obtain ⟨outStreams, hout⟩ : ∃ v, getBeUint16 c.bytes 12 = some v :=
    Option.isSome_iff_exists.mp (isSome_getBeUint16 (by omega))
  obtain ⟨inStreams, hin⟩ : ∃ v, getBeUint16 c.bytes 14 = some v :=
    Option.isSome_iff_exists.mp (isSome_getBeUint16 (by omega))
  obtain ⟨initialTsn, htsn⟩ : ∃ v, getBeUint32 c.bytes 16 = some v :=
    Option.isSome_iff_exists.mp (isSome_getBeUint32 (by omega))
  have hinitial : c.initialTsn = BitVec.ofNat 32 initialTsn := by
    rw [Chunk.initialTsn, htsn]
    rfl
  have hnext : BitVec.ofNat 32 initialTsn - 1 + 1 = BitVec.ofNat 32 initialTsn := by bv_omega
  simp only [htag, hcredit, hout, hin, htsn, hopt, inBounds, bind, Except.bind, hinitial, hnext,
    Option.getD_some]
  cases accepted <;> rfl

/-! ## One chunk -/

/-- What the association is after a chunk that the chunk loop goes on after. -/
inductive Handles (a : Association) (c : Chunk) : Association → Prop
  | opens (hopen : c.isOpen = true) :
      Handles a c ((a.emplaceStream c.streamId (openStream c.payload)).addChunk c.tsn [0x02])
  | string (hstring : c.isString = true) (hstream : a.hasStream c.streamId = true) :
      Handles a c (a.addChunk c.tsn [])
  | init (hinit : c.isAcceptedInit = true) :
      Handles a c { a with
        verificationTag := BitVec.ofNat 32 ((getBeUint32 c.bytes 4).getD 0)
        lastCompleteTsn := c.initialTsn - 1
        tsns := a.tsns.insert c.initialTsn
        chunks := a.chunks ++ [initAck c.bytes] }
  | heartbeat (htype : c.chunkType = CHNK_HEARTBEAT) :
      Handles a c { a with chunks := a.chunks ++ [writeAt c.bytes 0 [CHNK_HEARTBEAT_ACK]] }
  | cookieEcho (htype : c.chunkType = CHNK_COOKIE_ECHO) :
      Handles a c { a with chunks := a.chunks ++ [[CHNK_COOKIE_ACK, 0] ++ setBeUint16 4] }
  | nothing (hopen : c.isOpen = false)
      (hstring : c.isString = true → a.hasStream c.streamId = false)
      (hinit : c.isAcceptedInit = false) (hheartbeat : c.chunkType ≠ CHNK_HEARTBEAT)
      (hcookie : c.chunkType ≠ CHNK_COOKIE_ECHO) : Handles a c a

theorem chunkType_of_isData (h : c.isData = true) : c.chunkType = CHNK_DATA := by
  simp only [Chunk.isData, Bool.and_eq_true, beq_iff_eq] at h
  exact h.1

theorem isData_of_isOpen (h : c.isOpen = true) : c.isData = true := by
  simp only [Chunk.isOpen, Bool.and_eq_true] at h
  exact h.1.1

theorem isData_of_isString (h : c.isString = true) : c.isData = true := by
  simp only [Chunk.isString, Bool.and_eq_true] at h
  exact h.1.1

/-- A string opens no channel. -/
theorem not_isOpen_of_isString (h : c.isString = true) : c.isOpen = false := by
  simp only [Chunk.isString, Bool.and_eq_true, beq_iff_eq] at h
  simp [Chunk.isOpen, h.1.2, PPID_String, PPID_DCEP]

/-- A DATA chunk is neither answered nor an INIT. -/
theorem other_of_data (h : c.chunkType = CHNK_DATA) :
    c.chunkType ≠ CHNK_HEARTBEAT ∧ c.chunkType ≠ CHNK_COOKIE_ECHO ∧ c.isAcceptedInit = false := by
  simp [Chunk.isAcceptedInit, h, CHNK_DATA, CHNK_HEARTBEAT, CHNK_COOKIE_ECHO, CHNK_INIT]

theorem handles_recvDataChunk {a' : Association} (htype : c.chunkType = CHNK_DATA)
    (h : a.recvDataChunk c.bytes = some a') : Handles a c a' := by
  obtain ⟨hheartbeat, hcookie, hinit⟩ := other_of_data htype
  by_cases hdata : c.isData = true
  · rw [recvDataChunk_eq hdata] at h
    rw [← Option.some.inj h]
    by_cases hopen : c.isOpen = true
    · rw [if_pos hopen]
      exact .opens hopen
    · rw [if_neg hopen]
      by_cases hstring : (c.isString && a.hasStream c.streamId) = true
      · rw [if_pos hstring]
        rw [Bool.and_eq_true] at hstring
        exact .string hstring.1 hstring.2
      · rw [if_neg hstring]
        refine .nothing (Bool.eq_false_iff.mpr hopen) ?_ hinit hheartbeat hcookie
        intro hstr
        rw [hstr, Bool.true_and] at hstring
        exact Bool.eq_false_iff.mpr hstring
  · have hshort : c.bytes.length < kDataChunkHeaderSize := by
      simpa [Chunk.isData, htype] using hdata
    rw [recvDataChunk_of_short hshort] at h
    rw [← Option.some.inj h]
    refine .nothing ?_ ?_ hinit hheartbeat hcookie
    · simp [Chunk.isOpen, hdata]
    · intro hstring
      exact absurd (isData_of_isString hstring) hdata

theorem handles_doChunk {a' : Association} (h : a.doChunk c.chunkType c.bytes = .ok a') :
    Handles a c a' := by
  unfold Association.doChunk at h
  by_cases hdata : c.chunkType = CHNK_DATA
  · rw [if_pos hdata, inBounds_eq_ok] at h
    exact handles_recvDataChunk hdata h
  · rw [if_neg hdata] at h
    by_cases hinit : c.chunkType = CHNK_INIT
    · rw [if_pos hinit] at h
      split at h
      · exact absurd h (by simp)
      · have hacc := (doChunkInit_eq_ok h).1
        have hlen : kInitChunkHeaderSize ≤ c.bytes.length := by
          by_contra hshort
          rw [not_acceptable_of_short (by omega)] at hacc
          exact absurd hacc (by simp)
        rw [doChunkInit_eq hlen, if_pos hacc] at h
        rw [← Except.ok.inj h]
        apply Handles.init
        simp [Chunk.isAcceptedInit, hinit, hacc]
    · rw [if_neg hinit] at h
      split at h
      · next htype =>
        rw [← Except.ok.inj h]
        exact .heartbeat htype
      · next hheartbeat =>
        split at h
        · next htype =>
          rw [← Except.ok.inj h]
          exact .cookieEcho htype
        · next hcookie =>
          rw [← Except.ok.inj h]
          refine .nothing ?_ ?_ ?_ hheartbeat hcookie
          · simp [Chunk.isOpen, Chunk.isData, hdata]
          · simp [Chunk.isString, Chunk.isData, hdata]
          · simp [Chunk.isAcceptedInit, hinit]

/-- What an INIT that is rejected leaves behind. -/
theorem doChunk_eq_rejected {a' : Association}
    (h : a.doChunk c.chunkType c.bytes = .error (.rejected a')) :
    a' = { a with
      verificationTag := 0
      lastCompleteTsn :=
        if kInitChunkHeaderSize ≤ c.bytes.length then c.initialTsn - 1
        else a.lastCompleteTsn } := by
  obtain ⟨hinit, hacc, -⟩ := doChunk_rejected h
  rw [Association.doChunk, hinit, if_neg (by decide), if_pos rfl] at h
  by_cases hlen : kInitChunkHeaderSize ≤ c.bytes.length
  · rw [doChunkInit_eq hlen, hacc, if_neg (by decide)] at h
    rw [← Stop.rejected.inj (Except.error.inj h), if_pos hlen]
  · rw [Association.doChunkInit, if_pos (by omega)] at h
    rw [← Stop.rejected.inj (Except.error.inj h), if_neg hlen]

/-! ## The chunk loop -/

/-- The chunks in front of the first rejected INIT. -/
def handled (msg : Bytes) : List Chunk :=
  (chunksFrom msg kSctpCommonHeaderSize).1.takeWhile fun c => !c.isRejectedInit

/-- The first INIT that is rejected. -/
def rejectedInit (msg : Bytes) : Option Chunk :=
  ((chunksFrom msg kSctpCommonHeaderSize).1.dropWhile fun c => !c.isRejectedInit).head?

theorem reached_eq_handled {msg : Bytes} (hsum : checksumOk msg = true) :
    reached msg = handled msg := if_pos hsum

theorem runChunks_eq_ok {cs : List Chunk} {a' : Association} (h : runChunks a cs = .ok a') :
    (cs.takeWhile fun c => !c.isRejectedInit) = cs ∧
      (cs.dropWhile fun c => !c.isRejectedInit).head? = none := by
  induction cs generalizing a with
  | nil => exact ⟨rfl, rfl⟩
  | cons c cs ih =>
    rw [runChunks_cons] at h
    obtain ⟨a1, ha1, h⟩ := bind_eq_ok.mp h
    have hnot := not_rejected_of_ok ha1
    obtain ⟨htake, hdrop⟩ := ih h
    refine ⟨?_, ?_⟩
    · rw [List.takeWhile_cons, hnot, htake]
      rfl
    · rw [List.dropWhile_cons, hnot]
      exact hdrop

/-- A run of chunks that is stopped was stopped by a rejected INIT. -/
theorem runChunks_eq_rejected {cs : List Chunk} {a' : Association}
    (h : runChunks a cs = .error (.rejected a')) :
    ∃ a1 c, runChunks a (cs.takeWhile fun c => !c.isRejectedInit) = .ok a1 ∧
      (cs.dropWhile fun c => !c.isRejectedInit).head? = some c ∧
      a1.doChunk c.chunkType c.bytes = .error (.rejected a') := by
  induction cs generalizing a with
  | nil => exact absurd h (by simp [runChunks, pure, Except.pure])
  | cons c cs ih =>
    rw [runChunks_cons] at h
    cases hc : a.doChunk c.chunkType c.bytes with
    | ok a1 =>
      rw [hc] at h
      have hnot := not_rejected_of_ok hc
      obtain ⟨a2, d, hrun, hhead, hd⟩ := ih h
      refine ⟨a2, d, ?_, ?_, hd⟩
      · rw [List.takeWhile_cons, hnot]
        show runChunks a (c :: _) = _
        rw [runChunks_cons, hc]
        exact hrun
      · rw [List.dropWhile_cons, hnot]
        exact hhead
    | error e =>
      rw [hc] at h
      have he : e = .rejected a' := Except.error.inj h
      rw [he] at hc
      obtain ⟨hinit, hacc, -⟩ := doChunk_rejected hc
      have hrejected : c.isRejectedInit = true := by
        simp [Chunk.isRejectedInit, hinit, hacc]
      refine ⟨a, c, ?_, ?_, hc⟩
      · rw [List.takeWhile_cons, hrejected]
        rfl
      · rw [List.dropWhile_cons, hrejected]
        rfl

/-- How the chunk loop ends on a packet. -/
inductive Ends (a : Association) (msg : Bytes) : Except Stop Association → Prop
  /-- All chunks were complete and none of them was rejected. -/
  | complete {a' : Association} (hall : (chunksFrom msg kSctpCommonHeaderSize).1 = handled msg)
      (hcomplete : (chunksFrom msg kSctpCommonHeaderSize).2 = true)
      (hrun : runChunks a (handled msg) = .ok a') : Ends a msg (.ok a')
  /-- The complete chunks were handled, but something else follows them. -/
  | incomplete {a' : Association} (hnone : rejectedInit msg = none)
      (hincomplete : (chunksFrom msg kSctpCommonHeaderSize).2 = false)
      (hrun : runChunks a (handled msg) = .ok a') : Ends a msg (.error (.rejected a'))
  /-- An INIT was rejected. -/
  | init {a1 a' : Association} {c : Chunk} (hsome : rejectedInit msg = some c)
      (hrun : runChunks a (handled msg) = .ok a1)
      (hrej : a1.doChunk c.chunkType c.bytes = .error (.rejected a')) :
      Ends a msg (.error (.rejected a'))

theorem ends_parseSctpChunks (a : Association) (msg : Bytes) :
    Ends a msg (a.parseSctpChunks msg kSctpCommonHeaderSize) := by
  have hinside := inside_parseSctpChunks (a := a) msg kSctpCommonHeaderSize
  rw [parseSctpChunks_eq] at hinside ⊢
  cases hrun : runChunks a (chunksFrom msg kSctpCommonHeaderSize).1 with
  | ok a' =>
    obtain ⟨htake, hdrop⟩ := runChunks_eq_ok hrun
    have hhandled : runChunks a (handled msg) = .ok a' := by
      rw [handled, htake]
      exact hrun
    show Ends a msg (if _ then _ else _)
    cases hcomplete : (chunksFrom msg kSctpCommonHeaderSize).2 with
    | true => exact .complete htake.symm hcomplete hhandled
    | false => exact .incomplete hdrop hcomplete hhandled
  | error e =>
    rw [hrun] at hinside
    cases e with
    | outOfBounds => exact absurd rfl hinside
    | rejected a' =>
      obtain ⟨a1, c, hhandled, hhead, hrej⟩ := runChunks_eq_rejected hrun
      exact .init hhead hhandled hrej

/-- What every chunk keeps that the loop goes on after holds when the chunks have been handled. -/
theorem runChunks_invariant {P : Association → Prop} {cs : List Chunk} {a' : Association}
    (hstep : ∀ c ∈ cs, ∀ a a', P a → a.doChunk c.chunkType c.bytes = .ok a' → P a')
    (h : P a) (hrun : runChunks a cs = .ok a') : P a' := by
  induction cs generalizing a with
  | nil =>
    rw [← Except.ok.inj hrun]
    exact h
  | cons c cs ih =>
    rw [runChunks_cons] at hrun
    obtain ⟨a1, ha1, hrun⟩ := bind_eq_ok.mp hrun
    apply ih _ (hstep c List.mem_cons_self a a1 h ha1) hrun
    intro d hd
    exact hstep d (List.mem_cons_of_mem c hd)

end Anon.Sctp
