import Anon.Sctp.SackTheorems

/-!
# The SCTP receiver stays inside its packet

The chunks that the chunk loop hands to `recv_data_chunk` and `do_chunk_init` are pieces of the
packet, so a read that is inside a chunk is inside the packet. Each round of the loop goes on at
least four bytes further, and so does each round of the option loop of an INIT.

* `chunksFrom_bounds`: where the chunks stand, and how many there can be.
* `optionsFrom`: the options of an INIT, as the option loop visits them.
* `staysInside_parseSctpChunks`: the whole receiver.
-/

namespace Anon.Sctp

variable {a : Association} {msg initData : Bytes}

/-! ## The chunk loop -/

/-- The chunks stand in the packet one behind the other, and each takes up four bytes at least. -/
theorem chunksFrom_bounds (chunkStart : ℕ) :
    (∀ c ∈ (chunksFrom msg chunkStart).1, ∃ offset, chunkStart ≤ offset ∧
      readBytes msg offset c.bytes.length = some c.bytes) ∧
    kSctpChunkHeaderSize * (chunksFrom msg chunkStart).1.length ≤ msg.length - chunkStart := by
  induction chunkStart using chunksFrom.induct msg with
  | case1 chunkStart hstart chunkType chunkLen hlen htype hsmall =>
    rw [chunksFrom, if_pos hstart, htype, hlen]
    simp only [dif_pos hsmall]
    exact ⟨fun c hc => absurd hc List.not_mem_nil, Nat.zero_le _⟩
  | case2 chunkStart hstart chunkType chunkLen hlen htype hsmall hend =>
    rw [chunksFrom, if_pos hstart, htype, hlen]
    simp only [dif_neg hsmall, if_pos hend]
    exact ⟨fun c hc => absurd hc List.not_mem_nil, Nat.zero_le _⟩
  | case3 chunkStart hstart chunkType chunkLen hlen htype hsmall hend ih =>
    obtain ⟨hrest, hcount⟩ := ih
    have hround := le_round4 chunkLen
    have hbytes : ((msg.drop chunkStart).take chunkLen).length = chunkLen := by
      rw [List.length_take, List.length_drop]
      omega
    rw [kSctpChunkHeaderSize] at hsmall hcount ⊢
    rw [chunksFrom, if_pos hstart, htype, hlen]
    simp only [kSctpChunkHeaderSize, dif_neg hsmall, if_neg hend]
    constructor
    · intro c hc
      rcases List.mem_cons.mp hc with rfl | hc
      · refine ⟨chunkStart, le_rfl, ?_⟩
        show readBytes msg chunkStart ((msg.drop chunkStart).take chunkLen).length = _
        rw [hbytes, readBytes, if_pos (by omega)]
      · obtain ⟨offset, hle, hread⟩ := hrest c hc
        exact ⟨offset, by omega, hread⟩
    · rw [List.length_cons]
      omega
  | case4 chunkStart hstart hnone =>
    rw [kSctpChunkHeaderSize] at hstart
    exact absurd (getBeUint16_of_le (by omega)) (hnone _ _ (List.getElem?_eq_getElem (by omega)))
  | case5 chunkStart hstart =>
    rw [chunksFrom, if_neg hstart]
    exact ⟨fun c hc => absurd hc List.not_mem_nil, Nat.zero_le _⟩

/-! ## The option loop -/

/-- An option of an INIT: where its header is, and the fields of the header. -/
structure InitOption where
  offset : ℕ
  optType : UInt8
  optFlags : UInt8
  optLen : ℕ

/-- The loop goes on behind the option. -/
def InitOption.accepted (initData : Bytes) (o : InitOption) : Bool :=
  kSctpOptionHeaderSize ≤ o.optLen && o.offset + o.optLen ≤ initData.length &&
    (o.optType == OPT_FORWARD_TSN || o.optType == OPT_SUPPORTED_EXTENSIONS_FIRST_BYTE &&
      o.optFlags == OPT_SUPPORTED_EXTENSIONS_SECOND_BYTE)

theorem InitOption.accepted_iff {o : InitOption} : o.accepted initData = true ↔
    (kSctpOptionHeaderSize ≤ o.optLen ∧ o.offset + o.optLen ≤ initData.length) ∧
      (o.optType = OPT_FORWARD_TSN ∨ o.optType = OPT_SUPPORTED_EXTENSIONS_FIRST_BYTE ∧
        o.optFlags = OPT_SUPPORTED_EXTENSIONS_SECOND_BYTE) := by
  simp only [InitOption.accepted, Bool.and_eq_true, Bool.or_eq_true, decide_eq_true_eq, beq_iff_eq]

/-- The options that the loop visits, the last of them maybe one that it does not accept. -/
def optionsFrom (initData : Bytes) (optStart : ℕ) : List InitOption :=
  if optStart + kSctpOptionHeaderSize < initData.length then
    match initData[optStart]?, initData[optStart + 1]?, getBeUint16 initData (optStart + 2) with
    | some optType, some optFlags, some optLen =>
      let o : InitOption := ⟨optStart, optType, optFlags, optLen⟩
      if _h : o.accepted initData then o :: optionsFrom initData (optStart + round4 optLen)
      else [o]
    | _, _, _ => []
  else []
termination_by initData.length - optStart
decreasing_by
  have hround := le_round4 optLen
  have hlen : kSctpOptionHeaderSize ≤ optLen := (InitOption.accepted_iff.mp _h).1.1
  simp only [kSctpOptionHeaderSize] at *
  omega

/-- The header of an option that the loop looks at can be read. -/
theorem exists_optionHeader {optStart : ℕ}
    (h : optStart + kSctpOptionHeaderSize < initData.length) : ∃ optType optFlags optLen,
      initData[optStart]? = some optType ∧ initData[optStart + 1]? = some optFlags ∧
      getBeUint16 initData (optStart + 2) = some optLen := by
  rw [kSctpOptionHeaderSize] at h
  exact ⟨_, _, _, List.getElem?_eq_getElem (by omega), List.getElem?_eq_getElem (by omega),
    getBeUint16_of_le (by omega)⟩

/-- The rounds of the option loop are the options, and it gets through if it accepts all. -/
theorem initOptions_eq_all (optStart : ℕ) : initOptions initData optStart =
    some ((optionsFrom initData optStart).all (·.accepted initData)) := by
  induction optStart using initOptions.induct initData with
  | case1 optStart hstart ih =>
    obtain ⟨optType, optFlags, optLen, htype, hflags, hlen⟩ := exists_optionHeader hstart
    rw [initOptions, if_pos hstart, optionsFrom, if_pos hstart, htype, hflags, hlen]
    simp only [Option.bind_eq_bind, Option.bind_some]
    by_cases hacc : (InitOption.mk optStart optType optFlags optLen).accepted initData
    · obtain ⟨⟨hsmall, hend⟩, hknown⟩ := InitOption.accepted_iff.mp hacc
      rw [dif_neg (Nat.not_lt.mpr hsmall), if_neg (Nat.not_lt.mpr hend), if_pos hknown,
        dif_pos hacc, List.all_cons, hacc, Bool.true_and]
      exact ih optLen (Nat.not_lt.mpr hsmall)
    · rw [dif_neg hacc, List.all_cons, Bool.eq_false_iff.mpr hacc, Bool.false_and]
      split
      · rfl
      · next hsmall =>
        split
        · rfl
        · next hend =>
          split
          · next hknown =>
            apply absurd _ hacc
            apply InitOption.accepted_iff.mpr
            exact ⟨⟨Nat.le_of_not_lt hsmall, Nat.le_of_not_lt hend⟩, hknown⟩
          · rfl
  | case2 optStart hstart =>
    rw [initOptions, if_neg hstart, optionsFrom, if_neg hstart]
    rfl

/-- Each option takes up four bytes at least. -/
theorem optionsFrom_bounds (optStart : ℕ) :
    kSctpOptionHeaderSize * (optionsFrom initData optStart).length ≤
      initData.length - optStart := by
  induction optStart using initOptions.induct initData with
  | case1 optStart hstart ih =>
    obtain ⟨optType, optFlags, optLen, htype, hflags, hlen⟩ := exists_optionHeader hstart
    rw [optionsFrom, if_pos hstart, htype, hflags, hlen]
    simp only
    split
    · next hacc =>
      have hsmall : kSctpOptionHeaderSize ≤ optLen := (InitOption.accepted_iff.mp hacc).1.1
      have hrest := ih optLen (Nat.not_lt.mpr hsmall)
      have hround := le_round4 optLen
      rw [kSctpOptionHeaderSize] at hstart hsmall hrest ⊢
      rw [List.length_cons]
      omega
    · rw [kSctpOptionHeaderSize] at hstart ⊢
      rw [List.length_singleton]
      omega
  | case2 optStart hstart =>
    rw [optionsFrom, if_neg hstart]
    exact Nat.zero_le _

/-! ## The whole receiver -/

/-- No function of the receiver reads outside the packet, and each of its loops makes one round at
most for each four bytes. -/
structure StaysInside (a : Association) (msg : Bytes) : Prop where
  /-- `parse_sctp_chunks`, with all that it calls. -/
  packet : Inside (a.parseSctpChunks msg kSctpCommonHeaderSize)
  /-- The rounds of the chunk loop are the chunks of the packet. -/
  chunkLoop : a.parseSctpChunks msg kSctpCommonHeaderSize =
    runChunks a (chunksFrom msg kSctpCommonHeaderSize).1 >>= fun a' =>
      if (chunksFrom msg kSctpCommonHeaderSize).2 then .ok a' else .error (.rejected a')
  chunkRounds : kSctpChunkHeaderSize * (chunksFrom msg kSctpCommonHeaderSize).1.length ≤
    msg.length - kSctpCommonHeaderSize
  /-- A chunk is a piece of the packet. -/
  chunk : ∀ c ∈ (chunksFrom msg kSctpCommonHeaderSize).1, ∃ offset,
    kSctpCommonHeaderSize ≤ offset ∧ readBytes msg offset c.bytes.length = some c.bytes
  /-- `recv_data_chunk` reads inside its chunk. -/
  data : ∀ (b : Association), ∀ c ∈ (chunksFrom msg kSctpCommonHeaderSize).1,
    (b.recvDataChunk c.bytes).isSome
  /-- `do_dcep` reads inside the user data of its chunk. -/
  dcep : ∀ (b : Association) (tsn : Tsn) (streamId : ℕ),
    ∀ c ∈ (chunksFrom msg kSctpCommonHeaderSize).1,
      (b.doDcep tsn streamId (c.bytes.drop kDataChunkHeaderSize)).isSome
  /-- `do_chunk_init` reads inside its chunk. -/
  init : ∀ (b : Association), ∀ c ∈ (chunksFrom msg kSctpCommonHeaderSize).1,
    Inside (b.doChunkInit c.bytes)
  /-- The rounds of the option loop are the options of the INIT. -/
  optionLoop : ∀ c ∈ (chunksFrom msg kSctpCommonHeaderSize).1,
    initOptions c.bytes kInitChunkHeaderSize =
      some ((optionsFrom c.bytes kInitChunkHeaderSize).all (·.accepted c.bytes))
  optionRounds : ∀ c ∈ (chunksFrom msg kSctpCommonHeaderSize).1,
    kSctpOptionHeaderSize * (optionsFrom c.bytes kInitChunkHeaderSize).length ≤
      c.bytes.length - kInitChunkHeaderSize

theorem staysInside_parseSctpChunks (a : Association) (msg : Bytes) : StaysInside a msg where
  packet := inside_parseSctpChunks msg kSctpCommonHeaderSize
  chunkLoop := parseSctpChunks_eq msg kSctpCommonHeaderSize
  chunkRounds := (chunksFrom_bounds kSctpCommonHeaderSize).2
  chunk := (chunksFrom_bounds kSctpCommonHeaderSize).1
  data _ c _ := isSome_recvDataChunk c.bytes
  dcep _ tsn streamId _ _ := isSome_doDcep tsn streamId _
  init _ c _ := inside_doChunkInit c.bytes
  optionLoop _ _ := initOptions_eq_all kInitChunkHeaderSize
  optionRounds _ _ := optionsFrom_bounds kInitChunkHeaderSize

end Anon.Sctp
