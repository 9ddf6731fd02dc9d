import Anon.Sctp.Association

/-!
# The SCTP receiver reads inside its packet

Every read that the receiver makes is at an offset that the checks before it have shown to be
inside the packet, so `recvMsg` gives a result for every packet.
-/

namespace Anon.Sctp

variable {a : Association}

/-- The computation makes no read outside its packet. -/
def Inside {α : Type} (x : Except Stop α) : Prop := x ≠ .error .outOfBounds

theorem inside_ok {α : Type} (v : α) : Inside (.ok v) := by
  simp [Inside]

theorem inside_rejected {α : Type} : Inside (.error (.rejected a) : Except Stop α) := by
  simp [Inside]

theorem isSome_read {α β : Type} {o : Option α} {f : α → Option β} (ho : o.isSome)
    (hf : ∀ v, (f v).isSome) : (o >>= f).isSome := by
  obtain ⟨v, rfl⟩ := Option.isSome_iff_exists.mp ho
  exact hf v

/-- A read inside the packet, followed by a computation that stays inside. -/
theorem inside_read {α β : Type} {o : Option α} {f : α → Except Stop β} (ho : o.isSome)
    (hf : ∀ v, Inside (f v)) : Inside (inBounds o >>= f) := by
  obtain ⟨v, rfl⟩ := Option.isSome_iff_exists.mp ho
  exact hf v

theorem inside_bind {α β : Type} {x : Except Stop α} {f : α → Except Stop β} (hx : Inside x)
    (hf : ∀ v, Inside (f v)) : Inside (x >>= f) := by
  cases x with
  | ok v => exact hf v
  | error e =>
    cases e with
    | outOfBounds => exact absurd rfl hx
    | rejected a => exact inside_rejected

/-! ## Chunks -/

theorem isSome_doDcep (tsn : Tsn) (streamId : ℕ) (data : Bytes) :
    (a.doDcep tsn streamId data).isSome := by
  unfold Association.doDcep
  split
  · rfl
  · next hlen =>
    apply isSome_read (isSome_getElem (by omega))
    intro messageType
    split
    · next h =>
      apply isSome_read (isSome_getElem (by omega))
      intro channelType
      apply isSome_read (isSome_getBeUint16 (by omega))
      intro priority
      apply isSome_read (isSome_getBeUint32 (by omega))
      intro reliability
      apply isSome_read (isSome_getBeUint16 (by omega))
      intro labelLen
      apply isSome_read (isSome_getBeUint16 (by omega))
      intro protocolLen
      split
      · apply isSome_read (isSome_readBytes (by omega))
        intro label
        apply isSome_read (isSome_readBytes (by omega))
        intro protocol
        rfl
      · rfl
    · rfl

theorem isSome_recvDataChunk (chunk : Bytes) : (a.recvDataChunk chunk).isSome := by
  unfold Association.recvDataChunk
  split
  · rfl
  · next hlen =>
    rw [kDataChunkHeaderSize] at hlen
    apply isSome_read (isSome_getElem (by omega))
    intro flags
    apply isSome_read (isSome_getBeUint32 (by omega))
    intro tsn
    apply isSome_read (isSome_getBeUint16 (by omega))
    intro streamId
    apply isSome_read (isSome_getBeUint16 (by omega))
    intro streamSeqNum
    apply isSome_read (isSome_getBeUint32 (by omega))
    intro ppid
    split
    · exact isSome_doDcep _ _ _
    · split
      · split <;> rfl
      · rfl

theorem isSome_initOptions (initData : Bytes) (optStart : ℕ) :
    (initOptions initData optStart).isSome := by
  induction optStart using initOptions.induct initData with
  | case1 optStart hstart ih =>
    rw [initOptions, if_pos hstart]
    rw [kSctpOptionHeaderSize] at hstart
    obtain ⟨optType, htype⟩ : ∃ v, initData[optStart]? = some v :=
      Option.isSome_iff_exists.mp (isSome_getElem (by omega))
    obtain ⟨optFlags, hflags⟩ : ∃ v, initData[optStart + 1]? = some v :=
      Option.isSome_iff_exists.mp (isSome_getElem (by omega))
    obtain ⟨optLen, hoptLen⟩ : ∃ v, getBeUint16 initData (optStart + 2) = some v :=
      Option.isSome_iff_exists.mp (isSome_getBeUint16 (by omega))
    simp only [htype, hflags, hoptLen, Option.bind_eq_bind, Option.bind_some]
    split
    · rfl
    · next hlen =>
      split
      · rfl
      · split
        · exact ih optLen hlen
        · rfl
  | case2 optStart hstart =>
    rw [initOptions, if_neg hstart]
    rfl

theorem inside_doChunkInit (initData : Bytes) : Inside (a.doChunkInit initData) := by
  unfold Association.doChunkInit
  split
  · exact inside_rejected
  · next hlen =>
    rw [kInitChunkHeaderSize] at hlen
    apply inside_read (isSome_getBeUint32 (by omega))
    intro verificationTag
    apply inside_read (isSome_getBeUint32 (by omega))
    intro windowCredit
    apply inside_read (isSome_getBeUint16 (by omega))
    intro outStreams
    apply inside_read (isSome_getBeUint16 (by omega))
    intro inStreams
    apply inside_read (isSome_getBeUint32 (by omega))
    intro initialTsn
    apply inside_read (isSome_initOptions _ _)
    intro accepted
    split
    · exact inside_ok _
    · exact inside_rejected

theorem inside_doChunk (chunkType : UInt8) (chunk : Bytes) :
    Inside (a.doChunk chunkType chunk) := by
  unfold Association.doChunk
  split
  · obtain ⟨a', ha'⟩ := Option.isSome_iff_exists.mp (isSome_recvDataChunk (a := a) chunk)
    rw [ha']
    exact inside_ok a'
  · split
    · split
      · exact inside_rejected
      · exact inside_doChunkInit chunk
    · split
      · exact inside_ok _
      · split <;> exact inside_ok _

/-! ## Packets -/

theorem inside_parseSctpChunks (msg : Bytes) (chunkStart : ℕ) :
    Inside (a.parseSctpChunks msg chunkStart) := by
  induction a, chunkStart using Association.parseSctpChunks.induct msg with
  | case1 a chunkStart hstart ih =>
    rw [Association.parseSctpChunks, if_pos hstart]
    rw [kSctpChunkHeaderSize] at hstart
    apply inside_read (isSome_getElem (by omega))
    intro chunkType
    apply inside_read (isSome_getElem (by omega))
    intro chunkFlags
    apply inside_read (isSome_getBeUint16 (by omega))
    intro chunkLen
    split
    · exact inside_rejected
    · next hlen =>
      split
      · exact inside_rejected
      · next hend =>
        apply inside_read (isSome_readBytes (by omega))
        intro chunk
        apply inside_bind (inside_doChunk chunkType chunk)
        intro a'
        exact ih chunkLen hlen a'
  | case2 a chunkStart hstart =>
    rw [Association.parseSctpChunks, if_neg hstart]
    exact inside_ok a

/-- Every packet leads to a next association, and maybe an answer. -/
theorem isSome_recvMsg (a : Association) (msg : Bytes) : (a.recvMsg msg).isSome := by
  unfold Association.recvMsg
  split
  · rfl
  · next hlen =>
    rw [kSctpCommonHeaderSize] at hlen
    obtain ⟨provided, hprovided⟩ : ∃ v, getBeUint32 msg 8 = some v :=
      Option.isSome_iff_exists.mp (isSome_getBeUint32 (by omega))
    simp only [hprovided, Option.bind_eq_bind, Option.bind_some]
    split
    · split
      · rfl
      · rfl
      · next h => exact absurd h (inside_parseSctpChunks msg kSctpCommonHeaderSize)
    · rfl

end Anon.Sctp
