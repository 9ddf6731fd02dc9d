import Anon.Sctp.AssociationTheorems
import Anon.Sctp.Sack

/-!
# When SACKs acknowledge only what was received

* `Sound`: the invariant between an association and the observer of its packets.
* `Sound.chunk`: one safe chunk keeps it; `Sound.packet`: so do the chunks of a safe packet.
* `Sound.moveLastComplete`: so does the first loop of `send_acks`, once the initial TSN has been
  received.
* `acknowledges_sack`: what the bytes of the SACK of a sound association acknowledge.
-/

namespace Anon.Sctp

variable {a a' : Association} {o : Observed} {c : Chunk} {i last t : Tsn} {ts : List Tsn}

/-! ## The invariant -/

/-- Relative to the initial TSN `i`: everything up to the last complete TSN was received, every
recorded TSN was received or is `i` itself, and lies within 65535 after the last complete TSN. -/
structure SoundFrom (i last : Tsn) (ts received : List Tsn) : Prop where
  complete : ∀ t, (t - i).toNat < (last + 1 - i).toNat → t ∈ received
  recorded : ∀ t ∈ ts, t = i ∨ t ∈ received
  near : ∀ t ∈ ts, 1 ≤ (t - last).toNat ∧ (t - last).toNat < 2 ^ 16

/-- Since the most recent INIT, if there was one, the association has only recorded what was
received. -/
def Sound (a : Association) (o : Observed) : Prop :=
  ∀ i ∈ o.initial, SoundFrom i a.lastCompleteTsn a.tsns.val o.received

theorem SoundFrom.mono {received received' : List Tsn} (h : SoundFrom i last ts received)
    (hsub : ∀ t ∈ received, t ∈ received') : SoundFrom i last ts received' where
  complete t ht := hsub t (h.complete t ht)
  recorded t ht := (h.recorded t ht).imp_right (hsub t)
  near := h.near

/-! ## DATA chunks -/

/-- What a DATA chunk can do to the account of TSNs: nothing, or record its TSN. -/
inductive Records (a : Association) (t : Tsn) : Association → Prop
  | same {a' : Association} (hlast : a'.lastCompleteTsn = a.lastCompleteTsn)
      (htsns : a'.tsns = a.tsns) : Records a t a'
  | insert {a' : Association} (hlast : a'.lastCompleteTsn = a.lastCompleteTsn)
      (ht : a.lastCompleteTsn < t) (htsns : a'.tsns = a.tsns.insert t) : Records a t a'

theorem records_addChunk (a : Association) (t : Tsn) (chunk : Bytes) :
    Records a t (a.addChunk t chunk) := by
  unfold Association.addChunk
  by_cases ht : a.lastCompleteTsn < t
  · by_cases hmem : t ∈ a.tsns
    · apply Records.same <;> simp only [ht, hmem, if_true] <;> split <;> rfl
    · apply Records.insert _ ht <;> simp only [ht, hmem, if_true, if_false] <;> split <;> rfl
  · apply Records.same <;> simp only [ht, if_false] <;> split <;> rfl

theorem records_emplaceStream {id : ℕ} {stream : DataChannelStream} {chunk : Bytes} :
    Records a t ((a.emplaceStream id stream).addChunk t chunk) := by
  have hlast : (a.emplaceStream id stream).lastCompleteTsn = a.lastCompleteTsn := by
    unfold Association.emplaceStream
    split <;> rfl
  have htsns : (a.emplaceStream id stream).tsns = a.tsns := by
    unfold Association.emplaceStream
    split <;> rfl
  cases records_addChunk (a.emplaceStream id stream) t chunk with
  | same h1 h2 => exact .same (h1.trans hlast) (h2.trans htsns)
  | insert h1 ht h2 => exact .insert (h1.trans hlast) (hlast ▸ ht) (htsns ▸ h2)

theorem inBounds_eq_ok {α : Type} {x : Option α} {v : α} : inBounds x = .ok v ↔ x = some v := by
  cases x <;> simp [inBounds]

/-- A function that reads is rejected only behind the read. -/
theorem inBounds_bind_eq_rejected {α β : Type} {x : Option α} {f : α → Except Stop β} :
    inBounds x >>= f = .error (.rejected a) ↔ ∃ v, x = some v ∧ f v = .error (.rejected a) := by
  cases x <;> simp [inBounds, bind, Except.bind]

theorem records_doDcep {streamId : ℕ} {data : Bytes}
    (h : a.doDcep t streamId data = some a') : Records a t a' := by
  unfold Association.doDcep at h
  split at h
  · rw [← Option.some.inj h]
    exact .same rfl rfl
  · obtain ⟨messageType, -, h⟩ := Option.bind_eq_some_iff.mp h
    split at h
    · simp only [Option.bind_eq_bind, Option.bind_eq_some_iff] at h
      obtain ⟨channelType, -, priority, -, reliability, -, labelLen, -, protocolLen, -, h⟩ := h
      split at h
      · simp only [Option.bind_eq_some_iff] at h
        obtain ⟨label, -, protocol, -, h⟩ := h
        rw [← Option.some.inj h]
        exact records_emplaceStream
      · rw [← Option.some.inj h]
        exact .same rfl rfl
    · rw [← Option.some.inj h]
      exact .same rfl rfl

theorem records_doData {ppid : ℕ} : Records a t (a.doData t ppid) := by
  unfold Association.doData
  split
  · exact records_addChunk a t []
  · exact .same rfl rfl

/-- A DATA chunk records at most the TSN in its header. -/
theorem records_recvDataChunk (hlen : kDataChunkHeaderSize ≤ c.bytes.length)
    (h : a.recvDataChunk c.bytes = some a') : Records a c.tsn a' := by
  rw [Association.recvDataChunk, if_neg (by omega)] at h
  simp only [Option.bind_eq_bind, Option.bind_eq_some_iff] at h
  obtain ⟨flags, -, tsn, htsn, streamId, -, streamSeqNum, -, ppid, -, h⟩ := h
  have hc : BitVec.ofNat 32 tsn = c.tsn := by
    rw [Chunk.tsn, htsn]
    rfl
  rw [hc] at h
  split at h
  · exact records_doDcep h
  · split at h
    · split at h
      · rw [← Option.some.inj h]
        exact records_doData
      · rw [← Option.some.inj h]
        exact .same rfl rfl
    · rw [← Option.some.inj h]
      exact .same rfl rfl

theorem recvDataChunk_of_short (hlen : c.bytes.length < kDataChunkHeaderSize) :
    a.recvDataChunk c.bytes = some a := if_pos hlen

/-- A recorded TSN that was received keeps the account sound. -/
theorem SoundFrom.records {received : List Tsn}
    (h : SoundFrom i a.lastCompleteTsn a.tsns.val received) (ht : t ∈ received)
    (hnear : a.lastCompleteTsn < t → (t - a.lastCompleteTsn).toNat < 2 ^ 16)
    (hr : Records a t a') : SoundFrom i a'.lastCompleteTsn a'.tsns.val received := by
  cases hr with
  | same hlast htsns =>
    rw [hlast, htsns]
    exact h
  | insert hlast hlt htsns =>
    rw [hlast, htsns]
    refine ⟨h.complete, ?_, ?_⟩
    · intro u hu
      rcases TsnSet.mem_insert.mp hu with rfl | hu
      · exact Or.inr ht
      · exact h.recorded u hu
    · intro u hu
      rcases TsnSet.mem_insert.mp hu with rfl | hu
      · refine ⟨?_, hnear hlt⟩
        bv_omega
      · exact h.near u hu

/-! ## Chunks -/

theorem not_acceptable_of_short (hlen : c.bytes.length < kInitChunkHeaderSize) :
    c.acceptable = false := by
  simp only [Chunk.acceptable, Bool.and_eq_false_iff, decide_eq_false_iff_not]
  exact Or.inl (by omega)

theorem acceptable_iff (hlen : kInitChunkHeaderSize ≤ c.bytes.length) {b : Bool}
    (hopt : initOptions c.bytes kInitChunkHeaderSize = some b) : c.acceptable = b := by
  simp only [Chunk.acceptable, hopt, hlen, decide_true, Bool.true_and]
  cases b <;> rfl

/-- An accepted INIT starts the account afresh, except that the recorded TSNs stay. -/
theorem doChunkInit_eq_ok (h : a.doChunkInit c.bytes = .ok a') :
    c.acceptable = true ∧ a'.lastCompleteTsn = c.initialTsn - 1 ∧
      a'.tsns = a.tsns.insert c.initialTsn := by
  unfold Association.doChunkInit at h
  split at h
  · exact absurd h (by simp)
  · next hlen =>
    simp only [bind_eq_ok, inBounds_eq_ok] at h
    obtain ⟨tag, -, credit, -, outStreams, -, inStreams, -, initialTsn, htsn, accepted, hopt, h⟩ :=
      h
    have hinit : c.initialTsn = BitVec.ofNat 32 initialTsn := by
      rw [Chunk.initialTsn, htsn]
      rfl
    split at h
    · next haccepted =>
      have ha' := Except.ok.inj h
      refine ⟨?_, ?_, ?_⟩
      · rw [acceptable_iff (by omega) hopt, haccepted]
      · rw [← ha', hinit]
      · rw [← ha', hinit]
        show a.tsns.insert (BitVec.ofNat 32 initialTsn - 1 + 1) = _
        congr 1
        bv_omega
    · exact absurd h (by simp)

/-- A rejected INIT is not acceptable, and changes nothing if it is too short. -/
theorem doChunkInit_rejected (h : a.doChunkInit c.bytes = .error (.rejected a')) :
    c.acceptable = false ∧ (c.bytes.length < kInitChunkHeaderSize → a' = a) := by
  unfold Association.doChunkInit at h
  split at h
  · next hlen =>
    simp only [Except.error.injEq, Stop.rejected.injEq] at h
    exact ⟨not_acceptable_of_short hlen, fun _ => h.symm⟩
  · next hlen =>
    refine ⟨?_, fun hshort => absurd hshort hlen⟩
    simp only [inBounds_bind_eq_rejected] at h
    obtain ⟨tag, -, credit, -, outStreams, -, inStreams, -, initialTsn, -, accepted, hopt, h⟩ := h
    rw [acceptable_iff (by omega) hopt]
    cases accepted with
    | false => rfl
    | true => exact absurd h (by simp [pure, Except.pure])

/-- What a chunk does to the account of TSNs when the chunk loop goes on after it. -/
theorem doChunk_eq_ok (h : a.doChunk c.chunkType c.bytes = .ok a') :
    (c.isData = true ∧ Records a c.tsn a') ∨
    (c.isAcceptedInit = true ∧ a'.lastCompleteTsn = c.initialTsn - 1 ∧
      a'.tsns = a.tsns.insert c.initialTsn) ∨
    (c.isData = false ∧ c.isAcceptedInit = false ∧ c.isRejectedInit = false ∧
      a'.lastCompleteTsn = a.lastCompleteTsn ∧ a'.tsns = a.tsns) := by
  unfold Association.doChunk at h
  by_cases hdata : c.chunkType = CHNK_DATA
  · rw [if_pos hdata, inBounds_eq_ok] at h
    by_cases hlen : kDataChunkHeaderSize ≤ c.bytes.length
    · refine Or.inl ⟨?_, records_recvDataChunk hlen h⟩
      simp [Chunk.isData, hdata, hlen]
    · rw [recvDataChunk_of_short (by omega)] at h
      rw [← Option.some.inj h]
      simp [Chunk.isData, Chunk.isAcceptedInit, Chunk.isRejectedInit, hdata, hlen, CHNK_DATA,
        CHNK_INIT]
  · rw [if_neg hdata] at h
    by_cases hinit : c.chunkType = CHNK_INIT
    · rw [if_pos hinit] at h
      split at h
      · exact absurd h (by simp)
      · obtain ⟨hacc, hlast, htsns⟩ := doChunkInit_eq_ok h
        refine Or.inr (Or.inl ⟨?_, hlast, htsns⟩)
        simp [Chunk.isAcceptedInit, hinit, hacc]
    · rw [if_neg hinit] at h
      have hsame : a'.lastCompleteTsn = a.lastCompleteTsn ∧ a'.tsns = a.tsns := by
        split at h
        · rw [← Except.ok.inj h]
          exact ⟨rfl, rfl⟩
        · split at h <;> rw [← Except.ok.inj h] <;> exact ⟨rfl, rfl⟩
      refine Or.inr (Or.inr ⟨?_, ?_, ?_, hsame⟩) <;>
        simp [Chunk.isData, Chunk.isAcceptedInit, Chunk.isRejectedInit, hdata, hinit]

/-- Only an INIT stops the chunk loop; one that is too short leaves the account alone. -/
theorem doChunk_rejected (h : a.doChunk c.chunkType c.bytes = .error (.rejected a')) :
    c.chunkType = CHNK_INIT ∧ c.acceptable = false ∧
      (c.bytes.length < kInitChunkHeaderSize →
        a'.lastCompleteTsn = a.lastCompleteTsn ∧ a'.tsns = a.tsns) := by
  unfold Association.doChunk at h
  split at h
  · cases hr : a.recvDataChunk c.bytes <;> simp [hr, inBounds] at h
  · split at h
    · next hinit =>
      split at h
      · next a'' hr =>
        obtain ⟨hacc, hshort⟩ := doChunkInit_rejected hr
        refine ⟨hinit, hacc, ?_⟩
        intro hlen
        simp only [Except.error.injEq, Stop.rejected.injEq] at h
        rw [← h, hshort hlen]
        exact ⟨rfl, rfl⟩
      · next hne => exact absurd h (fun h => hne a' h)
    · split at h
      · exact absurd h (by simp [pure, Except.pure])
      · split at h <;> exact absurd h (by simp [pure, Except.pure])

/-- A safe chunk keeps the account sound. -/
theorem Sound.chunk (h : Sound a o) (hsafe : a.ChunkSafe c)
    (hok : a.doChunk c.chunkType c.bytes = .ok a') : Sound a' (o.chunk c) := by
  rcases doChunk_eq_ok hok with ⟨hdata, hrec⟩ | ⟨hinit, hlast, htsns⟩ |
    ⟨hdata, hinit, -, hlast, htsns⟩
  · intro i hi
    simp only [Observed.chunk, hdata, if_true] at hi ⊢
    have hmono : SoundFrom i a.lastCompleteTsn a.tsns.val (c.tsn :: o.received) :=
      (h i hi).mono fun t ht => List.mem_cons_of_mem c.tsn ht
    exact hmono.records List.mem_cons_self (hsafe.2 hdata) hrec
  · have htype : c.chunkType = CHNK_INIT ∧ c.acceptable = true := by
      simpa [Chunk.isAcceptedInit] using hinit
    have hlen : kInitChunkHeaderSize ≤ c.bytes.length := by
      by_contra hshort
      rw [not_acceptable_of_short (by omega)] at htype
      exact absurd htype.2 (by simp)
    have hdata : c.isData = false := by
      simp [Chunk.isData, htype.1, CHNK_INIT, CHNK_DATA]
    intro i hi
    simp only [Observed.chunk, hdata, hinit, if_true] at hi ⊢
    have hi : i = c.initialTsn := by simpa using hi.symm
    -- nothing was recorded before, so the initial TSN is the only one recorded now
    have hempty : a.tsns = ∅ := (hsafe.1 htype.1 hlen).2
    have honly : ∀ t ∈ a'.tsns.val, t = i := by
      intro t ht
      rw [htsns, hempty] at ht
      rcases TsnSet.mem_insert.mp ht with rfl | ht
      · exact hi.symm
      · exact absurd ht TsnSet.not_mem_empty
    refine ⟨?_, ?_, ?_⟩
    · intro t ht
      rw [hlast, ← hi] at ht
      exfalso
      bv_omega
    · intro t ht
      exact Or.inl (honly t ht)
    · intro t ht
      rw [honly t ht, hlast, hi]
      constructor <;> bv_omega
  · intro i hi
    simp only [Observed.chunk, hdata, hinit] at hi ⊢
    rw [hlast, htsns]
    exact h i hi

/-! ## Packets -/

/-- The chunks in turn, until one stops the loop. -/
def runChunks (a : Association) (cs : List Chunk) : Except Stop Association :=
  cs.foldlM (fun a c => a.doChunk c.chunkType c.bytes) a

theorem runChunks_cons (cs : List Chunk) :
    runChunks a (c :: cs) = a.doChunk c.chunkType c.bytes >>= fun a' => runChunks a' cs := by
  rw [runChunks, List.foldlM_cons]
  rfl

/-- The chunk loop goes through the chunks of the packet and fails at the end if they are not
all complete. -/
theorem parseSctpChunks_eq (msg : Bytes) (chunkStart : ℕ) :
    a.parseSctpChunks msg chunkStart =
      runChunks a (chunksFrom msg chunkStart).1 >>=
        fun a' => if (chunksFrom msg chunkStart).2 then .ok a' else .error (.rejected a') := by
  induction a, chunkStart using Association.parseSctpChunks.induct msg with
  | case1 a chunkStart hstart ih =>
    rw [Association.parseSctpChunks, if_pos hstart, chunksFrom, if_pos hstart]
    rw [kSctpChunkHeaderSize] at hstart
    obtain ⟨chunkType, htype⟩ : ∃ v, msg[chunkStart]? = some v :=
      Option.isSome_iff_exists.mp (isSome_getElem (by omega))
    obtain ⟨chunkFlags, hflags⟩ : ∃ v, msg[chunkStart + 1]? = some v :=
      Option.isSome_iff_exists.mp (isSome_getElem (by omega))
    obtain ⟨chunkLen, hchunkLen⟩ : ∃ v, getBeUint16 msg (chunkStart + 2) = some v :=
      Option.isSome_iff_exists.mp (isSome_getBeUint16 (by omega))
    rw [htype, hflags, hchunkLen]
    show (if _ : chunkLen < kSctpChunkHeaderSize then _ else _) = _
    by_cases hlen : chunkLen < kSctpChunkHeaderSize
    · simp only [dif_pos hlen]
      rfl
    · by_cases hend : msg.length < chunkStart + chunkLen
      · simp only [dif_neg hlen, if_pos hend]
        rfl
      · rw [dif_neg hlen, if_neg hend, readBytes, if_pos (by omega)]
        simp only [dif_neg hlen, if_neg hend, runChunks_cons, bind_assoc]
        show a.doChunk _ _ >>= _ = _
        congr 1
        funext a'
        exact ih chunkLen hlen a'
  | case2 a chunkStart hstart =>
    rw [Association.parseSctpChunks, if_neg hstart, chunksFrom, if_neg hstart]
    rfl

theorem not_rejected_of_ok (h : a.doChunk c.chunkType c.bytes = .ok a') :
    c.isRejectedInit = false := by
  rcases doChunk_eq_ok h with ⟨hdata, -⟩ | ⟨hinit, -⟩ | ⟨-, -, hrej, -⟩
  · have htype : c.chunkType = CHNK_DATA := by
      simp only [Chunk.isData, Bool.and_eq_true, beq_iff_eq] at hdata
      exact hdata.1
    simp [Chunk.isRejectedInit, htype, CHNK_DATA, CHNK_INIT]
  · simp only [Chunk.isAcceptedInit, Bool.and_eq_true] at hinit
    simp [Chunk.isRejectedInit, hinit.2]
  · exact hrej

/-- The account of TSNs is sound when all chunks have been handled. -/
theorem Sound.runChunks_ok {cs : List Chunk} (h : Sound a o) (hsafe : a.ChunksSafe cs)
    (hok : runChunks a cs = .ok a') :
    Sound a' ((cs.takeWhile fun c => !c.isRejectedInit).foldl Observed.chunk o) ∧
      (cs.all fun c => !c.isRejectedInit) = true := by
  induction cs generalizing a o with
  | nil =>
    rw [← Except.ok.inj hok]
    exact ⟨h, rfl⟩
  | cons c cs ih =>
    rw [runChunks_cons] at hok
    obtain ⟨a1, ha1, hok⟩ := bind_eq_ok.mp hok
    have hrest := hsafe.2
    rw [ha1] at hrest
    have hnot := not_rejected_of_ok ha1
    obtain ⟨hsound, hall⟩ := ih (h.chunk hsafe.1 ha1) hrest hok
    simp only [List.takeWhile_cons, List.all_cons, hnot, Bool.not_false, if_true, Bool.true_and]
    exact ⟨hsound, hall⟩

/-- The account of TSNs is sound when a rejected INIT has stopped the loop. -/
theorem Sound.runChunks_rejected {cs : List Chunk} (h : Sound a o) (hsafe : a.ChunksSafe cs)
    (hrej : runChunks a cs = .error (.rejected a')) :
    Sound a' ((cs.takeWhile fun c => !c.isRejectedInit).foldl Observed.chunk o) := by
  induction cs generalizing a o with
  | nil => exact absurd hrej (by simp [runChunks, pure, Except.pure])
  | cons c cs ih =>
    rw [runChunks_cons] at hrej
    cases hc : a.doChunk c.chunkType c.bytes with
    | ok a1 =>
      have hrest := hsafe.2
      rw [hc] at hrest hrej
      have hsound := ih (h.chunk hsafe.1 hc) hrest hrej
      simp only [List.takeWhile_cons, not_rejected_of_ok hc, Bool.not_false, if_true]
      exact hsound
    | error e =>
      rw [hc] at hrej
      have he : e = .rejected a' := Except.error.inj hrej
      rw [he] at hc
      obtain ⟨hinit, hacc, hshort⟩ := doChunk_rejected hc
      -- a safe INIT is only rejected for being too short
      have hlen : c.bytes.length < kInitChunkHeaderSize := by
        by_contra hlong
        rw [(hsafe.1.1 hinit (by omega)).1] at hacc
        exact absurd hacc (by simp)
      obtain ⟨hlast, htsns⟩ := hshort hlen
      have hrejected : c.isRejectedInit = true := by
        simp [Chunk.isRejectedInit, hinit, hacc]
      simp only [List.takeWhile_cons, hrejected, Bool.not_true]
      intro i hi
      rw [hlast, htsns]
      exact h i hi

/-! ## The SACK chunk -/

/-- The first loop of `send_acks` keeps the account sound once the initial TSN was received. -/
theorem SoundFrom.advance {received : List Tsn} (h : SoundFrom i last ts received)
    (hi : i ∈ received) (hnodup : ts.Nodup) :
    SoundFrom i (advance last ts).1 (advance last ts).2 received := by
  induction ts generalizing last with
  | nil => exact h
  | cons u us ih =>
    rw [Sctp.advance]
    split
    · next hu =>
      rw [List.nodup_cons] at hnodup
      have hreceived : u ∈ received := by
        rcases h.recorded u List.mem_cons_self with rfl | hu
        · exact hi
        · exact hu
      apply ih _ hnodup.2
      refine ⟨?_, ?_, ?_⟩
      · intro t ht
        by_cases htu : t = u
        · rw [htu]
          exact hreceived
        · apply h.complete t
          bv_omega
      · intro t ht
        exact h.recorded t (List.mem_cons_of_mem u ht)
      · intro t ht
        have hne : t ≠ u := by
          rintro rfl
          exact hnodup.1 ht
        have hnear := h.near t (List.mem_cons_of_mem u ht)
        constructor <;> bv_omega
    · exact h

/-- The block covers offsets of elements of `ts` only, and they fit its 16-bit fields. -/
def Covered (last : Tsn) (ts : List Tsn) (b : Tsn × Tsn) : Prop :=
  (∀ d, b.1.toNat ≤ d → d ≤ b.2.toNat → ∃ u ∈ ts, (u - last).toNat = d) ∧
    b.1.toNat < 2 ^ 16 ∧ b.2.toNat < 2 ^ 16

/-- The second loop keeps what its open block and all finished blocks cover among the TSNs. -/
theorem covered_blocksFrom {all us : List Tsn} {blockStart prev : Tsn}
    (hnear : ∀ u ∈ all, (u - last).toNat < 2 ^ 16)
    (hsub : ∀ u ∈ us, u ∈ all) (hopen : Covered last all (blockStart - last, prev - last)) :
    ∀ b ∈ blocksFrom last blockStart prev us, Covered last all b := by
  induction us generalizing blockStart prev with
  | nil =>
    intro b hb
    rw [blocksFrom, List.mem_singleton] at hb
    rw [hb]
    exact hopen
  | cons u us ih =>
    have hu : u ∈ all := hsub u List.mem_cons_self
    have hrest : ∀ v ∈ us, v ∈ all := fun v hv => hsub v (List.mem_cons_of_mem u hv)
    have hfit := hnear u hu
    rw [blocksFrom]
    split
    · intro b hb
      rcases List.mem_cons.mp hb with rfl | hb
      · exact hopen
      · refine ih hrest ⟨?_, hfit, hfit⟩ b hb
        intro d h1 h2
        exact ⟨u, hu, Nat.le_antisymm h1 h2⟩
    · next hsucc =>
      rw [not_not] at hsucc
      refine ih hrest ⟨?_, hopen.2.1, hfit⟩
      intro d h1 h2
      -- the offset is that of `u` itself, or lay in the open block before
      by_cases hd : d = (u - last).toNat
      · exact ⟨u, hu, hd.symm⟩
      · have hprev := hopen.2.2
        apply hopen.1 d h1
        simp only at h2 hprev ⊢
        bv_omega

/-- Every gap block covers recorded TSNs only. -/
theorem covered_tsnBlocks (hnear : ∀ u ∈ ts, (u - last).toNat < 2 ^ 16) :
    ∀ b ∈ tsnBlocks last ts, Covered last ts b := by
  cases ts with
  | nil =>
    intro b hb
    exact absurd hb List.not_mem_nil
  | cons t ts =>
    have hfit := hnear t List.mem_cons_self
    rw [tsnBlocks_cons]
    refine covered_blocksFrom hnear (fun u hu => List.mem_cons_of_mem t hu) ⟨?_, hfit, hfit⟩
    intro d h1 h2
    exact ⟨t, List.mem_cons_self, Nat.le_antisymm h1 h2⟩

/-- Where the `k`-th of some entries of four bytes stands. -/
theorem flatMap_four {α : Type} {f : α → Bytes} (hf : ∀ x, (f x).length = 4) {l : List α} {k : ℕ}
    (hk : k < l.length) :
    ∃ pre post, pre.length = 4 * k ∧ l.flatMap f = pre ++ f l[k] ++ post := by
  induction l generalizing k with
  | nil => exact absurd hk (by simp)
  | cons x xs ih =>
    cases k with
    | zero => exact ⟨[], xs.flatMap f, rfl, rfl⟩
    | succ k =>
      rw [List.length_cons] at hk
      obtain ⟨pre, post, hlen, heq⟩ := ih (k := k) (by omega)
      refine ⟨f x ++ pre, post, ?_, ?_⟩
      · rw [List.length_append, hlen, hf]
        omega
      · rw [List.flatMap_cons, heq, List.getElem_cons_succ]
        simp only [List.append_assoc]

theorem length_flatMap_four {α : Type} {f : α → Bytes} (hf : ∀ x, (f x).length = 4)
    (l : List α) : (l.flatMap f).length = l.length * 4 := by
  induction l with
  | nil => rfl
  | cons x xs ih =>
    rw [List.flatMap_cons, List.length_append, hf, ih, List.length_cons]
    omega

section Layout

variable (a : Association)

/-- The cumulative TSN of a SACK chunk. -/
theorem sack_cumulative : getBeUint32 a.sack 4 = some a.lastCompleteTsn.toNat := by
  obtain ⟨post, hsack⟩ : ∃ post, a.sack = [CHNK_SACK, 0] ++ setBeUint16 a.sackSize ++
      (setBeUint32 a.lastCompleteTsn.toNat ++ post) := by
    simp only [Association.sack, List.append_assoc]
    exact ⟨_, rfl⟩
  rw [hsack]
  show getBeUint32 _ (([CHNK_SACK, 0] ++ setBeUint16 a.sackSize).length + 0) = _
  rw [getBeUint32_append, getBeUint32_setBeUint32, Nat.mod_eq_of_lt a.lastCompleteTsn.isLt]

/-- The fixed fields of a SACK chunk in front of its counts. -/
def sackFront : Bytes :=
  [CHNK_SACK, 0] ++ setBeUint16 a.sackSize ++ setBeUint32 a.lastCompleteTsn.toNat ++
    setBeUint32 (65536 * 4)

/-- The number of gap blocks of a SACK chunk. -/
theorem sack_blockCount : getBeUint16 a.sack 12 = some (a.gapBlocks.length % 2 ^ 16) := by
  obtain ⟨post, hsack⟩ : ∃ post, a.sack = sackFront a ++
      (setBeUint16 a.gapBlocks.length ++ post) := by
    simp only [Association.sack, sackFront, List.append_assoc]
    exact ⟨_, rfl⟩
  rw [hsack]
  show getBeUint16 _ ((sackFront a).length + 0) = _
  rw [getBeUint16_append, getBeUint16_setBeUint16]

/-- The `k`-th gap block of a SACK chunk, each offset truncated to 16 bits. -/
theorem sack_block {k : ℕ} (hk : k < a.gapBlocks.length) :
    getBeUint16 a.sack (16 + 4 * k) = some (a.gapBlocks[k].1.toNat % 2 ^ 16) ∧
      getBeUint16 a.sack (18 + 4 * k) = some (a.gapBlocks[k].2.toNat % 2 ^ 16) := by
  obtain ⟨pre, post, hpre, hblocks⟩ :=
    flatMap_four (f := encodeBlock) (fun _ => rfl) hk
  obtain ⟨front, hfront⟩ : ∃ front, front = sackFront a ++ setBeUint16 a.gapBlocks.length ++
      setBeUint16 a.duplicateTsns.length ++ pre := ⟨_, rfl⟩
  have hlen : front.length = 16 + 4 * k := by
    simp only [hfront, List.length_append, length_setBeUint16, hpre]
    rfl
  obtain ⟨rest, hsack⟩ : ∃ rest, a.sack = front ++ (setBeUint16 a.gapBlocks[k].1.toNat ++
      (setBeUint16 a.gapBlocks[k].2.toNat ++ rest)) := by
    simp only [Association.sack, hblocks, hfront, sackFront, encodeBlock, List.append_assoc]
    exact ⟨_, rfl⟩
  constructor
  · rw [hsack, ← hlen, ← Nat.add_zero front.length, getBeUint16_append, getBeUint16_setBeUint16]
  · have hoff : 18 + 4 * k = front.length + (2 + 0) := by omega
    rw [hsack, hoff, getBeUint16_append]
    exact (getBeUint16_append (setBeUint16 _) _ 0).trans (getBeUint16_setBeUint16 _ rest)

end Layout

/-- The SACK of a sound association acknowledges only what was received. -/
theorem acknowledges_sack {received : List Tsn}
    (h : SoundFrom i a.lastCompleteTsn a.tsns.val received) (hi : i ∈ received)
    (hack : Acknowledges a.sack i t) : t ∈ received := by
  obtain ⟨cum, n, hcum, hn, hack⟩ := hack
  rw [sack_cumulative, Option.some.injEq] at hcum
  rw [sack_blockCount, Option.some.injEq] at hn
  have hlast : BitVec.ofNat 32 cum = a.lastCompleteTsn := by
    rw [← hcum, BitVec.ofNat_toNat, BitVec.setWidth_eq]
  rw [hlast] at hack
  rcases hack with hack | ⟨k, hk, s, e, hs, he, hle, hge⟩
  · exact h.complete t hack
  · have hklen : k < a.gapBlocks.length := by
      have := Nat.mod_le a.gapBlocks.length (2 ^ 16)
      omega
    obtain ⟨hcov, hfit1, hfit2⟩ := covered_tsnBlocks (fun u hu => (h.near u hu).2) _
      (List.getElem_mem hklen)
    obtain ⟨hs', he'⟩ := sack_block a hklen
    rw [hs', Option.some.injEq, Nat.mod_eq_of_lt hfit1] at hs
    rw [he', Option.some.injEq, Nat.mod_eq_of_lt hfit2] at he
    obtain ⟨u, hu, hut⟩ := hcov (t - a.lastCompleteTsn).toNat (hs ▸ hle) (he ▸ hge)
    have htu : t = u := by bv_omega
    rw [htu]
    rcases h.recorded u hu with rfl | hu
    · exact hi
    · exact hu

/-! ## Runs -/

/-- What `recv_msg` does, by what it finds out about the packet. -/
inductive Receives (a : Association) (msg : Bytes) : Association → Option Reply → Prop
  | ignored (hsum : checksumOk msg = false) : Receives a msg a none
  | acknowledged {a' : Association} (hsum : checksumOk msg = true)
      (hparse : a.parseSctpChunks msg kSctpCommonHeaderSize = .ok a') :
      Receives a msg a'.sendAcks.1 (some a'.sendAcks.2)
  | rejected {a' : Association} (hsum : checksumOk msg = true)
      (hparse : a.parseSctpChunks msg kSctpCommonHeaderSize = .error (.rejected a')) :
      Receives a msg a' none

theorem receives_recvMsg {msg : Bytes} {r : Option Reply} (h : a.recvMsg msg = some (a', r)) :
    Receives a msg a' r := by
  unfold Association.recvMsg at h
  split at h
  · next hlen =>
    obtain ⟨rfl, rfl⟩ := Prod.mk.inj (Option.some.inj h)
    apply Receives.ignored
    rw [checksumOk, Bool.and_eq_false_iff]
    exact Or.inl (decide_eq_false (by omega))
  · next hlen =>
    obtain ⟨provided, hprovided, h⟩ := Option.bind_eq_some_iff.mp h
    split at h
    · next hcrc =>
      have hsum : checksumOk msg = true := by
        simp [checksumOk, hprovided, hcrc]
        omega
      split at h
      · next a1 hparse =>
        obtain ⟨rfl, rfl⟩ := Prod.mk.inj (Option.some.inj h)
        exact .acknowledged hsum hparse
      · next a1 hparse =>
        obtain ⟨rfl, rfl⟩ := Prod.mk.inj (Option.some.inj h)
        exact .rejected hsum hparse
      · exact absurd h (by simp)
    · next hcrc =>
      obtain ⟨rfl, rfl⟩ := Prod.mk.inj (Option.some.inj h)
      apply Receives.ignored
      simp [checksumOk, hprovided]
      intro hlen heq
      exact absurd heq.symm hcrc

/-- The packet that is sent ends in the SACK chunk. -/
theorem sack_suffix : a.sendAcks.2.sack <:+ a.sendAcks.2.packet := by
  obtain ⟨pre, hlen, hpacket⟩ : ∃ pre, 12 ≤ List.length pre ∧
      a.sendAcks.2.packet = setChecksum (pre ++ a.sendAcks.2.sack) := by
    refine ⟨setBeUint16 a.localPort ++ setBeUint16 a.remotePort ++
      setBeUint32 a.verificationTag.toNat ++ [0, 0, 0, 0] ++ a.chunks.flatMap padded, ?_, rfl⟩
    simp only [List.length_append, length_setBeUint16, length_setBeUint32, List.length_cons,
      List.length_nil]
    omega
  rw [hpacket, setChecksum, writeAt, length_setBeUint32, List.drop_append_of_le_length hlen,
    ← List.append_assoc]
  exact List.suffix_append _ _

/-- The session is sound: the association has recorded only what was received, and the answer to
the last packet acknowledges only what was received. -/
structure SessionSound (s : Session) : Prop where
  sound : Sound s.assoc s.observed
  reply : ∀ r ∈ s.reply, r.sack <:+ r.packet ∧
    ∀ i ∈ s.observed.initial, ∀ t, Acknowledges r.sack i t → t ∈ s.observed.received

/-- After the chunks of a packet, the observer knows the ones that were reached. -/
theorem packet_eq (o : Observed) {msg : Bytes} (hsum : checksumOk msg = true) :
    o.packet msg = ((chunksFrom msg kSctpCommonHeaderSize).1.takeWhile
      fun c => !c.isRejectedInit).foldl Observed.chunk o := by
  rw [Observed.packet, reached, if_pos hsum]

theorem nodup_tsns (a : Association) : a.tsns.val.Nodup :=
  a.tsns.property.imp fun hlt heq => by bv_omega

/-- Sending the acknowledgements of a sound association keeps it sound, and they acknowledge
only what was received. -/
theorem SessionSound.sendAcks (h : Sound a o)
    (hinitial : o.InitialReceived) : SessionSound ⟨a.sendAcks.1, o, some a.sendAcks.2⟩ := by
  have hinitial : ∀ i ∈ o.initial, i ∈ o.received := by
    intro i hi
    rwa [Observed.InitialReceived, Option.mem_def.mp hi] at hinitial
  have hmoved : Sound a.moveLastComplete o := fun i hi =>
    (h i hi).advance (hinitial i hi) (nodup_tsns a)
  refine ⟨hmoved, ?_⟩
  intro r hr
  rw [Option.mem_some_iff] at hr
  rw [← hr]
  refine ⟨sack_suffix, ?_⟩
  intro i hi t hack
  exact acknowledges_sack (hmoved i hi) (hinitial i hi) hack

/-- One safe packet keeps the session sound. -/
theorem SessionSound.packet {s : Session} (h : SessionSound s) {msg : Bytes}
    (hsafe : PacketSafe s msg) {r : Option Reply} (hr : Receives s.assoc msg a r) :
    SessionSound ⟨a, s.observed.packet msg, r⟩ := by
  obtain ⟨hchunks, hinitial⟩ := hsafe
  cases hr with
  | ignored hsum =>
    refine ⟨?_, fun r hr => absurd hr (by simp)⟩
    simp only [Observed.packet, reached, hsum]
    exact h.sound
  | acknowledged hsum hparse =>
    rw [if_pos hsum] at hchunks
    rw [parseSctpChunks_eq] at hparse
    obtain ⟨a1, hrun, hend⟩ := bind_eq_ok.mp hparse
    obtain ⟨hsound, hall⟩ := h.sound.runChunks_ok hchunks hrun
    split at hend
    · next hcomplete =>
      have hanswered : answered msg = true := by
        rw [answered, hsum, hcomplete, hall]
        rfl
      rw [Except.ok.inj hend, ← packet_eq s.observed hsum] at hsound
      exact SessionSound.sendAcks hsound (hinitial hanswered)
    · exact absurd hend (by simp)
  | rejected hsum hparse =>
    refine ⟨?_, fun r hr => absurd hr (by simp)⟩
    rw [if_pos hsum] at hchunks
    rw [parseSctpChunks_eq] at hparse
    show Sound a (s.observed.packet msg)
    rw [packet_eq s.observed hsum]
    cases hrun : runChunks s.assoc (chunksFrom msg kSctpCommonHeaderSize).1 with
    | ok a1 =>
      rw [hrun] at hparse
      have hsound := (h.sound.runChunks_ok hchunks hrun).1
      -- all chunks were handled, but the last one of the packet is not complete
      have ha : a1 = a := by
        simp only [bind, Except.bind] at hparse
        split at hparse
        · exact absurd hparse (by simp)
        · simpa using hparse
      rwa [ha] at hsound
    | error e =>
      rw [hrun] at hparse
      have he : e = .rejected a := Except.error.inj hparse
      rw [he] at hrun
      exact h.sound.runChunks_rejected hchunks hrun

variable {localPort remotePort : ℕ} {s : Session}

/-- In every run of safe packets, every SACK that is sent acknowledges only TSNs of DATA chunks
received after the most recent accepted INIT. -/
theorem sack_sound (hs : (sctpMachine localPort remotePort).Reachable PacketSafe s) :
    ∀ r ∈ s.reply, r.sack <:+ r.packet ∧
      ∀ i ∈ s.observed.initial, ∀ t, Acknowledges r.sack i t → t ∈ s.observed.received := by
  refine (Machine.Reachable.invariant (P := SessionSound) ?_ ?_ hs).reply
  · refine ⟨?_, fun r hr => absurd hr (by simp [sctpMachine])⟩
    intro i hi
    exact absurd hi (by simp [sctpMachine])
  · intro s msg hsound hsafe _
    obtain ⟨⟨a', r⟩, hrecv⟩ := Option.isSome_iff_exists.mp (isSome_recvMsg s.assoc msg)
    simp only [sctpMachine, hrecv]
    exact hsound.packet hsafe (receives_recvMsg hrecv)

/-! ## Two packets -/

/-- An INIT with initial TSN 5 and no options. -/
def initChunk : Bytes :=
  [CHNK_INIT, 0] ++ setBeUint16 20 ++ setBeUint32 1 ++ setBeUint32 65536 ++ setBeUint16 1 ++
    setBeUint16 1 ++ setBeUint32 5

/-- A DATA chunk with TSN 5 that opens a data channel on stream 0. -/
def openChunk : Bytes :=
  [CHNK_DATA, 3] ++ setBeUint16 28 ++ setBeUint32 5 ++ setBeUint16 0 ++ setBeUint16 0 ++
    setBeUint32 PPID_DCEP ++ [0x03, 0] ++ List.replicate 10 0

/-- A packet from port 5000 to port 5000. -/
def packetOf (chunks : Bytes) : Bytes :=
  setChecksum (setBeUint16 5000 ++ setBeUint16 5000 ++ List.replicate 8 0 ++ chunks)

/-- The session after an INIT and the first DATA chunk in one packet. -/
theorem sack_sound_open : ∃ s : Session, s.reply.isSome = true ∧ s.observed.initial = some 5 ∧
    ∀ r ∈ s.reply, r.sack <:+ r.packet ∧
      ∀ i ∈ s.observed.initial, ∀ t, Acknowledges r.sack i t → t ∈ s.observed.received := by
  obtain ⟨s, hs, hp⟩ := Machine.reachable_of_replay (M := sctpMachine 5000 5000)
    (C := PacketSafe) (l := [packetOf (initChunk ++ openChunk)])
    (p := fun s => s.reply.isSome && s.observed.initial == some 5) (by decide +kernel)
  rw [Bool.and_eq_true, beq_iff_eq] at hp
  exact ⟨s, hp.1, hp.2, sack_sound hs⟩

/-- The answer to a lone INIT acknowledges its initial TSN, which no DATA chunk has carried. -/
theorem init_acknowledges_unreceived : ∃ s,
    (sctpMachine 5000 5000).Reachable Machine.anyStep s ∧ ∃ r ∈ s.reply,
      ∃ i ∈ s.observed.initial, ∃ t, Acknowledges r.sack i t ∧ t ∉ s.observed.received := by
  obtain ⟨s, hs, hp⟩ := Machine.reachable_of_replay (M := sctpMachine 5000 5000)
    (C := Machine.anyStep) (l := [packetOf initChunk])
    (p := fun s => s.observed.initial == some 5 && s.observed.received.isEmpty &&
      s.reply.any fun r => getBeUint32 r.sack 4 == some 5 && getBeUint16 r.sack 12 == some 0)
    (by decide +kernel)
  simp only [Bool.and_eq_true, beq_iff_eq, List.isEmpty_iff, Option.any_eq_true] at hp
  obtain ⟨⟨hinitial, hreceived⟩, r, hr, hcum, hcount⟩ := hp
  refine ⟨s, hs, r, hr, 5, hinitial, 5, ⟨5, 0, hcum, hcount, Or.inl (by decide)⟩, ?_⟩
  rw [hreceived]
  exact List.not_mem_nil

end Anon.Sctp
