import Anon.Sctp.Chunks

/-!
# How often the payload of a TSN is processed

Whether a TSN is a duplicate is found out when its payload has been processed already, so nothing
keeps the payload of a retransmitted chunk from being processed once more.

* `Association.processes`: the chunks whose payload is processed.
* `Carried`: what an observer of the packets knows about the payloads in them.
* `deliveryMachine`: the runs of `recvMsg` on arbitrary packets, with a log of what is processed.
* `processed_at_most_once`: the runs in which no payload comes with the TSN of an earlier one.
-/

namespace Anon.Sctp

variable {a a' : Association} {c : Chunk} {msg : Bytes} {log : List Tsn}

/-! ## Processing -/

/-- The payload of the chunk is processed: `recv_data_chunk` gets to `streams.emplace` or to
`do_data`. -/
def Association.processes (a : Association) (c : Chunk) : Bool :=
  c.isOpen || c.isMessage && a.hasStream c.streamId

/-- A DATA chunk whose payload is not processed does nothing. -/
theorem recvDataChunk_of_not_processes (hdata : c.isData = true) (h : a.processes c = false) :
    a.recvDataChunk c.bytes = some a := by
  rw [Association.processes, Bool.or_eq_false_iff] at h
  have hstring : (c.isString && a.hasStream c.streamId) = false := by
    rw [Bool.eq_false_iff]
    intro hstr
    simp only [Chunk.isString, Bool.and_eq_true, beq_iff_eq] at hstr
    have hmsg : c.isMessage = true := by
      simp [Chunk.isMessage, hstr.1]
    rw [hmsg, hstr.2] at h
    exact absurd h.2 (by decide)
  rw [recvDataChunk_eq hdata, h.1, hstring]
  rfl

/-- The log of the TSNs whose payload has been processed since the most recent accepted INIT,
after one more chunk. -/
def Association.logChunk (a : Association) (log : List Tsn) (c : Chunk) : List Tsn :=
  if a.processes c then c.tsn :: log else if c.isAcceptedInit then [] else log

/-- The log after some more chunks. -/
def Association.logChunks (a : Association) (log : List Tsn) : List Chunk → List Tsn
  | [] => log
  | c :: cs =>
    match a.doChunk c.chunkType c.bytes with
    | .ok a' => a'.logChunks (a.logChunk log c) cs
    | .error _ => log

/-! ## The observer -/

/-- What an observer of the packets knows about the payloads in them. -/
structure Carried where
  /-- The streams that a complete DATA_CHANNEL_OPEN has named. -/
  opened : List ℕ
  /-- The TSNs of the payloads since the most recent accepted INIT. -/
  tsns : List Tsn

/-- The chunk carries a payload: it opens a data channel, or is a whole message on one that has
been opened. -/
def Carried.carries (k : Carried) (c : Chunk) : Bool :=
  c.isOpen || c.isMessage && k.opened.contains c.streamId

def Carried.chunk (k : Carried) (c : Chunk) : Carried where
  opened := if c.isOpen then c.streamId :: k.opened else k.opened
  tsns := if k.carries c then c.tsn :: k.tsns else if c.isAcceptedInit then [] else k.tsns

/-- No payload among the chunks has the TSN of an earlier payload. -/
def Carried.NoRepeat (k : Carried) : List Chunk → Prop
  | [] => True
  | c :: cs => (k.carries c = true → k.tsns.contains c.tsn = false) ∧ (k.chunk c).NoRepeat cs

instance instDecidableNoRepeat : (k : Carried) → (cs : List Chunk) → Decidable (k.NoRepeat cs)
  | _, [] => inferInstanceAs (Decidable True)
  | k, c :: cs =>
    have := instDecidableNoRepeat (k.chunk c) cs
    inferInstanceAs (Decidable ((k.carries c = true → k.tsns.contains c.tsn = false) ∧ _))

structure DeliverySession where
  assoc : Association
  log : List Tsn
  carried : Carried

/-- A fresh association that is given arbitrary packets. -/
def deliveryMachine (localPort remotePort : ℕ) : Machine DeliverySession Bytes where
  init := ⟨.fresh localPort remotePort, [], ⟨[], []⟩⟩
  enabled _ _ := True
  next s msg :=
    match s.assoc.recvMsg msg with
    | some (assoc, _) =>
      ⟨assoc, s.assoc.logChunks s.log (reached msg), (reached msg).foldl Carried.chunk s.carried⟩
    | none => s

instance instDecidableDelivery (localPort remotePort : ℕ) (s : DeliverySession) (msg : Bytes) :
    Decidable ((deliveryMachine localPort remotePort).enabled s msg) :=
  inferInstanceAs (Decidable True)

/-- No payload of the packet has the TSN of an earlier payload since the most recent INIT. -/
def NoRepeatedPayload (s : DeliverySession) (msg : Bytes) : Prop := s.carried.NoRepeat (reached msg)

instance instDecidableNoRepeatedPayload (s : DeliverySession) (msg : Bytes) :
    Decidable (NoRepeatedPayload s msg) :=
  instDecidableNoRepeat s.carried (reached msg)

/-! ## The association and the observer -/

/-- The observer knows the streams of the association and the log of what was processed. -/
structure Agrees (a : Association) (log : List Tsn) (k : Carried) : Prop where
  streams : ∀ id, a.hasStream id = k.opened.contains id
  known : log = k.tsns
  nodup : log.Nodup

theorem hasStream_emplaceStream {id id' : ℕ} {stream : DataChannelStream} :
    (a.emplaceStream id stream).hasStream id' = (decide (id' = id) || a.hasStream id') := by
  unfold Association.emplaceStream
  split
  · next h =>
    by_cases heq : id' = id
    · simp [heq, h]
    · simp [heq]
  · show (List.lookup id' ((id, stream) :: a.streams)).isSome = _
    by_cases heq : id' = id
    · simp [heq]
    · have hne : (id' == id) = false := beq_false_of_ne heq
      rw [List.lookup_cons, hne]
      simp [heq, Association.hasStream]

/-- Only a DATA_CHANNEL_OPEN adds a stream. -/
theorem hasStream_doChunk (h : a.doChunk c.chunkType c.bytes = .ok a') (id : ℕ) :
    a'.hasStream id = (c.isOpen && decide (id = c.streamId) || a.hasStream id) := by
  cases handles_doChunk h with
  | opens hopen =>
    rw [Association.hasStream, streams_addChunk, hopen, Bool.true_and]
    exact hasStream_emplaceStream
  | string hstring hstream =>
    rw [Association.hasStream, streams_addChunk, not_isOpen_of_isString hstring]
    rfl
  | init hinit =>
    have hopen : c.isOpen = false := by
      rw [Bool.eq_false_iff]
      intro hopen
      have hother := other_of_data (chunkType_of_isData (isData_of_isOpen hopen))
      rw [hother.2.2] at hinit
      exact absurd hinit (by simp)
    rw [hopen]
    rfl
  | heartbeat htype =>
    have hopen : c.isOpen = false := by simp [Chunk.isOpen, Chunk.isData, htype, CHNK_HEARTBEAT,
      CHNK_DATA]
    rw [hopen]
    rfl
  | cookieEcho htype =>
    have hopen : c.isOpen = false := by simp [Chunk.isOpen, Chunk.isData, htype,
      CHNK_COOKIE_ECHO, CHNK_DATA]
    rw [hopen]
    rfl
  | nothing hopen => rw [hopen, Bool.false_and, Bool.false_or]

/-- A chunk with no repeated payload keeps the agreement. -/
theorem Agrees.chunk {k : Carried} (h : Agrees a log k)
    (hnew : k.carries c = true → k.tsns.contains c.tsn = false)
    (hok : a.doChunk c.chunkType c.bytes = .ok a') : Agrees a' (a.logChunk log c) (k.chunk c) := by
  have hcarries : k.carries c = a.processes c := by
    rw [Carried.carries, Association.processes, h.streams]
  refine ⟨?_, ?_, ?_⟩
  · intro id
    rw [hasStream_doChunk hok, h.streams, Carried.chunk]
    cases hopen : c.isOpen with
    | true =>
      simp only [if_true, List.contains_cons, Bool.true_and]
      rfl
    | false => simp
  · rw [Association.logChunk, Carried.chunk, h.known, hcarries]
  · rw [Association.logChunk]
    split
    · next hprocesses =>
      rw [List.nodup_cons]
      refine ⟨?_, h.nodup⟩
      have hnot := hnew (hcarries.trans hprocesses)
      rw [h.known]
      intro hmem
      rw [List.contains_iff_mem.mpr hmem] at hnot
      exact absurd hnot (by simp)
    · split
      · exact List.nodup_nil
      · exact h.nodup

/-- Chunks with no repeated payload keep the agreement. -/
theorem Agrees.chunks {k : Carried} {cs : List Chunk} (h : Agrees a log k) (hnew : k.NoRepeat cs)
    (hrun : runChunks a cs = .ok a') :
    Agrees a' (a.logChunks log cs) (cs.foldl Carried.chunk k) := by
  induction cs generalizing a log k with
  | nil =>
    rw [← Except.ok.inj hrun]
    exact h
  | cons c cs ih =>
    rw [runChunks_cons] at hrun
    obtain ⟨a1, ha1, hrun⟩ := bind_eq_ok.mp hrun
    simp only [Association.logChunks, ha1]
    exact ih (h.chunk hnew.1 ha1) hnew.2 hrun

/-- The agreement depends on the streams of the association only. -/
theorem Agrees.congr {k : Carried} (h : Agrees a log k) (hstreams : a'.streams = a.streams) :
    Agrees a' log k := by
  refine ⟨?_, h.known, h.nodup⟩
  intro id
  rw [Association.hasStream, hstreams]
  exact h.streams id

/-! ## Runs -/

/-- A packet with no repeated payload keeps the agreement. -/
theorem Agrees.packet {s : DeliverySession} (h : Agrees s.assoc s.log s.carried)
    (hnew : NoRepeatedPayload s msg) {r : Option Reply} (hr : Receives s.assoc msg a r) :
    Agrees a (s.assoc.logChunks s.log (reached msg))
      ((reached msg).foldl Carried.chunk s.carried) := by
  have hends := ends_parseSctpChunks s.assoc msg
  rw [NoRepeatedPayload] at hnew
  cases hr with
  | ignored hsum =>
    have hnone : reached msg = [] := by
      rw [reached, hsum]
      rfl
    rw [hnone]
    exact h
  | acknowledged hsum hparse =>
    rw [reached_eq_handled hsum] at hnew ⊢
    rw [hparse] at hends
    cases hends with
    | complete hall hcomplete hrun => exact (h.chunks hnew hrun).congr rfl
  | rejected hsum hparse =>
    rw [reached_eq_handled hsum] at hnew ⊢
    rw [hparse] at hends
    cases hends with
    | incomplete hnone hincomplete hrun => exact h.chunks hnew hrun
    | init hsome hrun hrej =>
      apply (h.chunks hnew hrun).congr
      rw [doChunk_eq_rejected hrej]

variable {localPort remotePort : ℕ} {s : DeliverySession}

/-- In every run in which no payload has the TSN of an earlier payload since the most recent INIT,
the payload of each TSN is processed at most once. -/
theorem processed_at_most_once
    (hs : (deliveryMachine localPort remotePort).Reachable NoRepeatedPayload s) (t : Tsn) :
    s.log.count t ≤ 1 := by
  have hagrees : Agrees s.assoc s.log s.carried := by
    refine Machine.Reachable.invariant (P := fun s => Agrees s.assoc s.log s.carried) ?_ ?_ hs
    · exact ⟨fun _ => rfl, rfl, List.nodup_nil⟩
    · intro s msg hagrees hnew _
      obtain ⟨⟨a', r⟩, hrecv⟩ := Option.isSome_iff_exists.mp (isSome_recvMsg s.assoc msg)
      simp only [deliveryMachine, hrecv]
      exact hagrees.packet hnew (receives_recvMsg hrecv)
  exact List.nodup_iff_count_le_one.mp hagrees.nodup t

/-! ## Three packets -/

/-- A DATA chunk with TSN 6 and a whole string of four bytes on stream 0. -/
def stringChunk : Bytes :=
  [CHNK_DATA, 3] ++ setBeUint16 20 ++ setBeUint32 6 ++ setBeUint16 0 ++ setBeUint16 0 ++
    setBeUint32 PPID_String ++ [0x61, 0x62, 0x63, 0x64]

/-- A data channel is opened and a string arrives on it. -/
theorem processed_at_most_once_string : ∃ s : DeliverySession, s.log = [6, 5] ∧
    s.log.count 6 ≤ 1 := by
  obtain ⟨s, hs, hp⟩ := Machine.reachable_of_replay (M := deliveryMachine 5000 5000)
    (C := NoRepeatedPayload) (l := [packetOf (initChunk ++ openChunk), packetOf stringChunk])
    (p := fun s => s.log == [6, 5]) (by decide +kernel)
  exact ⟨s, beq_iff_eq.mp hp, processed_at_most_once hs 6⟩

/-- A string that is retransmitted is delivered twice. -/
theorem retransmission_processed_twice : ∃ s,
    (deliveryMachine 5000 5000).Reachable Machine.anyStep s ∧ s.log.count 6 = 2 := by
  obtain ⟨s, hs, hp⟩ := Machine.reachable_of_replay (M := deliveryMachine 5000 5000)
    (C := Machine.anyStep)
    (l := [packetOf (initChunk ++ openChunk), packetOf stringChunk, packetOf stringChunk])
    (p := fun s => s.log.count 6 == 2) (by decide +kernel)
  exact ⟨s, hs, beq_iff_eq.mp hp⟩

end Anon.Sctp
