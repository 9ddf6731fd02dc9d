import Anon.Http.Http2

/-!
# When every stream gets its frames

* `Demuxed`: the reader stands at a byte of a frame that the peer has sent, knows what part of the
  frame that is, and the handlers have been given the frames of their streams up to there.
* `HeaderPlain`: the step does not complete a header that opens a stream with the reserved bit set,
  or one for the connection that announces a payload.
* `demuxed_dispatch`: the body of the loop, on the header of a frame.
* `demuxed`: the runs whose steps are all plain.
-/

namespace Anon.Http

variable {f : Frame} {fs done more : List Frame} {r : Reader} {frame : Bytes} {k id : ℕ}

/-! ## Frame headers -/

@[simp] theorem length_header (f : Frame) : f.header.length = kFrameHeaderSize := rfl

/-- The length field of a frame. -/
theorem frameSize_formatFrame {length : ℕ} (hlt : length < 2 ^ 24) (type flags : UInt8)
    (streamId : ℕ) (rest : Bytes) :
    frameSize (formatFrame length type flags streamId ++ rest) = length := by
  have hfirst : UInt8.ofNat (length / 2 ^ 16 / 2 ^ 8) = 0 := by
    rw [show length / 2 ^ 16 / 2 ^ 8 = 0 by omega]
    rfl
  have hbytes : 0 :: (formatFrame length type flags streamId ++ rest).take 3 =
      setBeUint32 length ++ [] := by
    rw [← hfirst]
    rfl
  rw [frameSize, hbytes, getBeUint32_setBeUint32, Nat.mod_eq_of_lt (by omega)]
  rfl

theorem frameSize_header (f : Frame) : frameSize f.header = f.payload.length := by
  rw [← List.append_nil f.header]
  exact frameSize_formatFrame f.size_lt _ _ _ _

theorem streamId_header (f : Frame) :
    streamId f.header = f.streamId + if f.reserved then 2 ^ 31 else 0 := by
  have hlt := f.streamId_lt
  have hread := getBeUint32_append ((setBeUint32 f.payload.length).drop 1 ++ [f.type, f.flags])
    (setBeUint32 (f.streamId + if f.reserved then 2 ^ 31 else 0) ++ []) 0
  rw [getBeUint32_setBeUint32, Nat.mod_eq_of_lt (by split <;> omega), List.append_nil] at hread
  have hfield : getBeUint32 f.header 5 =
      some (f.streamId + if f.reserved then 2 ^ 31 else 0) := hread
  rw [streamId, hfield]
  rfl

@[simp] theorem length_bytes (f : Frame) :
    f.bytes.length = kFrameHeaderSize + f.payload.length := by
  rw [Frame.bytes, List.length_append, length_header]

theorem sent_cons (f : Frame) (fs : List Frame) :
    sent (f :: fs) = f.header ++ (f.payload ++ sent fs) := by
  rw [sent, List.flatMap_cons, Frame.bytes, List.append_assoc]
  rfl

/-! ## Demultiplexing -/

/-- The bytes of the frames addressed to a stream. -/
def framesTo (id : ℕ) (fs : List Frame) : Bytes := sent (fs.filter (·.streamId = id))

theorem framesTo_concat (id : ℕ) (done : List Frame) (f : Frame) :
    framesTo id (done ++ [f]) = framesTo id done ++ if f.streamId = id then f.bytes else [] := by
  rw [framesTo, List.filter_append, sent, List.flatMap_append, framesTo, sent]
  congr 1
  by_cases hid : f.streamId = id
  · simp [hid]
  · simp [hid]

/-- The handlers have been given the frames `done` of their streams, and after these what `part`
says. Streams without a handler have been sent nothing. -/
structure Received (handlers : ℕ → Option Bytes) (done : List Frame) (part : ℕ → Bytes) :
    Prop where
  opened : ∀ id bytes, handlers id = some bytes →
    2 ≤ id ∧ id < 2 ^ 31 ∧ bytes = framesTo id done ++ part id
  unopened : ∀ id, handlers id = none → 2 ≤ id → framesTo id done ++ part id = []

/-- Nothing of the frame that comes next. -/
def noPart (_ : ℕ) : Bytes := []

/-- The bytes `bs` of a frame for the stream `id`. -/
def partOf (id : ℕ) (bs : Bytes) : ℕ → Bytes := Function.update noPart id bs

/-- The reader of the frames `fs` is in step with them. -/
inductive Demuxed (fs : List Frame) (r : Reader) : Prop
  /-- In the header of the next frame, of which `frame` has been read. -/
  | header (done more : List Frame) (frame : Bytes) (hsplit : fs = done ++ more)
      (hphase : r.phase = .header frame) (hshort : frame.length < kFrameHeaderSize)
      (hrest : frame ++ r.rest = sent more) (hrecv : Received r.handlers done noPart)
  /-- In the payload of `f`, of which `before` has been read and forwarded. -/
  | payload (done more : List Frame) (f : Frame) (before after : Bytes)
      (hsplit : fs = done ++ f :: more) (hphase : r.phase = .payload f.streamId after.length)
      (hpayload : f.payload = before ++ after) (hafter : after ≠ [])
      (hrest : r.rest = after ++ sent more) (hopen : (r.handlers f.streamId).isSome)
      (hrecv : Received r.handlers done (partOf f.streamId (f.header ++ before)))
  /-- The header of `f` has made the loop return. -/
  | returned (done more : List Frame) (f : Frame) (hsplit : fs = done ++ f :: more)
      (hphase : r.phase = .returned) (hrest : r.rest = f.payload ++ sent more)
      (hrecv : Received r.handlers done noPart)

/-! ## What the handlers have been given -/

section Received

variable {handlers : ℕ → Option Bytes} {part : ℕ → Bytes}

/-- A new handler has been given nothing, and no frame of its stream has been read. -/
theorem Received.update (hr : Received handlers done noPart) (hnone : handlers id = none)
    (h2 : 2 ≤ id) (hlt : id < 2 ^ 31) :
    Received (Function.update handlers id (some [])) done noPart := by
  refine ⟨?_, ?_⟩
  · intro i bytes hi
    by_cases heq : i = id
    · subst heq
      rw [Function.update_self] at hi
      rw [hr.unopened i hnone h2]
      exact ⟨h2, hlt, (Option.some.inj hi).symm⟩
    · rw [Function.update_of_ne heq] at hi
      exact hr.opened i bytes hi
  · intro i hi hi2
    by_cases heq : i = id
    · subst heq
      rw [Function.update_self] at hi
      exact absurd hi (Option.some_ne_none _)
    · rw [Function.update_of_ne heq] at hi
      exact hr.unopened i hi hi2

/-- Some more bytes of the frame are written to the handler of its stream. -/
theorem Received.write {bs : Bytes} (hr : Received handlers done (partOf id bs))
    (hopen : (handlers id).isSome) (more : Bytes) :
    Received (writeTo handlers id more) done (partOf id (bs ++ more)) := by
  obtain ⟨old, hold⟩ := Option.isSome_iff_exists.mp hopen
  refine ⟨?_, ?_⟩
  · intro i bytes hi
    by_cases heq : i = id
    · subst heq
      obtain ⟨h2, hlt, hbytes⟩ := hr.opened i old hold
      rw [writeTo, Function.update_self, hold] at hi
      rw [partOf, Function.update_self] at hbytes ⊢
      refine ⟨h2, hlt, ?_⟩
      rw [← Option.some.inj hi, ← List.append_assoc, ← hbytes]
    · have hbytes := hr.opened i bytes
      rw [writeTo, Function.update_of_ne heq] at hi
      rw [partOf, Function.update_of_ne heq] at hbytes ⊢
      exact hbytes hi
  · intro i hi hi2
    by_cases heq : i = id
    · subst heq
      rw [writeTo, Function.update_self, hold] at hi
      exact absurd hi (Option.some_ne_none _)
    · have hnone := hr.unopened i
      rw [writeTo, Function.update_of_ne heq] at hi
      rw [partOf, Function.update_of_ne heq] at hnone ⊢
      exact hnone hi hi2

/-- Before a frame, nothing of it has been given to any handler. -/
theorem partOf_nil (id : ℕ) : partOf id [] = noPart := Function.update_eq_self_iff.mpr rfl

/-- A frame that goes to no handler, or the whole of which was written to its handler, is done. -/
theorem Received.finish (hr : Received handlers done part)
    (hpart : ∀ id, 2 ≤ id → part id = if f.streamId = id then f.bytes else []) :
    Received handlers (done ++ [f]) noPart := by
  refine ⟨?_, ?_⟩
  · intro id bytes hid
    obtain ⟨h2, hlt, hbytes⟩ := hr.opened id bytes hid
    rw [framesTo_concat, ← hpart id h2, noPart, List.append_nil]
    exact ⟨h2, hlt, hbytes⟩
  · intro id hid h2
    rw [framesTo_concat, ← hpart id h2, noPart, List.append_nil]
    exact hr.unopened id hid h2

end Received

/-! ## The steps of the reader -/

/-- The header asks for a new handler. -/
def opens (frame : Bytes) : Prop := frameType frame = k_HEADERS ∨ frameType frame = k_PUSH_PROMISE

instance instDecidableOpens (frame : Bytes) : Decidable (opens frame) :=
  inferInstanceAs (Decidable (_ ∨ _))

/-- A header that does not open a stream with the reserved bit set, or announce a payload for the
connection. -/
def Plain (frame : Bytes) : Prop :=
  (opens frame → streamId frame < 2 ^ 31) ∧ (streamId frame < 2 → frameSize frame = 0)

/-- The frame header that a read of `k` bytes completes. -/
def Reader.completed (r : Reader) (k : ℕ) : Option Bytes :=
  match r.phase with
  | .header frame =>
    if kFrameHeaderSize ≤ frame.length + k then some (frame ++ r.rest.take k) else none
  | _ => none

/-- The read completes no header but a plain one. -/
def HeaderPlain (r : Reader) (k : ℕ) : Prop := ∀ frame ∈ r.completed k, Plain frame

instance instDecidableHeaderPlain (r : Reader) (k : ℕ) : Decidable (HeaderPlain r k) :=
  match h : r.completed k with
  | none => .isTrue fun frame hframe => absurd (h ▸ hframe) (Option.not_mem_none frame)
  | some frame =>
    decidable_of_iff (_ ∧ _ : Prop) (show (opens frame → streamId frame < 2 ^ 31) ∧
      (streamId frame < 2 → frameSize frame = 0) ↔ HeaderPlain r k by
        simp [HeaderPlain, h, Plain])

/-- The whole payload has been forwarded, or some of it is left. -/
theorem demuxed_afterPayload (before : Bytes) {after : Bytes}
    (hpayload : f.payload = before ++ after)
    (hphase : r.phase = .afterPayload f.streamId after.length) (hrest : r.rest = after ++ sent more)
    (hopen : (r.handlers f.streamId).isSome)
    (hrecv : Received r.handlers done (partOf f.streamId (f.header ++ before))) :
    Demuxed (done ++ f :: more) r := by
  by_cases hnil : after = []
  · subst hnil
    refine .header (done ++ [f]) more [] ?_ hphase (by decide) hrest ?_
    · rw [List.append_assoc, List.singleton_append]
    · apply hrecv.finish
      intro id _
      rw [partOf, Function.update_apply, Frame.bytes, hpayload, List.append_nil]
      simp only [eq_comm (a := id), noPart]
  · have hlen : after.length ≠ 0 := by rwa [Ne, List.length_eq_zero_iff]
    rw [Phase.afterPayload, if_neg hlen] at hphase
    exact .payload done more f before after rfl hphase hpayload hnil hrest hopen hrecv

/-- A frame is forwarded to the handler of its stream, if there is one. -/
theorem demuxed_forward (hrest : r.rest = f.payload ++ sent more)
    (hrecv : Received r.handlers done noPart) :
    Demuxed (done ++ f :: more) (r.forward f.header) := by
  unfold Reader.forward
  split
  next bytes hsome =>
    -- no handler has an id with the reserved bit
    have hid : streamId f.header = f.streamId := by
      have hlt := (hrecv.opened _ bytes hsome).2.1
      rw [streamId_header] at hlt ⊢
      split at hlt
      next hres => omega
      next hres => rw [if_neg hres, Nat.add_zero]
    have hopen : (r.handlers f.streamId).isSome := by rw [← hid, hsome]; rfl
    rw [hid, frameSize_header]
    apply demuxed_afterPayload (r := { r with
      phase := .afterPayload f.streamId f.payload.length
      handlers := writeTo r.handlers f.streamId f.header }) [] (List.nil_append _).symm rfl hrest
    · show (writeTo r.handlers f.streamId f.header f.streamId).isSome
      rw [writeTo, Function.update_self, Option.isSome_map]
      exact hopen
    · rw [← partOf_nil f.streamId] at hrecv
      have hwrite := hrecv.write hopen f.header
      rwa [List.nil_append] at hwrite
  next => exact .returned done more f rfl rfl hrest hrecv

/-- The body of the loop keeps in step on a plain header. -/
theorem demuxed_dispatch (hrest : r.rest = f.payload ++ sent more)
    (hrecv : Received r.handlers done noPart) (hplain : Plain f.header) :
    Demuxed (done ++ f :: more) (r.dispatch f.header) := by
  obtain ⟨hopens, hsize⟩ := hplain
  unfold Reader.dispatch
  split
  next hconn =>
    -- the payload that nobody reads is empty
    have hnil : f.payload = [] := by
      rw [← List.length_eq_zero_iff, ← frameSize_header]
      exact hsize hconn
    have hid : f.streamId < 2 := by
      rw [streamId_header] at hconn
      omega
    refine .header (done ++ [f]) more [] ?_ rfl (by decide) ?_ ?_
    · rw [List.append_assoc, List.singleton_append]
    · show r.rest = sent more
      rw [hrest, hnil, List.nil_append]
    · apply hrecv.finish
      intro id h2
      rw [if_neg (by omega)]
      rfl
  next hstream =>
    split
    next hopen =>
      have hlt := hopens hopen
      split
      next => exact .returned done more f rfl rfl hrest hrecv
      next hnone =>
        apply demuxed_forward (r := { r with
        handlers := Function.update r.handlers (streamId f.header) (some []) }) hrest
        apply hrecv.update _ (by omega) hlt
        rwa [Option.isSome_iff_ne_none, not_not] at hnone
    next => exact demuxed_forward hrest hrecv

/-- One step: a read of any number of bytes that completes no header but a plain one. -/
theorem demuxed_read (hr : Demuxed fs r) (hplain : HeaderPlain r k) (hwanted : k ≤ r.wanted)
    (hk : k ≤ r.rest.length) : Demuxed fs (r.read k) := by
  unfold Reader.read
  cases hr with
  | header done more frame hsplit hphase hshort hrest hrecv =>
    rw [Reader.wanted, hphase] at hwanted
    have hlen : (frame ++ r.rest.take k).length = frame.length + k := by
      rw [List.length_append, List.length_take, Nat.min_eq_left hk]
    have hparts : (frame ++ r.rest.take k) ++ r.rest.drop k = sent more := by
      rw [List.append_assoc, List.take_append_drop, hrest]
    rw [hphase]
    show Demuxed fs (if (frame ++ r.rest.take k).length < kFrameHeaderSize then _ else _)
    by_cases hless : (frame ++ r.rest.take k).length < kFrameHeaderSize
    · rw [if_pos hless]
      exact .header done more _ hsplit rfl hless hparts hrecv
    · -- the nine bytes are the header of the next frame
      rw [if_neg hless]
      have hnine : (frame ++ r.rest.take k).length = kFrameHeaderSize := by
        have hwanted' : k ≤ kFrameHeaderSize - frame.length := hwanted
        omega
      cases more with
      | nil =>
        have hnil := congrArg List.length hparts
        rw [List.length_append, hnine] at hnil
        exact absurd hnil (by simp [sent, kFrameHeaderSize])
      | cons f more =>
        rw [sent_cons] at hparts
        obtain ⟨hheader, hdrop⟩ := List.append_inj hparts (by rw [hnine, length_header])
        have hmem : f.header ∈ r.completed k := by
          rw [Reader.completed, hphase]
          show f.header ∈ if kFrameHeaderSize ≤ frame.length + k then _ else _
          rw [if_pos (by omega), hheader]
          rfl
        rw [hheader, hsplit]
        exact demuxed_dispatch hdrop hrecv (hplain _ hmem)
  | payload done more f before after hsplit hphase hpayload hafter hrest hopen hrecv =>
    rw [Reader.wanted, hphase] at hwanted
    have hle : k ≤ after.length := Nat.le_trans hwanted (Nat.min_le_right _ _)
    have htake : r.rest.take k = after.take k := by
      rw [hrest, List.take_append_of_le_length hle]
    have hdrop : r.rest.drop k = after.drop k ++ sent more := by
      rw [hrest, List.drop_append_of_le_length hle]
    rw [hphase, hsplit]
    show Demuxed _ ⟨r.rest.drop k, .afterPayload f.streamId (after.length - k),
      writeTo r.handlers f.streamId (r.rest.take k)⟩
    rw [htake, hdrop, ← List.length_drop]
    apply demuxed_afterPayload (before ++ after.take k) _ rfl rfl
    · show (writeTo r.handlers f.streamId (after.take k) f.streamId).isSome
      rw [writeTo, Function.update_self, Option.isSome_map]
      exact hopen
    · rw [← List.append_assoc]
      exact hrecv.write hopen _
    · rw [List.append_assoc, List.take_append_drop, hpayload]
  | returned done more f hsplit hphase hrest hrecv =>
    rw [hphase]
    exact .returned done more f hsplit hphase hrest hrecv

/-- In every run whose reads complete plain headers only, whatever the frames and however they are
chunked, the reader stays in step. -/
theorem demuxed (hr : (http2Machine (sent fs)).Reachable HeaderPlain r) : Demuxed fs r := by
  refine hr.invariant ?_ ?_
  · refine .header [] fs [] rfl rfl (by decide) rfl ⟨?_, ?_⟩
    · intro id bytes hid
      exact absurd hid.symm (Option.some_ne_none bytes)
    · intro id _ _
      rfl
  · intro r k hdemuxed hplain ⟨_, hwanted, hk⟩
    exact demuxed_read hdemuxed hplain hwanted hk

/-! ## Two streams and a connection-level payload -/

/-- HEADERS and DATA for stream 3, with HEADERS for stream 5 between them. -/
def interleaved : List Frame :=
  [⟨k_HEADERS, 4, false, 3, [1, 2], by decide, by decide⟩,
    ⟨k_HEADERS, 4, false, 5, [], by decide, by decide⟩,
    ⟨k_DATA, 1, true, 5, [3], by decide, by decide⟩]

/-- The second header is read in two pieces; the last one has the reserved bit set. -/
theorem demuxed_interleaved : ∃ r, Demuxed interleaved r ∧ r.phase = .returned ∧
    r.handlers 3 = some (framesTo 3 interleaved) := by
  have hreplay : ((http2Machine (sent interleaved)).replay HeaderPlain [9, 1, 1, 4, 5, 9]
      (http2Machine (sent interleaved)).init).any
        (fun r => decide (r.phase = .returned ∧ r.handlers 3 = some (framesTo 3 interleaved))) =
          true := by decide +kernel
  obtain ⟨r, hr, hp⟩ := Machine.reachable_of_replay hreplay
  exact ⟨r, demuxed hr, of_decide_eq_true hp⟩

/-- SETTINGS with one setting for the connection, and HEADERS for stream 3. -/
def settingsFirst : List Frame :=
  [⟨k_SETTINGS, 0, false, 0, [0, 4, 0, 0, 255, 255], by decide, by decide⟩,
    ⟨k_HEADERS, 4, false, 3, [1], by decide, by decide⟩]

/-- The payload of the SETTINGS frame is left on the connection, where the next header is read. -/
theorem not_demuxed_settings :
    ∃ r, (http2Machine (sent settingsFirst)).Reachable Machine.anyStep r ∧
      ¬ Demuxed settingsFirst r := by
  have hreplay : ((http2Machine (sent settingsFirst)).replay Machine.anyStep [9]
      (http2Machine (sent settingsFirst)).init).any
        (fun r => decide (r.phase = .header [] ∧ r.rest.length = 16)) = true := by decide +kernel
  obtain ⟨r, hr, hp⟩ := Machine.reachable_of_replay hreplay
  refine ⟨r, hr, ?_⟩
  obtain ⟨hphase, hlen⟩ := of_decide_eq_true hp
  intro hdemuxed
  cases hdemuxed with
  | header done more frame hsplit hphase' hshort hrest hrecv =>
    -- sixteen bytes are left, where whole frames would be 0, 10 or 25
    have hframe : frame = [] := Phase.header.inj (hphase'.symm.trans hphase)
    rw [hframe, List.nil_append] at hrest
    rw [hrest] at hlen
    have hmore : more = settingsFirst.drop done.length := by rw [hsplit, List.drop_left]
    have hle : done.length ≤ 2 := by
      have hcount := congrArg List.length hsplit
      rw [List.length_append] at hcount
      show done.length ≤ settingsFirst.length
      omega
    have hall : ∀ n ≤ 2, (sent (settingsFirst.drop n)).length ≠ 16 := by decide
    rw [hmore] at hlen
    exact hall _ hle hlen
  | payload done more f before after hsplit hphase' =>
    exact absurd (hphase'.symm.trans hphase) Phase.noConfusion
  | returned done more f hsplit hphase' =>
    exact absurd (hphase'.symm.trans hphase) Phase.noConfusion

end Anon.Http
