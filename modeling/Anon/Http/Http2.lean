import Anon.BigEndian
import Anon.Lib.Machine

/-!
# The HTTP/2 reader

`http2::run` of `http2.cpp`: the loop that reads frames from a connection and forwards each to the
handler of its stream. A step of the reader is one `pipe.read`; how many bytes it delivers is the
choice of the step.

* `formatFrame`, `Frame`: the frames of a peer.
* `Reader`: the connection, what the loop is about to read, and what the handlers were given.
* `Reader.dispatch`: the body of the loop, once a frame header has been read.
* `http2Machine`: the runs of the loop on what a peer has sent.
-/

namespace Anon.Http

def k_DATA : UInt8 := 0
def k_HEADERS : UInt8 := 1
def k_SETTINGS : UInt8 := 4
def k_PUSH_PROMISE : UInt8 := 5

def kFrameHeaderSize : ℕ := 9

/-! ## Frames -/

/-- `http2::format_frame` -/
def formatFrame (length : ℕ) (type flags : UInt8) (streamId : ℕ) : Bytes :=
  (setBeUint32 length).drop 1 ++ [type, flags] ++ setBeUint32 streamId

/-- A well-formed frame. -/
structure Frame where
  type : UInt8
  flags : UInt8
  reserved : Bool
  streamId : ℕ
  payload : Bytes
  streamId_lt : streamId < 2 ^ 31
  size_lt : payload.length < 2 ^ 24

/-- The frame header, with the reserved bit in front of the stream id. -/
def Frame.header (f : Frame) : Bytes :=
  formatFrame f.payload.length f.type f.flags
    (f.streamId + if f.reserved then 2 ^ 31 else 0)

def Frame.bytes (f : Frame) : Bytes := f.header ++ f.payload

/-- Frames sent back to back. -/
def sent (fs : List Frame) : Bytes := fs.flatMap Frame.bytes

/-! ## The reader -/

/-- `frame_size` -/
def frameSize (frame : Bytes) : ℕ := (getBeUint32 (0 :: frame.take 3) 0).getD 0

/-- `stream_id` -/
def streamId (frame : Bytes) : ℕ := (getBeUint32 frame 5).getD 0

/-- `type` -/
def frameType (frame : Bytes) : UInt8 := frame[3]?.getD 0

/-- What the loop is about to read. -/
inductive Phase
  /-- More of a frame header, after the bytes `frame`. -/
  | header (frame : Bytes)
  /-- `left` more bytes of the payload that goes to the handler of a stream. -/
  | payload (streamId left : ℕ)
  | returned
  deriving DecidableEq

structure Reader where
  /-- What has been sent on the connection and not read. -/
  rest : Bytes
  phase : Phase
  /-- `handlers.map`: what was written to the socket of each handler. -/
  handlers : ℕ → Option Bytes

/-- `pipe_.write` to the socket of a handler. -/
def writeTo (handlers : ℕ → Option Bytes) (id : ℕ) (bs : Bytes) : ℕ → Option Bytes :=
  Function.update handlers id ((handlers id).map (· ++ bs))

/-- The phase when `left` bytes of a payload are left to forward. -/
def Phase.afterPayload (id left : ℕ) : Phase := if left = 0 then .header [] else .payload id left

namespace Reader

/-- Forward a frame to the handler of its stream: the header now, the payload as it is read. -/
def forward (r : Reader) (frame : Bytes) : Reader :=
  match r.handlers (streamId frame) with
  | some _ =>
    { r with
      phase := .afterPayload (streamId frame) (frameSize frame)
      handlers := writeTo r.handlers (streamId frame) frame }
  | none => { r with phase := .returned }

/-- The body of the loop after the frame header has been read. -/
def dispatch (r : Reader) (frame : Bytes) : Reader :=
  if streamId frame < 2 then { r with phase := .header [] }
  else if frameType frame = k_HEADERS ∨ frameType frame = k_PUSH_PROMISE then
    if (r.handlers (streamId frame)).isSome then { r with phase := .returned }
    else
      forward { r with handlers := Function.update r.handlers (streamId frame) (some []) } frame
  else forward r frame

/-- The number of bytes that the next `pipe.read` asks for. -/
def wanted (r : Reader) : ℕ :=
  match r.phase with
  | .header frame => kFrameHeaderSize - frame.length
  | .payload _ left => min 1024 left
  | .returned => 0

/-- A `pipe.read` delivers `k` bytes. -/
def read (r : Reader) (k : ℕ) : Reader :=
  match r.phase with
  | .header frame =>
    let frame := frame ++ r.rest.take k
    let r := { r with rest := r.rest.drop k }
    if frame.length < kFrameHeaderSize then { r with phase := .header frame }
    else r.dispatch frame
  | .payload id left =>
    { rest := r.rest.drop k
      phase := .afterPayload id (left - k)
      handlers := writeTo r.handlers id (r.rest.take k) }
  | .returned => r

end Reader

/-- `http2::run` on a connection on which `input` is sent. A read delivers at least one byte, and
no more than it asks for or the connection has. -/
def http2Machine (input : Bytes) : Machine Reader ℕ where
  init := ⟨input, .header [], fun _ => none⟩
  enabled r k := 1 ≤ k ∧ k ≤ r.wanted ∧ k ≤ r.rest.length
  next r k := r.read k

instance instDecidableHttp2 (input : Bytes) (r : Reader) (k : ℕ) :
    Decidable ((http2Machine input).enabled r k) :=
  inferInstanceAs (Decidable (_ ∧ _))

end Anon.Http
