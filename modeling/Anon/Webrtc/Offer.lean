import Anon.Http.Server
import Anon.Lib.CString
import Anon.Lib.Decimal
import Anon.Lib.Lines
import Anon.Stun.Parser

/-!
# SDP offers

`webrtc_dispatch::parse_offer`: the answer to an offer is made from the lines of the offer, and the
credentials of both sides are stored for the STUN requests to come.

* `WebrtcDispatch`: what the answer takes from the dispatcher.
* `OfferState`: the variables of the loop over the lines.
* `answerLine`: the body of the loop.
* `parseOffer`: the whole function, with the call of `store_resource` in its result.
-/

namespace Anon.Webrtc

/-! ## Digits and numbers -/

/-- `append_nibble` -/
def appendNibble (nib a : UInt8) : UInt8 := if nib < 10 then 48 + nib else a + (nib - 10)

/-- `append_sdp_byte` -/
def appendSdpByte (b : UInt8) (includeSeparator : Bool) : Bytes :=
  [appendNibble (b >>> 4) 65, appendNibble (b &&& 0x0f) 65] ++
    if includeSeparator then ascii ":" else []

/-- `get_nibble` -/
def getNibble (c : UInt8) : Option UInt8 :=
  if 65 ≤ c ∧ c ≤ 70 then some (c - 65 + 10)
  else if 48 ≤ c ∧ c ≤ 57 then some (c - 48)
  else none

/-- The loop of `digest_from_fingerprint_str`, which ends two characters in front of the end. -/
def digestBytes : Bytes → Option Bytes
  | c₀ :: c₁ :: c₂ :: rest =>
    if rest ≠ [] ∧ c₂ ≠ 58 then none
    else
      match getNibble c₀, getNibble c₁ with
      | some n₁, some n₂ => (digestBytes rest).map (((n₁ <<< 4) + n₂) :: ·)
      | _, _ => none
  | _ => some []

/-- `digest_from_fingerprint_str` -/
def digestFromFingerprintStr (fgp : Bytes) : Bytes := (digestBytes fgp).getD []

/-- `small_id` -/
abbrev SmallId := Vector UInt8 20

/-- The digits that `priv::to_ascii_hex` writes for a byte. -/
def asciiHex (b : UInt8) : Bytes := [appendNibble (b >>> 4) 97, appendNibble (b &&& 15) 97]

/-- `toHexString` -/
def toHexString (id : SmallId) : Bytes := id.toList.flatMap asciiHex

/-- `std::isspace` -/
def isSpace (c : UInt8) : Bool := c = 32 ∨ 9 ≤ c ∧ c ≤ 13

/-- The number that the digits at the front of a text are. -/
def digitsValue (s : Bytes) : ℤ := decimal (s.takeWhile isDigit)

/-- `strtol` in base 10, which stays inside the range of a `long`. -/
def strtol (s : Bytes) : ℤ :=
  let value := match s.dropWhile isSpace with
    | 45 :: digits => -digitsValue digits
    | 43 :: digits => digitsValue digits
    | digits => digitsValue digits
  max (-2 ^ 63) (min (2 ^ 63 - 1) value)

/-- `std::atoi`, which is `strtol` cut down to an `int`. -/
def atoi (s : Bytes) : ℤ := Int.bmod (strtol s) (2 ^ 32)

/-! ## The dispatcher -/

/-- `webrtc::Connection` -/
structure Connection extends Stun.Connection where
  remoteX509Digest : Bytes := []
  deriving DecidableEq

structure WebrtcDispatch where
  /-- `get_port()` -/
  portNum : ℕ
  /-- `dtls_context->sha256_digest()` -/
  sha256Digest : Bytes
  servingIpAddr : Bytes
  /-- The text of an address is on one line. -/
  servingIpAddr_line : cr ∉ servingIpAddr
  /-- `webrtc::Connection::SerializeAsString` -/
  serializeAsString : Connection → Bytes

namespace WebrtcDispatch

/-- `x509_fingerprint_attribute`, up to the end of the line. -/
def fingerprintLine (d : WebrtcDispatch) : Bytes :=
  ascii "a=fingerprint:sha-256 " ++
    d.sha256Digest.zipIdx.flatMap fun b => appendSdpByte b.1 (b.2 < d.sha256Digest.length - 1)

/-- The last line of the answer. -/
def candidateLine (d : WebrtcDispatch) : Bytes :=
  ascii "a=candidate:0 1 udp 2122260223 " ++ d.servingIpAddr ++ ascii " " ++
    ascii (toString d.portNum) ++ ascii " typ host"

end WebrtcDispatch

/-! ## The loop over the lines -/

/-- The variables of the loop. -/
structure OfferState where
  retSdp : Bytes := []
  remoteUfrag : Bytes := []
  remotePwd : Bytes := []
  remoteX509Digest : Bytes := []
  remoteSctpPort : ℤ := 0
  localUfrag : Bytes := []
  localPwd : Bytes := []
  /-- The number of calls of `small_rand_id`. -/
  drawn : ℕ := 0
  deriving DecidableEq

/-- `local_sctp_port` -/
def localSctpPort : ℕ := 5000

/-- The line at the front of a text, and what is behind it. -/
def splitLine (lineStart : Bytes) : Option (Bytes × Bytes) :=
  match strchr lineStart cr with
  | none => none
  | some lineEnd =>
    if lineEnd = lineStart.length - 1 ∨ lineStart[lineEnd + 1]? ≠ some lf then none
    else some (lineStart.take lineEnd, lineStart.drop (lineEnd + 2))

/-- The body of the loop, where the `n`-th call of `small_rand_id` gives `ids n`. The comparisons
and `atoi` do not stop at the end of the line by themselves. -/
def answerLine (d : WebrtcDispatch) (ids : ℕ → SmallId) (st : OfferState)
    (line rest : Bytes) : OfferState :=
  let lineStart := line ++ crlf ++ rest
  if line.length > 1 ∧ lineStart[1]? = some 61 then
    if lineStart[0]? = some 97 then
      if ascii "a=ice-pwd:" <+: lineStart then
        let localPwd := toHexString (ids st.drawn)
        { st with
          remotePwd := line.drop 10, localPwd := localPwd, drawn := st.drawn + 1,
          retSdp := st.retSdp ++ (ascii "a=ice-pwd:" ++ localPwd ++ crlf) }
      else if ascii "a=ice-ufrag:" <+: lineStart then
        let localUfrag := toHexString (ids st.drawn)
        { st with
          remoteUfrag := line.drop 12, localUfrag := localUfrag, drawn := st.drawn + 1,
          retSdp := st.retSdp ++ (ascii "a=ice-ufrag:" ++ localUfrag ++ crlf) }
      else if ascii "a=setup:" <+: lineStart then
        { st with retSdp := st.retSdp ++ (ascii "a=setup:passive" ++ crlf) }
      else if ascii "a=sctp-port:" <+: lineStart then
        { st with
          remoteSctpPort := atoi (lineStart.drop 12),
          retSdp := st.retSdp ++
            (ascii "a=sctp-port:" ++ ascii (toString localSctpPort) ++ crlf) }
      else if ascii "a=fingerprint:sha-256 " <+: lineStart then
        { st with
          remoteX509Digest := digestFromFingerprintStr (line.drop 22),
          retSdp := st.retSdp ++ (d.fingerprintLine ++ crlf) }
      else { st with retSdp := st.retSdp ++ (line ++ crlf) }
    else { st with retSdp := st.retSdp ++ (line ++ crlf) }
  else st

theorem length_lt_of_splitLine {lineStart : Bytes} {p : Bytes × Bytes}
    (h : splitLine lineStart = some p) : p.2.length < lineStart.length := by
  unfold splitLine at h
  split at h
  · exact absurd h (by simp)
  · split at h
    · exact absurd h (by simp)
    · next lineEnd _ hend =>
      rw [← Option.some.inj h, List.length_drop]
      have hlf : lineStart[lineEnd + 1]? = some lf := not_not.mp fun hlf => hend (.inr hlf)
      obtain ⟨hlt, -⟩ := List.getElem?_eq_some_iff.mp hlf
      omega

/-- `throw_request_error(HTTP_STATUS_BAD_REQUEST, …)` -/
def badRequest (body : String) : Http.Thrown := .request 400 (body ++ "\n") "text/plain"

/-- The loop. -/
def answerLines (d : WebrtcDispatch) (ids : ℕ → SmallId) (st : OfferState)
    (lineStart : Bytes) : Except Http.Thrown OfferState :=
  if lineStart = [] then .ok st
  else
    match _h : splitLine lineStart with
    | none => .error (badRequest "invalid sdp in offer")
    | some p => answerLines d ids (answerLine d ids st p.1 p.2) p.2
termination_by lineStart.length
decreasing_by exact length_lt_of_splitLine _h

/-! ## Offers and answers -/

/-- `nlohmann::json`, as far as `parse_offer` looks at it. -/
inductive Json
  | string (s : Bytes)
  | object (members : List (Bytes × Json))
  | other

/-- `find` -/
def Json.find (key : Bytes) : Json → Option Json
  | .object members => (members.find? fun m => m.1 = key).map Prod.snd
  | _ => none

/-- What an accepted offer leads to. -/
structure Reply where
  /-- What `store_resource` is called with. -/
  username : Bytes
  res : Bytes
  /-- What `res` is the serialization of. -/
  conn : Connection
  /-- The text of the answer. -/
  sdp : Bytes

/-- The value that `parse_offer` returns. -/
def Reply.answer (r : Reply) : Json :=
  .object [(ascii "type", .string (ascii "answer")), (ascii "sdp", .string r.sdp)]

/-- `conn`, after the loop. -/
def OfferState.conn (st : OfferState) : Connection where
  remotePwd := st.remotePwd
  remoteUfrag := st.remoteUfrag
  remoteSctpPort := st.remoteSctpPort
  remoteX509Digest := st.remoteX509Digest
  localPwd := st.localPwd
  localUfrag := st.localUfrag
  localSctpPort := localSctpPort

/-- What is stored and answered at the end. -/
def OfferState.reply (d : WebrtcDispatch) (st : OfferState) : Reply where
  username := st.localUfrag ++ ascii ":" ++ st.remoteUfrag
  res := d.serializeAsString st.conn
  conn := st.conn
  sdp := st.retSdp ++ (d.candidateLine ++ crlf)

/-- The text of an offer that has one. -/
def sdpOf (offer : Json) : Option Bytes :=
  match offer.find (ascii "sdp") with
  | some (.string sdp) => some sdp
  | _ => none

/-- The test of the member `type`. -/
def checkType (offer : Json) : Except Http.Thrown Unit :=
  match offer.find (ascii "type") with
  | some (.string type) => failIf (ascii "offer" ≠ type) (badRequest "invalid offer")
  | _ => .error (badRequest "invalid offer")

/-- `parse_offer` -/
def parseOffer (d : WebrtcDispatch) (ids : ℕ → SmallId) (offer : Json) :
    Except Http.Thrown Reply := do
  checkType offer
  match sdpOf offer with
  | none => .error (badRequest "invalid offer")
  | some sdp =>
    let st ← answerLines d ids {} sdp
    failIf (st.localPwd = [] ∨ st.localUfrag = [] ∨ st.retSdp = [] ∨ st.remoteX509Digest = [])
      (badRequest "invalid sdp in offer")
    return st.reply d

end Anon.Webrtc
