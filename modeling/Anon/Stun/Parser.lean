import Anon.BigEndian
import Anon.Lib.Except
import Mathlib.Data.Int.Basic
import Mathlib.Tactic.Basic

/-!
# The STUN message parser

`stun_msg_parser::parse_stun_msg` of `stun.cpp`, and the branch of
`webrtc_dispatch::recv_msg` that acts on its result.

What the parser gets from outside is collected in `StunEnv`: the user lookup it is constructed
with, the protobuf parser of the stored connection data, and HMAC-SHA1. `Rejected` has one
value for each place where the parser logs its reason and returns an invalid `stun_msg`, and
`outOfBounds` for a read outside the message.

* `parseAttribute`: the `switch` on the type of one attribute.
* `parseAttributes`: the attribute loop.
* `parseStunMsg`: the whole parser.
-/

namespace Anon.Stun

/-- The fields of `webrtc::Connection` that STUN uses; an unset field is empty or zero. -/
structure Connection where
  remoteUfrag : Bytes := []
  remotePwd : Bytes := []
  remoteSctpPort : ℤ := 0
  localUfrag : Bytes := []
  localPwd : Bytes := []
  localSctpPort : ℤ := 0
  deriving DecidableEq

structure StunEnv where
  /-- `lookup`: the stored data of a user name. -/
  lookup : Bytes → Option Bytes
  /-- `webrtc::Connection::ParseFromString` -/
  parseFromString : Bytes → Option Connection
  /-- `HMAC(EVP_sha1(), key, data)` -/
  hmacSha1 : Bytes → Bytes → Bytes

/-- The credentials of a user name: its stored connection data, parsed. -/
def StunEnv.credentials (env : StunEnv) (userName : Bytes) : Option Connection :=
  env.lookup userName >>= env.parseFromString

/-- A valid `stun_msg`. Its `user_name` is never set. -/
structure StunMsg where
  method : ℕ
  methodClass : ℕ
  remoteUfrag : Bytes
  remotePwd : Bytes
  remoteSctpPort : ℕ
  localUfrag : Bytes
  localPwd : Bytes
  localSctpPort : ℕ
  userName : Bytes := []
  hasFingerprint : Bool
  hasUseCandidate : Bool
  hasIceControlling : Bool
  knownClient : Bool
  deriving DecidableEq

inductive Rejected
  | outOfBounds
  /-- "message too short" -/
  | messageTooShort
  /-- "first two bits not zero" -/
  | firstTwoBits
  /-- "magic cookie incorrect" -/
  | magicCookie
  /-- "message size mismatch" -/
  | messageSizeMismatch
  /-- "unknown method" -/
  | unknownMethod (method : ℕ)
  /-- "invalid attribute data" -/
  | invalidAttributeData
  /-- "next attribute value past end" -/
  | attributeValuePastEnd
  /-- "unimplemented, required attribute" or "unknown, required attribute" -/
  | requiredAttribute (attrType : ℕ)
  /-- "username contains no ":" chr" -/
  | usernameWithoutColon
  /-- "empty ufrag" -/
  | emptyUfrag
  | lookupFailed
  /-- "unable to parse connection data" -/
  | connectionData
  /-- "wrong message integrity length" -/
  | messageIntegrityLength
  /-- "MESSAGE_INTEGRITY without USERNAME" -/
  | messageIntegrityWithoutUsername
  /-- "message integrity mismatch" -/
  | messageIntegrityMismatch
  /-- "wrong USE-CANDIDATE length" -/
  | useCandidateLength
  /-- "wrong ICE-CONGTROLLING length" -/
  | iceControllingLength
  /-- "wrong fingerprint length" -/
  | fingerprintLength
  /-- "fingerprint mismatch" -/
  | fingerprintMismatch
  deriving DecidableEq

/-! ## Constants -/

def stunMsgHeaderSize : ℕ := 20
def attributeHeaderSize : ℕ := 4
def fingerprintXorValue : UInt32 := 0x5354554E
def methodClassMask : ℕ := 0x0110
def binding : ℕ := 0x0001

def MAPPED_ADDRESS : ℕ := 0x0001
def USERNAME : ℕ := 0x0006
def MESSAGE_INTEGRITY : ℕ := 0x0008
def XOR_MAPPED_ADDRESS : ℕ := 0x0020
def PRIORITY : ℕ := 0x0024
def USE_CANDIDATE : ℕ := 0x0025
def FINGERPRINT : ℕ := 0x8028
def ICE_CONTROLLING : ℕ := 0x802A

/-- The bytes of `raw_magic_cookie`. -/
def rawMagicCookie : Bytes := [0x21, 0x12, 0xa4, 0x42]

def knownMethods : List ℕ := [binding]

def knownRequiredAttribs : List ℕ :=
  [MAPPED_ADDRESS, USERNAME, MESSAGE_INTEGRITY, XOR_MAPPED_ADDRESS, PRIORITY, USE_CANDIDATE]

/-- `crc32_tab` -/
def crc32Tab : Array UInt32 := #[
  0x00000000, 0x77073096, 0xee0e612c, 0x990951ba, 0x076dc419, 0x706af48f,
  0xe963a535, 0x9e6495a3, 0x0edb8832, 0x79dcb8a4, 0xe0d5e91e, 0x97d2d988,
  0x09b64c2b, 0x7eb17cbd, 0xe7b82d07, 0x90bf1d91, 0x1db71064, 0x6ab020f2,
  0xf3b97148, 0x84be41de, 0x1adad47d, 0x6ddde4eb, 0xf4d4b551, 0x83d385c7,
  0x136c9856, 0x646ba8c0, 0xfd62f97a, 0x8a65c9ec, 0x14015c4f, 0x63066cd9,
  0xfa0f3d63, 0x8d080df5, 0x3b6e20c8, 0x4c69105e, 0xd56041e4, 0xa2677172,
  0x3c03e4d1, 0x4b04d447, 0xd20d85fd, 0xa50ab56b, 0x35b5a8fa, 0x42b2986c,
  0xdbbbc9d6, 0xacbcf940, 0x32d86ce3, 0x45df5c75, 0xdcd60dcf, 0xabd13d59,
  0x26d930ac, 0x51de003a, 0xc8d75180, 0xbfd06116, 0x21b4f4b5, 0x56b3c423,
  0xcfba9599, 0xb8bda50f, 0x2802b89e, 0x5f058808, 0xc60cd9b2, 0xb10be924,
  0x2f6f7c87, 0x58684c11, 0xc1611dab, 0xb6662d3d, 0x76dc4190, 0x01db7106,
  0x98d220bc, 0xefd5102a, 0x71b18589, 0x06b6b51f, 0x9fbfe4a5, 0xe8b8d433,
  0x7807c9a2, 0x0f00f934, 0x9609a88e, 0xe10e9818, 0x7f6a0dbb, 0x086d3d2d,
  0x91646c97, 0xe6635c01, 0x6b6b51f4, 0x1c6c6162, 0x856530d8, 0xf262004e,
  0x6c0695ed, 0x1b01a57b, 0x8208f4c1, 0xf50fc457, 0x65b0d9c6, 0x12b7e950,
  0x8bbeb8ea, 0xfcb9887c, 0x62dd1ddf, 0x15da2d49, 0x8cd37cf3, 0xfbd44c65,
  0x4db26158, 0x3ab551ce, 0xa3bc0074, 0xd4bb30e2, 0x4adfa541, 0x3dd895d7,
  0xa4d1c46d, 0xd3d6f4fb, 0x4369e96a, 0x346ed9fc, 0xad678846, 0xda60b8d0,
  0x44042d73, 0x33031de5, 0xaa0a4c5f, 0xdd0d7cc9, 0x5005713c, 0x270241aa,
  0xbe0b1010, 0xc90c2086, 0x5768b525, 0x206f85b3, 0xb966d409, 0xce61e49f,
  0x5edef90e, 0x29d9c998, 0xb0d09822, 0xc7d7a8b4, 0x59b33d17, 0x2eb40d81,
  0xb7bd5c3b, 0xc0ba6cad, 0xedb88320, 0x9abfb3b6, 0x03b6e20c, 0x74b1d29a,
  0xead54739, 0x9dd277af, 0x04db2615, 0x73dc1683, 0xe3630b12, 0x94643b84,
  0x0d6d6a3e, 0x7a6a5aa8, 0xe40ecf0b, 0x9309ff9d, 0x0a00ae27, 0x7d079eb1,
  0xf00f9344, 0x8708a3d2, 0x1e01f268, 0x6906c2fe, 0xf762575d, 0x806567cb,
  0x196c3671, 0x6e6b06e7, 0xfed41b76, 0x89d32be0, 0x10da7a5a, 0x67dd4acc,
  0xf9b9df6f, 0x8ebeeff9, 0x17b7be43, 0x60b08ed5, 0xd6d6a3e8, 0xa1d1937e,
  0x38d8c2c4, 0x4fdff252, 0xd1bb67f1, 0xa6bc5767, 0x3fb506dd, 0x48b2364b,
  0xd80d2bda, 0xaf0a1b4c, 0x36034af6, 0x41047a60, 0xdf60efc3, 0xa867df55,
  0x316e8eef, 0x4669be79, 0xcb61b38c, 0xbc66831a, 0x256fd2a0, 0x5268e236,
  0xcc0c7795, 0xbb0b4703, 0x220216b9, 0x5505262f, 0xc5ba3bbe, 0xb2bd0b28,
  0x2bb45a92, 0x5cb36a04, 0xc2d7ffa7, 0xb5d0cf31, 0x2cd99e8b, 0x5bdeae1d,
  0x9b64c2b0, 0xec63f226, 0x756aa39c, 0x026d930a, 0x9c0906a9, 0xeb0e363f,
  0x72076785, 0x05005713, 0x95bf4a82, 0xe2b87a14, 0x7bb12bae, 0x0cb61b38,
  0x92d28e9b, 0xe5d5be0d, 0x7cdcefb7, 0x0bdbdf21, 0x86d3d2d4, 0xf1d4e242,
  0x68ddb3f8, 0x1fda836e, 0x81be16cd, 0xf6b9265b, 0x6fb077e1, 0x18b74777,
  0x88085ae6, 0xff0f6a70, 0x66063bca, 0x11010b5c, 0x8f659eff, 0xf862ae69,
  0x616bffd3, 0x166ccf45, 0xa00ae278, 0xd70dd2ee, 0x4e048354, 0x3903b3c2,
  0xa7672661, 0xd06016f7, 0x4969474d, 0x3e6e77db, 0xaed16a4a, 0xd9d65adc,
  0x40df0b66, 0x37d83bf0, 0xa9bcae53, 0xdebb9ec5, 0x47b2cf7f, 0x30b5ffe9,
  0xbdbdf21c, 0xcabac28a, 0x53b39330, 0x24b4a3a6, 0xbad03605, 0xcdd70693,
  0x54de5729, 0x23d967bf, 0xb3667a2e, 0xc4614ab8, 0x5d681b02, 0x2a6f2b94,
  0xb40bbe37, 0xc30c8ea1, 0x5a05df1b, 0x2d02ef8d]

/-- One byte of `crc32_xor`. -/
def crc32Byte (crc : UInt32) (b : UInt8) : UInt32 :=
  crc32Tab.getD ((crc ^^^ b.toUInt32) &&& 0xff).toNat 0 ^^^ (crc >>> 8)

/-- `crc32_xor` -/
def crc32Xor (buf : Bytes) : UInt32 :=
  (buf.foldl crc32Byte 0xffffffff ^^^ 0xffffffff) ^^^ fingerprintXorValue

/-! ## The attribute loop -/

/-- An attribute of a message: where its header is, and the two fields of the header. -/
structure Attribute where
  offset : ℕ
  attrType : ℕ
  attrLen : ℕ
  deriving DecidableEq

/-- Where the attribute after `a` starts: `attribute_header_size + ((attr_len + 3) & 0x0fffc)`
further on. -/
def Attribute.next (a : Attribute) : ℕ :=
  a.offset + (attributeHeaderSize + ((a.attrLen + 3) &&& 0x0fffc))

def Attribute.value (msg : Bytes) (a : Attribute) : Bytes :=
  (msg.drop (a.offset + attributeHeaderSize)).take a.attrLen

/-- The locals of `parse_stun_msg` that the loop changes. -/
structure ParseState where
  userName : Bytes := []
  conn : Connection := {}
  hasFingerprint : Bool := false
  hasUseCandidate : Bool := false
  hasIceControlling : Bool := false
  knownClient : Bool := false
  deriving DecidableEq

/-- The copy of the message up to a `MESSAGE-INTEGRITY` attribute over which its HMAC is
computed, with the length of a message that ends at the end of the attribute. -/
def integrityInput (msg : Bytes) (a : Attribute) : Bytes :=
  let modifiedLen := a.offset + attributeHeaderSize + a.attrLen - stunMsgHeaderSize
  writeAt (msg.take a.offset) 2 (setBeUint16 modifiedLen)

/-- The value of an `Option`, a rejection if there is none. -/
def orReject {α : Type} (e : Rejected) : Option α → Except Rejected α
  | none => .error e
  | some a => .ok a

/-- A read of the message, a fault if it is not inside. -/
def inBounds {α : Type} : Option α → Except Rejected α := orReject .outOfBounds

/-- `case USERNAME` -/
def parseUsername (env : StunEnv) (st : ParseState) (value : Bytes) :
    Except Rejected ParseState := do
  -- `memchr` finds the first ':' of the value
  let pos ← orReject .usernameWithoutColon (value.idxOf? (UInt8.ofNat 58))
  failIf (pos = 0 ∨ pos = value.length) .emptyUfrag
  let res ← orReject .lookupFailed (env.lookup value)
  let conn ← orReject .connectionData (env.parseFromString res)
  return { st with userName := value, conn := conn, knownClient := true }

/-- `case MESSAGE_INTEGRITY` -/
def parseMessageIntegrity (env : StunEnv) (msg : Bytes) (a : Attribute) (st : ParseState) :
    Except Rejected ParseState := do
  failIf (a.attrLen ≠ 20) .messageIntegrityLength
  failIf (st.userName = []) .messageIntegrityWithoutUsername
  let presented ← inBounds (readBytes msg (a.offset + attributeHeaderSize) 20)
  failIf (env.hmacSha1 st.conn.localPwd (integrityInput msg a) ≠ presented)
    .messageIntegrityMismatch
  return st

/-- `case FINGERPRINT` -/
def parseFingerprint (msg : Bytes) (a : Attribute) (st : ParseState) :
    Except Rejected ParseState := do
  failIf (a.attrLen ≠ 4) .fingerprintLength
  let presentedCrc ← inBounds (getBeUint32 msg (a.offset + attributeHeaderSize))
  failIf ((crc32Xor (msg.take a.offset)).toNat ≠ presentedCrc) .fingerprintMismatch
  return st

/-- The body of the loop after the two fields of the attribute header are read. -/
def parseAttribute (env : StunEnv) (msg : Bytes) (st : ParseState) (a : Attribute) :
    Except Rejected ParseState := do
  failIf (msg.length < a.offset + attributeHeaderSize + a.attrLen) .attributeValuePastEnd
  failIf (a.attrType &&& 0x8000 = 0 ∧ a.attrType ∉ knownRequiredAttribs)
    (.requiredAttribute a.attrType)
  if a.attrType = USERNAME then
    let value ← inBounds (readBytes msg (a.offset + attributeHeaderSize) a.attrLen)
    parseUsername env st value
  else if a.attrType = MESSAGE_INTEGRITY then
    parseMessageIntegrity env msg a st
  else if a.attrType = USE_CANDIDATE then
    failIf (a.attrLen ≠ 0) .useCandidateLength
    return { st with hasUseCandidate := true }
  else if a.attrType = ICE_CONTROLLING then
    failIf (a.attrLen ≠ 8) .iceControllingLength
    return { st with hasIceControlling := true }
  else if a.attrType = FINGERPRINT then
    parseFingerprint msg a st
  else
    return st

theorem Attribute.lt_next (a : Attribute) : a.offset < a.next := by
  unfold Attribute.next attributeHeaderSize
  omega

/-- `while (ptr < msg_end)` -/
def parseAttributes (env : StunEnv) (msg : Bytes) (ptr : ℕ) (st : ParseState) :
    Except Rejected ParseState :=
  if ptr < msg.length then
    if msg.length < ptr + attributeHeaderSize then .error .invalidAttributeData
    else do
      let attrType ← inBounds (getBeUint16 msg ptr)
      let attrLen ← inBounds (getBeUint16 msg (ptr + 2))
      let a : Attribute := ⟨ptr, attrType, attrLen⟩
      let st' ← parseAttribute env msg st a
      parseAttributes env msg a.next st'
  else .ok st
termination_by msg.length - ptr
decreasing_by
  have := Attribute.lt_next ⟨ptr, attrType, attrLen⟩
  simp only at this
  omega

/-! ## The whole message -/

/-- `stun_msg_parser::parse_stun_msg` -/
def parseStunMsg (env : StunEnv) (msg : Bytes) : Except Rejected StunMsg := do
  failIf (msg.length < 20) .messageTooShort
  let first ← inBounds msg[0]?
  failIf (first &&& 0xc0 ≠ 0) .firstTwoBits
  let cookie ← inBounds (readBytes msg 4 4)
  failIf (cookie ≠ rawMagicCookie) .magicCookie
  let msgSize ← inBounds (getBeUint16 msg 2)
  failIf (msg.length ≠ msgSize + stunMsgHeaderSize) .messageSizeMismatch
  let mth ← inBounds (getBeUint16 msg 0)
  -- `mth & ~method_class_mask` of a 16-bit value
  let method := mth &&& (0xffff ^^^ methodClassMask)
  let methodClass := mth &&& methodClassMask
  failIf (method ∉ knownMethods) (.unknownMethod method)
  let st ← parseAttributes env msg stunMsgHeaderSize {}
  return {
    method := method
    methodClass := methodClass
    remoteUfrag := st.conn.remoteUfrag
    remotePwd := st.conn.remotePwd
    remoteSctpPort := (st.conn.remoteSctpPort % 2 ^ 16).toNat
    localUfrag := st.conn.localUfrag
    localPwd := st.conn.localPwd
    localSctpPort := (st.conn.localSctpPort % 2 ^ 16).toNat
    hasFingerprint := st.hasFingerprint
    hasUseCandidate := st.hasUseCandidate
    hasIceControlling := st.hasIceControlling
    knownClient := st.knownClient }

/-! ## The dispatcher -/

/-- What `webrtc_dispatch::recv_msg` does with a datagram. -/
inductive Dispatched
  | ignored
  /-- `dtls->register_association(addr, s.local_sctp_port, s.remote_sctp_port)`, then the reply
  to `s`. -/
  | registerAssociation (s : StunMsg)
  /-- `dtls->recv_msg(msg, len, addr)` -/
  | dtls
  deriving DecidableEq

/-- `webrtc_dispatch::recv_msg` -/
def recvMsg (env : StunEnv) (msg : Bytes) : Dispatched :=
  match msg with
  | [] => .ignored
  | firstByte :: _ =>
    if firstByte ≤ 3 then
      match parseStunMsg env msg with
      | .error _ => .ignored
      | .ok s => if s.knownClient then .registerAssociation s else .ignored
    else if 20 ≤ firstByte ∧ firstByte ≤ 63 then .dtls
    else .ignored

end Anon.Stun
