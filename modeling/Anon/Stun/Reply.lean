import Anon.Stun.Parser

/-!
# The reply to a binding request

`stun_message_builder` and `stun_msg_parser::create_stun_reply` of `stun.cpp`. The builder is its
buffer, and each of its members is a function of the buffer.

* `newMessage`: the constructor.
* `addXorMappedAddress`, `addIceControlled`, `addMessageIntegrity`, `addFingerprint`: the members
  that a reply uses.
* `createStunReply`: the reply, empty if the message is no binding request.
-/

namespace Anon.Stun

def ICE_CONTROLLED : ℕ := 0x8029

def requestClass : ℕ := 0x0000
def successResponseClass : ℕ := 0x0100

/-- `ipv4_in_6_header` -/
def ipv4In6Header : Bytes := [0, 0, 0, 0, 0, 0, 0, 0, 0, 0, 0xff, 0xff]

/-- The address of a sender: its port and the bytes of its address, by address family. -/
inductive SockaddrStorage
  | inet6 (sin6Port : ℕ) (sin6Addr : { bs : Bytes // bs.length = 16 })
  | inet (sinPort : ℕ) (sinAddr : { bs : Bytes // bs.length = 4 })

/-- `vector::resize`; what is added is zero. -/
def resize (buff : Bytes) (size : ℕ) : Bytes :=
  buff.take size ++ List.replicate (size - buff.length) 0

/-- `(buff.size() + 3) & 0x0fffc`: where the next attribute starts. -/
def alignedSize (buff : Bytes) : ℕ := (buff.length + 3) &&& 0x0fffc

/-- The bytes of `s1` and `s2` combined by `^`. -/
def xorBytes (s1 s2 : Bytes) : Bytes := List.zipWith (fun b1 b2 => b1 ^^^ b2) s1 s2

/-- `stun_message_builder(message_type, trans_id)`; the length is left zero. -/
def newMessage (messageType : ℕ) (transId : Bytes) : Bytes :=
  let buff := writeAt (List.replicate 20 0) 0 (setBeUint16 messageType)
  let buff := writeAt buff 4 rawMagicCookie
  writeAt buff 8 transId

/-- `add_ipv4_xor_mapped_address` -/
def addIpv4XorMappedAddress (buff : Bytes) (port : ℕ) (addr : Bytes) : Bytes :=
  let attr := setBeUint16 XOR_MAPPED_ADDRESS ++ setBeUint16 8 ++ setBeUint16 1 ++
    xorBytes (setBeUint16 port) (buff.drop 4) ++ xorBytes addr (buff.drop 4)
  let sz := alignedSize buff
  writeAt (resize buff (sz + 12)) sz attr

/-- `add_xor_mapped_address` -/
def addXorMappedAddress (buff : Bytes) : SockaddrStorage → Bytes
  | .inet6 port addr =>
    -- an IPv4 address wrapped in an IPv6 one
    if addr.val.take 12 = ipv4In6Header then
      addIpv4XorMappedAddress buff port (addr.val.drop 12)
    else
      let attr := setBeUint16 XOR_MAPPED_ADDRESS ++ setBeUint16 20 ++ setBeUint16 1 ++
        xorBytes (setBeUint16 port) (buff.drop 4) ++ xorBytes addr.val (buff.drop 4)
      let sz := alignedSize buff
      writeAt (resize buff (sz + 24)) sz attr
  | .inet port addr => addIpv4XorMappedAddress buff port addr.val

/-- `add_ice_controlled` -/
def addIceControlled (buff : Bytes) : Bytes :=
  let sz := alignedSize buff
  let buff := resize buff (sz + 12)
  let buff := writeAt buff sz (setBeUint16 ICE_CONTROLLED)
  let buff := writeAt buff (sz + 2) (setBeUint16 8)
  writeAt buff (sz + 4) (List.replicate 8 0)

/-- `add_message_integrity`: the length is set before the HMAC is computed over what stands in
front of the attribute. -/
def addMessageIntegrity (env : StunEnv) (buff : Bytes) (pwd : Bytes) : Bytes :=
  let sz := alignedSize buff
  let buff := resize buff (sz + 24)
  let buff := writeAt buff 2 (setBeUint16 (sz + 24 - stunMsgHeaderSize))
  let buff := writeAt buff sz (setBeUint16 MESSAGE_INTEGRITY)
  let buff := writeAt buff (sz + 2) (setBeUint16 20)
  writeAt buff (sz + 4) (env.hmacSha1 pwd (buff.take sz))

/-- `add_fingerprint` -/
def addFingerprint (buff : Bytes) : Bytes :=
  let sz := alignedSize buff
  let buff := resize buff (sz + 8)
  let buff := writeAt buff 2 (setBeUint16 (sz + 8 - stunMsgHeaderSize))
  let buff := writeAt buff sz (setBeUint16 FINGERPRINT)
  let buff := writeAt buff (sz + 2) (setBeUint16 4)
  writeAt buff (sz + 4) (setBeUint32 (crc32Xor (buff.take sz)).toNat)

/-- `stun_msg_parser::create_stun_reply`; `none` is a read outside the message. -/
def createStunReply (env : StunEnv) (stun : StunMsg) (msg : Bytes) (sockaddr : SockaddrStorage) :
    Option Bytes :=
  if stun.methodClass = requestClass ∧ stun.method = binding then do
    let transId ← readBytes msg 8 12
    let response := newMessage (binding ||| successResponseClass) transId
    let response := addXorMappedAddress response sockaddr
    let response := if stun.hasIceControlling then addIceControlled response else response
    let response :=
      if stun.localPwd = [] then response else addMessageIntegrity env response stun.localPwd
    return addFingerprint response
  else return []

end Anon.Stun
