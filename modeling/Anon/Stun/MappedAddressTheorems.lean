import Anon.Stun.ReplyTheorems

/-!
# The address in a reply

A reply tells the sender of a request the address that it was seen at. The receiver takes it out of
the `XOR-MAPPED-ADDRESS` attribute: the family byte says how long the address is, and the port and
the address are masked with the cookie and the transaction id.

* `mappedAddress`: the address and the port as a receiver of a message decodes them.
* `SockaddrStorage.NativeInet6`: an IPv6 address that wraps no IPv4 address.
* `mappedAddress_iff`: the senders that get back their address.
-/

namespace Anon.Stun

variable {env : StunEnv} {msg body more v addr transId : Bytes} {t len port : ℕ}

/-! ## Decoding -/

/-- The address and the port in a value of `XOR-MAPPED-ADDRESS`. The address is an IPv6 one, where
an IPv4 one (family 1) is wrapped. -/
def decodeMapped (mask v : Bytes) : Option (Bytes × ℕ) := do
  let family ← v[1]?
  let port ← getBeUint16 (xorBytes (v.drop 2) mask) 0
  if family = 1 then
    let masked ← readBytes v 4 4
    return (ipv4In6Header ++ xorBytes masked mask, port)
  else if family = 2 then
    let masked ← readBytes v 4 16
    return (xorBytes masked mask, port)
  else none

/-- The address and the port in the first `XOR-MAPPED-ADDRESS` attribute of a message. -/
def mappedAddress (msg : Bytes) : Option (Bytes × ℕ) := do
  let a ← (attributes msg).find? fun a => a.attrType = XOR_MAPPED_ADDRESS
  decodeMapped ((msg.drop 4).take 16) (a.value msg)

/-- The address of a sender as an IPv6 one, where an IPv4 one is wrapped. -/
def SockaddrStorage.address : SockaddrStorage → Bytes
  | .inet6 _ addr => addr.val
  | .inet _ addr => ipv4In6Header ++ addr.val

/-- An IPv6 address that wraps no IPv4 address. -/
def SockaddrStorage.NativeInet6 : SockaddrStorage → Prop
  | .inet6 _ addr => addr.val.take 12 ≠ ipv4In6Header
  | .inet _ _ => False

instance (sockaddr : SockaddrStorage) : Decidable sockaddr.NativeInet6 :=
  match sockaddr with
  | .inet6 _ addr => inferInstanceAs (Decidable (addr.val.take 12 ≠ ipv4In6Header))
  | .inet _ _ => inferInstanceAs (Decidable False)

/-! ## Masks -/

/-- A mask that is applied twice is gone. -/
theorem xorBytes_xorBytes {s1 s2 : Bytes} (h : s1.length ≤ s2.length) :
    xorBytes (xorBytes s1 s2) s2 = s1 := by
  have hlen := length_xorBytes h
  apply List.ext_getElem
  · rw [length_xorBytes (by omega), hlen]
  · intro i hi hi'
    simp only [xorBytes, List.getElem_zipWith]
    rw [UInt8.xor_assoc, UInt8.xor_self, UInt8.xor_zero]

theorem xorBytes_append_left {s1 s2 : Bytes} (h : s1.length ≤ s2.length) (more : Bytes) :
    ∃ rest, xorBytes (s1 ++ more) s2 = xorBytes s1 s2 ++ rest := by
  have hsplit : s2 = s2.take s1.length ++ s2.drop s1.length := (List.take_append_drop _ _).symm
  have hlen : s1.length = (s2.take s1.length).length := by
    rw [List.length_take, Nat.min_eq_left h]
  refine ⟨xorBytes more (s2.drop s1.length), ?_⟩
  have hfirst : xorBytes s1 s2 = xorBytes s1 (s2.take s1.length) := by
    conv_lhs => rw [hsplit]
    exact xorBytes_append_right (by omega)
  rw [hfirst]
  conv_lhs => rw [hsplit]
  exact List.zipWith_append hlen

/-! ## The value that a reply carries -/

/-- A value of the address attribute is decoded as a wrapped IPv4 address, whatever it holds. -/
theorem decodeMapped_mappedValue (htrans : transId.length = 12) (hport : port < 2 ^ 16)
    (haddr : addr.length = 4 ∨ addr.length = 16) :
    decodeMapped (rawMagicCookie ++ transId) (mappedValue transId port addr) =
      some (ipv4In6Header ++ addr.take 4, port) := by
  have hmask : (rawMagicCookie ++ transId).length = 16 := by
    rw [List.length_append, htrans]
    rfl
  obtain ⟨mask, hm⟩ : ∃ mask, mask = rawMagicCookie ++ transId := ⟨_, rfl⟩
  have hvalue : mappedValue transId port addr =
      setBeUint16 1 ++ (xorBytes (setBeUint16 port) mask ++ xorBytes addr mask) := by
    rw [mappedValue, hm]
  rw [← hm] at hmask ⊢
  have hportlen : (setBeUint16 port).length ≤ mask.length := by
    rw [hmask, length_setBeUint16]
    omega
  have hxor2 : (xorBytes (setBeUint16 port) mask).length = 2 := length_xorBytes hportlen
  have hxor : (xorBytes addr mask).length = addr.length := length_xorBytes (by omega)
  have hfamily : (mappedValue transId port addr)[1]? = some 1 := by
    rw [hvalue]
    rfl
  -- the port is masked with the first two bytes, the address with the first four
  have hreadPort : getBeUint16 (xorBytes ((mappedValue transId port addr).drop 2) mask) 0 =
      some port := by
    have hdrop : (mappedValue transId port addr).drop 2 =
        xorBytes (setBeUint16 port) mask ++ xorBytes addr mask := by
      rw [hvalue]
      rfl
    have hle : (xorBytes (setBeUint16 port) mask).length ≤ mask.length := by omega
    obtain ⟨rest, hrest⟩ := xorBytes_append_left hle (xorBytes addr mask)
    rw [hdrop, hrest, xorBytes_xorBytes hportlen, getBeUint16_setBeUint16, Nat.mod_eq_of_lt hport]
  have hreadAddr : readBytes (mappedValue transId port addr) 4 4 =
      some ((xorBytes addr mask).take 4) := by
    rw [readBytes_eq_some]
    refine ⟨?_, ?_⟩
    · rw [hvalue, List.length_append, List.length_append, hxor2, hxor, length_setBeUint16]
      omega
    · have hfront : (setBeUint16 1 ++ xorBytes (setBeUint16 port) mask).length = 4 := by
        rw [List.length_append, hxor2, length_setBeUint16]
      rw [hvalue, ← List.append_assoc, ← hfront, List.drop_left, hfront]
  have htake : (xorBytes addr mask).take 4 = xorBytes (addr.take 4) (mask.take 4) :=
    List.take_zipWith
  have hmask4 : mask = mask.take 4 ++ mask.drop 4 := (List.take_append_drop _ _).symm
  have htake4 : (addr.take 4).length ≤ (mask.take 4).length := by
    rw [List.length_take, List.length_take]
    omega
  have hunmask : xorBytes ((xorBytes addr mask).take 4) mask = addr.take 4 := by
    rw [htake]
    conv_lhs =>
      arg 2
      rw [hmask4]
    rw [xorBytes_append_right (by rw [length_xorBytes htake4]; exact htake4),
      xorBytes_xorBytes htake4]
  rw [decodeMapped, hfamily, hreadPort]
  simp only [Option.bind_eq_bind, Option.bind_some, if_true]
  rw [hreadAddr, Option.bind_some, hunmask]
  rfl

/-- The first attribute of a message. -/
theorem attributes_message_cons (htrans : transId.length = 12) (ht : t < 2 ^ 16)
    (hlt : v.length < 128) (len : ℕ) (more : Bytes) :
    ∃ rest, attributes (message transId len (attrBytes t v ++ more)) =
      ⟨20, t, v.length⟩ :: rest := by
  have h20 : (message transId len []).length = 20 := length_message htrans
  obtain ⟨htype, hattrLen⟩ := getBeUint16_attrBytes (message transId len []) ht hlt more
  rw [← message_eq_append, h20] at htype hattrLen
  have hinside : 20 < (message transId len (attrBytes t v ++ more)).length := by
    rw [length_message htrans, List.length_append, length_attrBytes]
    omega
  rw [attributes, stunMsgHeaderSize, attributesFrom, if_pos hinside, htype, hattrLen]
  exact ⟨_, rfl⟩

/-- A message that starts with the address attribute is decoded by it. -/
theorem mappedAddress_message (htrans : transId.length = 12) (hlt : v.length < 128) :
    mappedAddress (message transId len (attrBytes XOR_MAPPED_ADDRESS v ++ more)) =
      decodeMapped (rawMagicCookie ++ transId) v := by
  have htype : XOR_MAPPED_ADDRESS < 2 ^ 16 := by decide
  obtain ⟨rest, hattrs⟩ := attributes_message_cons htrans htype hlt len more
  have hread := readBytes_message htrans len [] XOR_MAPPED_ADDRESS v more
  have hvalue : (⟨20, XOR_MAPPED_ADDRESS, v.length⟩ : Attribute).value
      (message transId len (attrBytes XOR_MAPPED_ADDRESS v ++ more)) = v :=
    (readBytes_eq_some.mp hread).2
  have hmask : ((message transId len (attrBytes XOR_MAPPED_ADDRESS v ++ more)).drop 4).take 16 =
      rawMagicCookie ++ transId := by
    have hlen : (rawMagicCookie ++ transId).length = 16 := by
      rw [List.length_append, htrans]
      rfl
    rw [drop_message, ← hlen, List.take_left]
  rw [mappedAddress, hattrs, List.find?_cons_of_pos (by simp), hmask]
  show decodeMapped _ (Attribute.value _ _) = _
  rw [hvalue]

/-! ## The senders that get back their address -/

/-- The wrapped form of the four bytes that are decoded is the sender's address exactly for the
senders that are no native IPv6 ones. -/
theorem wrapped_eq_address_iff (sockaddr : SockaddrStorage) :
    ipv4In6Header ++ sockaddr.carried.take 4 = sockaddr.address ↔ ¬sockaddr.NativeInet6 := by
  cases sockaddr with
  | inet port addr =>
    have haddr : addr.val.length = 4 := addr.property
    rw [SockaddrStorage.carried, SockaddrStorage.address, List.take_of_length_le (by omega)]
    exact ⟨fun _ hnative => hnative, fun _ => rfl⟩
  | inet6 port addr =>
    have haddr : addr.val.length = 16 := addr.property
    rw [SockaddrStorage.carried, SockaddrStorage.address, SockaddrStorage.NativeInet6, not_not]
    constructor
    · intro heq
      rw [← heq]
      rfl
    · intro hwrapped
      have hlast : (addr.val.drop 12).length ≤ 4 := by
        rw [List.length_drop, haddr]
      rw [if_pos hwrapped, List.take_of_length_le hlast, ← hwrapped, List.take_append_drop]

/-- Every reply is written, for every transaction id, and it gives the sender back its address and
its port exactly if the sender has no native IPv6 address. -/
theorem mappedAddress_iff (stun : StunMsg)
    (hhmac : ∀ key data, (env.hmacSha1 key data).length = 20)
    (hrequest : stun.methodClass = requestClass) (hmethod : stun.method = binding)
    (hlen : 20 ≤ msg.length) (sockaddr : SockaddrStorage) (hport : sockaddr.port < 2 ^ 16) :
    ∃ reply, createStunReply env stun msg sockaddr = some reply ∧
      (mappedAddress reply = some (sockaddr.address, sockaddr.port) ↔ ¬sockaddr.NativeInet6) := by
  obtain ⟨transId, hread⟩ : ∃ v, readBytes msg 8 12 = some v :=
    Option.isSome_iff_exists.mp (isSome_readBytes (by omega))
  have htrans : transId.length = 12 := length_of_readBytes hread
  have hcarried := length_carried sockaddr
  have hle : sockaddr.carried.length ≤ 16 := by omega
  have hvalue := length_mappedValue htrans sockaddr.port hle
  refine ⟨_, createStunReply_eq stun hhmac hrequest hmethod htrans hread sockaddr, ?_⟩
  rw [checkedAttrs, baseAttrs, List.cons_append, encode_cons, List.append_assoc,
    mappedAddress_message htrans (by omega), decodeMapped_mappedValue htrans hport hcarried,
    Option.some.injEq, Prod.mk.injEq, ← wrapped_eq_address_iff]
  exact ⟨fun h => h.1, fun h => ⟨h, rfl⟩⟩

/-! ## Two senders -/

theorem mappedAddress_loopback :
    ∃ reply, createStunReply exampleEnv { exampleSummary with localPwd := [112] } usernameOnly
      (.inet 5000 ⟨[127, 0, 0, 1], rfl⟩) = some reply ∧
        mappedAddress reply = some (ipv4In6Header ++ [127, 0, 0, 1], 5000) := by
  have hhmac : ∀ key data, (exampleEnv.hmacSha1 key data).length = 20 := by
    intro key data
    simp [exampleEnv]
    omega
  obtain ⟨reply, hreply, hiff⟩ := mappedAddress_iff { exampleSummary with localPwd := [112] } hhmac
    rfl rfl (show 20 ≤ usernameOnly.length by decide) (.inet 5000 ⟨[127, 0, 0, 1], rfl⟩)
      (show 5000 < 2 ^ 16 by decide)
  exact ⟨reply, hreply, hiff.mpr (fun hnative => hnative)⟩

/-- The address 2001:db8::1. -/
def documentationAddress : { bs : Bytes // bs.length = 16 } :=
  ⟨[0x20, 0x01, 0x0d, 0xb8, 0, 0, 0, 0, 0, 0, 0, 0, 0, 0, 0, 1], rfl⟩

/-- A sender at a native IPv6 address is told an IPv4 address: 32.1.13.184. -/
theorem mappedAddress_documentation :
    ∃ reply, createStunReply exampleEnv { exampleSummary with localPwd := [] } usernameOnly
      (.inet6 5000 documentationAddress) = some reply ∧
        mappedAddress reply = some (ipv4In6Header ++ [32, 1, 13, 184], 5000) ∧
        mappedAddress reply ≠ some (documentationAddress.val, 5000) := by
  obtain ⟨reply, hreply⟩ : ∃ reply, createStunReply exampleEnv
      { exampleSummary with localPwd := [] } usernameOnly
      (.inet6 5000 documentationAddress) = some reply :=
    Option.isSome_iff_exists.mp (by decide +kernel)
  have hmapped : (createStunReply exampleEnv { exampleSummary with localPwd := [] }
      usernameOnly (.inet6 5000 documentationAddress)).bind mappedAddress =
        some (ipv4In6Header ++ [32, 1, 13, 184], 5000) := by decide +kernel
  rw [hreply, Option.bind_some] at hmapped
  refine ⟨reply, hreply, hmapped, ?_⟩
  rw [hmapped]
  decide

end Anon.Stun
