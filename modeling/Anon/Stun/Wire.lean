import Anon.Stun.Authentication

/-!
# Messages as they are put on the wire

What a message means, attribute by attribute, and that `parse_stun_msg` finds this meaning in the
bytes of every message that is put together as the format says: a value is filled up with up to
three bytes, of any value, to a multiple of four.

* `WireAttr`, `WireMsg`: an attribute and a message that fit their length fields.
* `WireAttr.check`: what an attribute does, behind the bytes in front of it.
* `parseStunMsg_bytes`: the parser agrees, on acceptance and on every rejection.
-/

namespace Anon.Stun

/-- An attribute with its padding. -/
structure WireAttr where
  attrType : ℕ
  value : Bytes
  padding : Bytes
  type_lt : attrType < 2 ^ 16
  aligned : (value.length + padding.length) % 4 = 0
  short : padding.length < 4

namespace WireAttr

def bytes (a : WireAttr) : Bytes :=
  setBeUint16 a.attrType ++ (setBeUint16 a.value.length ++ (a.value ++ a.padding))

/-- What an attribute does, where `front` is the message up to it. -/
def check (env : StunEnv) (front : Bytes) (st : ParseState) (a : WireAttr) :
    Except Rejected ParseState := do
  failIf (a.attrType &&& 0x8000 = 0 ∧ a.attrType ∉ knownRequiredAttribs)
    (.requiredAttribute a.attrType)
  if a.attrType = USERNAME then
    parseUsername env st a.value
  else if a.attrType = MESSAGE_INTEGRITY then
    failIf (a.value.length ≠ 20) .messageIntegrityLength
    failIf (st.userName = []) .messageIntegrityWithoutUsername
    -- the length of a message that ends behind the attribute
    let ending := writeAt front 2 (setBeUint16 (front.length + 4 + a.value.length - 20))
    failIf (env.hmacSha1 st.conn.localPwd ending ≠ a.value) .messageIntegrityMismatch
    return st
  else if a.attrType = USE_CANDIDATE then
    failIf (a.value.length ≠ 0) .useCandidateLength
    return { st with hasUseCandidate := true }
  else if a.attrType = ICE_CONTROLLING then
    failIf (a.value.length ≠ 8) .iceControllingLength
    return { st with hasIceControlling := true }
  else if a.attrType = FINGERPRINT then
    failIf (a.value.length ≠ 4) .fingerprintLength
    failIf (setBeUint32 (crc32Xor front).toNat ≠ a.value) .fingerprintMismatch
    return st
  else
    return st

end WireAttr

/-- The bytes of some attributes. -/
def bytesOf (attrs : List WireAttr) : Bytes := attrs.flatMap WireAttr.bytes

/-- What attributes do one after the other. -/
def checkAll (env : StunEnv) (front : Bytes) (st : ParseState) :
    List WireAttr → Except Rejected ParseState
  | [] => .ok st
  | a :: attrs => do
    let st' ← a.check env front st
    checkAll env (front ++ a.bytes) st' attrs

/-- A message of some type, whose first two bits are zero, with a body that fits. -/
structure WireMsg where
  mth : ℕ
  transId : Vector UInt8 12
  attrs : List WireAttr
  mth_lt : mth < 2 ^ 14
  fits : (bytesOf attrs).length < 2 ^ 16

namespace WireMsg

def header (m : WireMsg) : Bytes :=
  setBeUint16 m.mth ++ (setBeUint16 (bytesOf m.attrs).length ++
    (rawMagicCookie ++ m.transId.toList))

def bytes (m : WireMsg) : Bytes := m.header ++ bytesOf m.attrs

/-- The two parts of the type. -/
def method (m : WireMsg) : ℕ := m.mth &&& (0xffff ^^^ methodClassMask)

def methodClass (m : WireMsg) : ℕ := m.mth &&& methodClassMask

/-- The summary, where attributes have left this state. -/
def summary (m : WireMsg) (st : ParseState) : StunMsg where
  method := m.method
  methodClass := m.methodClass
  remoteUfrag := st.conn.remoteUfrag
  remotePwd := st.conn.remotePwd
  remoteSctpPort := (st.conn.remoteSctpPort % 2 ^ 16).toNat
  localUfrag := st.conn.localUfrag
  localPwd := st.conn.localPwd
  localSctpPort := (st.conn.localSctpPort % 2 ^ 16).toNat
  hasFingerprint := st.hasFingerprint
  hasUseCandidate := st.hasUseCandidate
  hasIceControlling := st.hasIceControlling
  knownClient := st.knownClient

/-- What a message means. -/
def meaning (env : StunEnv) (m : WireMsg) : Except Rejected StunMsg := do
  failIf (m.method ∉ knownMethods) (.unknownMethod m.method)
  let st ← checkAll env m.header {} m.attrs
  return m.summary st

end WireMsg

variable {env : StunEnv} {a : WireAttr} {attrs : List WireAttr} {st : ParseState}

/-! ## One attribute -/

theorem length_bytes (a : WireAttr) :
    a.bytes.length = 4 + (a.value.length + a.padding.length) := by
  simp only [WireAttr.bytes, List.length_append, length_setBeUint16]
  omega

/-- The mask takes away the lowest two bits. -/
theorem and_fffc {n : ℕ} (hn : n < 2 ^ 16) : n &&& 0x0fffc = n / 4 * 4 := by
  have hshift : n &&& 0x3fff <<< 2 = (n >>> 2 &&& 0x3fff) <<< 2 := by
    apply Nat.eq_of_testBit_eq
    intro i
    simp only [Nat.testBit_and, Nat.testBit_shiftLeft, Nat.testBit_shiftRight]
    by_cases hi : 2 ≤ i
    · simp [hi, Nat.add_sub_cancel' hi]
    · simp [hi]
  have hmask : (0x3fff : ℕ) = 2 ^ 14 - 1 := rfl
  show n &&& 0x3fff <<< 2 = _
  rw [hshift, Nat.shiftRight_eq_div_pow, Nat.shiftLeft_eq, hmask, Nat.and_two_pow_sub_one_eq_mod,
    Nat.mod_eq_of_lt (by omega)]

section Attribute

variable (front rest : Bytes) (hlt : a.value.length < 2 ^ 16 - 3)

include hlt

/-- The header of an attribute is read back. -/
theorem getBeUint16_bytes :
    getBeUint16 (front ++ (a.bytes ++ rest)) front.length = some a.attrType ∧
      getBeUint16 (front ++ (a.bytes ++ rest)) (front.length + 2) = some a.value.length := by
  have htype := getBeUint16_append front (a.bytes ++ rest) 0
  have hlen := getBeUint16_append (front ++ setBeUint16 a.attrType)
    (setBeUint16 a.value.length ++ (a.value ++ a.padding ++ rest)) 0
  rw [WireAttr.bytes, List.append_assoc, getBeUint16_setBeUint16, Nat.mod_eq_of_lt a.type_lt]
    at htype
  rw [getBeUint16_setBeUint16, Nat.mod_eq_of_lt (by omega), List.length_append] at hlen
  constructor
  · rw [WireAttr.bytes, List.append_assoc]
    exact htype
  · simp only [WireAttr.bytes, List.append_assoc] at hlen ⊢
    exact hlen

/-- Where the parser goes on. -/
theorem next_bytes :
    (Attribute.mk front.length a.attrType a.value.length).next =
      front.length + a.bytes.length := by
  have haligned := a.aligned
  have hshort := a.short
  have hmask : (a.value.length + 3) &&& 0x0fffc = (a.value.length + 3) / 4 * 4 :=
    and_fffc (by omega)
  show front.length + (4 + ((a.value.length + 3) &&& 0x0fffc)) = _
  rw [hmask, length_bytes]
  omega

end Attribute

theorem drop_bytes (front rest : Bytes) :
    (front ++ (a.bytes ++ rest)).drop (front.length + 4) = a.value ++ (a.padding ++ rest) := by
  have hsplit : front ++ (a.bytes ++ rest) = (front ++ (setBeUint16 a.attrType ++
      setBeUint16 a.value.length)) ++ (a.value ++ (a.padding ++ rest)) := by
    simp [WireAttr.bytes]
  have hlen : (front ++ (setBeUint16 a.attrType ++ setBeUint16 a.value.length)).length =
      front.length + 4 := by
    simp
  rw [hsplit, ← hlen, List.drop_left]

theorem length_append_bytes (front rest : Bytes) :
    (front ++ (a.bytes ++ rest)).length =
      front.length + 4 + a.value.length + (a.padding.length + rest.length) := by
  rw [List.length_append, List.length_append, length_bytes]
  omega

theorem readBytes_value (front rest : Bytes) :
    readBytes (front ++ (a.bytes ++ rest)) (front.length + 4) a.value.length = some a.value := by
  rw [readBytes_eq_some, drop_bytes, List.take_left, length_append_bytes]
  exact ⟨by omega, rfl⟩

/-- A number of 32 bits, and the four bytes that hold it. -/
theorem setBeUint32_eq_iff {val : ℕ} (hval : val < 2 ^ 32) {bs : Bytes} (hbs : bs.length = 4)
    (rest : Bytes) : some val = getBeUint32 (bs ++ rest) 0 ↔ setBeUint32 val = bs := by
  match bs, hbs with
  | [b₀, b₁, b₂, b₃], _ =>
    have h₀ := b₀.toNat_lt
    have h₁ := b₁.toNat_lt
    have h₂ := b₂.toNat_lt
    have h₃ := b₃.toNat_lt
    have hread : getBeUint32 ([b₀, b₁, b₂, b₃] ++ rest) 0 =
        some ((b₀.toNat * 2 ^ 8 + b₁.toNat) * 2 ^ 16 + (b₂.toNat * 2 ^ 8 + b₃.toNat)) := rfl
    rw [hread, Option.some.injEq]
    simp only [setBeUint32, setBeUint16, List.cons_append, List.nil_append, List.cons.injEq,
      and_true, ← UInt8.toNat_inj, UInt8.toNat_ofNat']
    omega

theorem failIf_of_not {ε : Type} {c : Prop} [Decidable c] {e : ε} (h : ¬c) :
    failIf c e = .ok PUnit.unit := if_neg h

theorem failIf_of {ε : Type} {c : Prop} [Decidable c] {e : ε} (h : c) :
    (failIf c e : Except ε PUnit) = .error e := if_pos h

theorem parseMessageIntegrity_bytes (front rest : Bytes) :
    parseMessageIntegrity env (front ++ (a.bytes ++ rest))
      ⟨front.length, a.attrType, a.value.length⟩ st = (do
        failIf (a.value.length ≠ 20) .messageIntegrityLength
        failIf (st.userName = []) .messageIntegrityWithoutUsername
        let ending := writeAt front 2 (setBeUint16 (front.length + 4 + a.value.length - 20))
        failIf (env.hmacSha1 st.conn.localPwd ending ≠ a.value) .messageIntegrityMismatch
        return st) := by
  have hread := readBytes_value (a := a) front rest
  have htake : (front ++ (a.bytes ++ rest)).take front.length = front := List.take_left
  by_cases hlen : a.value.length = 20
  · rw [hlen] at hread
    simp only [parseMessageIntegrity, attributeHeaderSize, hlen, hread, integrityInput, htake,
      stunMsgHeaderSize]
    rfl
  · simp only [parseMessageIntegrity, failIf_of hlen]
    rfl

theorem parseFingerprint_bytes (front rest : Bytes) :
    parseFingerprint (front ++ (a.bytes ++ rest))
      ⟨front.length, a.attrType, a.value.length⟩ st = (do
        failIf (a.value.length ≠ 4) .fingerprintLength
        failIf (setBeUint32 (crc32Xor front).toNat ≠ a.value) .fingerprintMismatch
        return st) := by
  have htake : (front ++ (a.bytes ++ rest)).take front.length = front := List.take_left
  by_cases hlen : a.value.length = 4
  · have hsplit : front ++ (a.bytes ++ rest) = (front ++ (setBeUint16 a.attrType ++
        setBeUint16 a.value.length)) ++ (a.value ++ (a.padding ++ rest)) := by
      simp [WireAttr.bytes]
    have hfront : front.length + 4 = (front ++ (setBeUint16 a.attrType ++
        setBeUint16 a.value.length)).length + 0 := by
      simp
    have hread : getBeUint32 (front ++ (a.bytes ++ rest)) (front.length + 4) =
        getBeUint32 (a.value ++ (a.padding ++ rest)) 0 := by
      rw [hsplit, hfront, getBeUint32_append]
    have hsome : (getBeUint32 (a.value ++ (a.padding ++ rest)) 0).isSome :=
      isSome_getBeUint32 (by rw [List.length_append]; omega)
    obtain ⟨crc, hcrc⟩ := Option.isSome_iff_exists.mp hsome
    have hiff := setBeUint32_eq_iff (crc32Xor front).toNat_lt hlen (a.padding ++ rest)
    rw [hcrc, Option.some.injEq] at hiff
    simp only [parseFingerprint, attributeHeaderSize, hread, hcrc, htake, inBounds, orReject,
      ok_bind]
    by_cases heq : (crc32Xor front).toNat = crc
    · rw [failIf_of_not (not_not.mpr heq), failIf_of_not (not_not.mpr (hiff.mp heq))]
    · rw [failIf_of heq, failIf_of (mt hiff.mpr heq)]
  · simp only [parseFingerprint, failIf_of hlen]
    rfl

/-- The body of the loop does what the attribute means. -/
theorem parseAttribute_bytes (front rest : Bytes) :
    parseAttribute env (front ++ (a.bytes ++ rest)) st
      ⟨front.length, a.attrType, a.value.length⟩ = a.check env front st := by
  have hinside : ¬(front ++ (a.bytes ++ rest)).length <
      front.length + attributeHeaderSize + a.value.length := by
    rw [length_append_bytes, attributeHeaderSize]
    omega
  have hread : inBounds (readBytes (front ++ (a.bytes ++ rest))
      (front.length + attributeHeaderSize) a.value.length) = .ok a.value := by
    rw [attributeHeaderSize, readBytes_value]
    rfl
  unfold parseAttribute WireAttr.check
  simp only [failIf_of_not hinside, ok_bind, hread, parseMessageIntegrity_bytes,
    parseFingerprint_bytes]

/-- The loop, from the first of some attributes at the end of a message on. -/
theorem parseAttributes_bytesOf (front : Bytes) (hfits : (bytesOf attrs).length < 2 ^ 16) :
    parseAttributes env (front ++ bytesOf attrs) front.length st =
      checkAll env front st attrs := by
  induction attrs generalizing front st with
  | nil =>
    rw [parseAttributes, if_neg (by simp [bytesOf])]
    rfl
  | cons a attrs ih =>
    have hcons : bytesOf (a :: attrs) = a.bytes ++ bytesOf attrs := List.flatMap_cons
    rw [hcons, List.length_append, length_bytes] at hfits
    have hlt : a.value.length < 2 ^ 16 - 3 := by omega
    obtain ⟨htype, hlen⟩ := getBeUint16_bytes front (bytesOf attrs) hlt
    have hinside : front.length < (front ++ (a.bytes ++ bytesOf attrs)).length := by
      rw [length_append_bytes]
      omega
    have hheader : ¬(front ++ (a.bytes ++ bytesOf attrs)).length <
        front.length + attributeHeaderSize := by
      rw [length_append_bytes, attributeHeaderSize]
      omega
    rw [hcons, parseAttributes, if_pos hinside, if_neg hheader, htype, hlen]
    simp only [inBounds, orReject, ok_bind, parseAttribute_bytes, next_bytes front hlt, checkAll]
    congr 1
    funext st'
    have hrest : parseAttributes env (front ++ a.bytes ++ bytesOf attrs) (front ++ a.bytes).length
        st' = checkAll env (front ++ a.bytes) st' attrs := ih (front ++ a.bytes) (by omega)
    rw [List.append_assoc, List.length_append] at hrest
    exact hrest

/-! ## Whole messages -/

theorem length_header (m : WireMsg) : m.header.length = 20 := by
  simp [WireMsg.header, rawMagicCookie]

theorem header_type : ∀ mth < 2 ^ 14, UInt8.ofNat (mth / 2 ^ 8) &&& 0xc0 = 0 := by
  intro mth hmth
  have hall : ∀ high < 64, UInt8.ofNat high &&& 0xc0 = 0 := by decide
  exact hall _ (by omega)

/-- The parser finds the meaning of a message in its bytes. -/
theorem parseStunMsg_bytes (env : StunEnv) (m : WireMsg) :
    parseStunMsg env m.bytes = m.meaning env := by
  have hmth := m.mth_lt
  have hfits := m.fits
  have hlength : m.bytes.length = 20 + (bytesOf m.attrs).length := by
    rw [WireMsg.bytes, List.length_append, length_header]
  have hfirst : m.bytes[0]? = some (UInt8.ofNat (m.mth / 2 ^ 8)) := rfl
  have hcookie : readBytes m.bytes 4 4 = some rawMagicCookie := by
    rw [readBytes_eq_some, hlength]
    exact ⟨by omega, rfl⟩
  have hsize : getBeUint16 m.bytes 2 = some (bytesOf m.attrs).length := by
    have hread := getBeUint16_append (setBeUint16 m.mth)
      (setBeUint16 (bytesOf m.attrs).length ++
        (rawMagicCookie ++ (m.transId.toList ++ bytesOf m.attrs))) 0
    rw [getBeUint16_setBeUint16, Nat.mod_eq_of_lt hfits] at hread
    simp only [WireMsg.bytes, WireMsg.header, List.append_assoc]
    exact hread
  have htype : getBeUint16 m.bytes 0 = some m.mth := by
    simp only [WireMsg.bytes, WireMsg.header, List.append_assoc]
    rw [getBeUint16_setBeUint16, Nat.mod_eq_of_lt (by omega)]
  have hattrs : parseAttributes env m.bytes stunMsgHeaderSize {} =
      checkAll env m.header {} m.attrs := by
    rw [WireMsg.bytes, stunMsgHeaderSize, ← length_header m]
    exact parseAttributes_bytesOf m.header hfits
  have hshort : ¬m.bytes.length < 20 := by omega
  have hbits : ¬UInt8.ofNat (m.mth / 2 ^ 8) &&& 0xc0 ≠ 0 := not_not.mpr (header_type m.mth hmth)
  have hmagic : ¬rawMagicCookie ≠ rawMagicCookie := not_not.mpr rfl
  have hmatch : ¬m.bytes.length ≠ (bytesOf m.attrs).length + stunMsgHeaderSize := by
    rw [hlength, stunMsgHeaderSize]
    omega
  unfold parseStunMsg WireMsg.meaning
  simp only [hfirst, hcookie, hsize, htype, hattrs, inBounds, orReject, ok_bind,
    failIf_of_not hshort, failIf_of_not hbits, failIf_of_not hmagic, failIf_of_not hmatch]
  rfl

end Anon.Stun
