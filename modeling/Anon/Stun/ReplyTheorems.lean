import Anon.Stun.Authentication
import Anon.Stun.Reply

/-!
# The reply verifies

The builder changes the length in the header before it computes the HMAC and again before it
computes the CRC; the parser recomputes both from the finished message.

* `message`: a reply as its header and its attributes.
* `addAttribute_eq`: what the members of the builder do to it: they append an attribute.
* `attributesFrom_encode`: the attributes that the parser finds are those that were appended.
* `Verifies`: the checks that a reply has to pass.
* `createStunReply_verifies`: every reply passes them.
-/

namespace Anon.Stun

variable {env : StunEnv} {msg front body v : Bytes} {t len : ℕ}

/-! ## Writing behind what is there -/

/-- A store over bytes in the middle of a buffer. -/
theorem writeAt_append (front rest : Bytes) {mid bs : Bytes} (h : mid.length = bs.length) :
    writeAt (front ++ (mid ++ rest)) front.length bs = front ++ (bs ++ rest) := by
  rw [writeAt, List.take_left, ← h, ← List.length_append, ← List.append_assoc front mid rest,
    List.drop_left, List.append_assoc]

/-- A store behind some bytes leaves them alone. -/
theorem take_writeAt {buf bs : Bytes} {n i : ℕ} (hn : n ≤ i) (hi : i ≤ buf.length) :
    (writeAt buf i bs).take n = buf.take n := by
  rw [writeAt, List.append_assoc, List.take_append_of_le_length (by simp; omega), List.take_take,
    Nat.min_eq_left hn]

theorem resize_add (buff : Bytes) (n : ℕ) :
    resize buff (buff.length + n) = buff ++ List.replicate n 0 := by
  rw [resize, List.take_of_length_le (Nat.le_add_right _ _), Nat.add_sub_cancel_left]

/-- The mask for lengths does nothing to a small multiple of four. -/
theorem and_mask {n : ℕ} (hlt : n < 128) (hmod : n % 4 = 0) : (n + 3) &&& 0x0fffc = n := by
  have hall : ∀ n < 128, n % 4 = 0 → (n + 3) &&& 0x0fffc = n := by decide
  exact hall n hlt hmod

/-- An attribute: its type, the length of its value, and the value. -/
def attrBytes (t : ℕ) (v : Bytes) : Bytes := setBeUint16 t ++ setBeUint16 v.length ++ v

theorem length_attrBytes (t : ℕ) (v : Bytes) : (attrBytes t v).length = 4 + v.length := by
  simp [attrBytes]
  omega

/-- The three stores that fill in an attribute behind a buffer. -/
theorem writeAt_attribute (buff : Bytes) (t : ℕ) (v : Bytes) :
    writeAt (writeAt (writeAt (buff ++ List.replicate (4 + v.length) 0) buff.length
      (setBeUint16 t)) (buff.length + 2) (setBeUint16 v.length)) (buff.length + 4) v =
      buff ++ attrBytes t v := by
  have hzeros : (List.replicate (4 + v.length) 0 : Bytes) =
      List.replicate 2 0 ++ (List.replicate 2 0 ++ List.replicate v.length 0) := by
    rw [← List.replicate_add, ← List.replicate_add]
    congr 1
    omega
  have hlen2 : (buff ++ setBeUint16 t).length = buff.length + 2 := by simp
  have hlen4 : (buff ++ setBeUint16 t ++ setBeUint16 v.length).length = buff.length + 4 := by
    simp
  rw [hzeros, writeAt_append _ _ (by rfl), ← List.append_assoc buff, ← hlen2,
    writeAt_append _ _ (by rfl),
    ← List.append_assoc _ (setBeUint16 v.length), ← hlen4]
  have hzeros' : (List.replicate v.length 0 : Bytes).length = v.length := List.length_replicate
  have hlast := writeAt_append (buff ++ setBeUint16 t ++ setBeUint16 v.length) [] hzeros'
  rw [List.append_nil, List.append_nil] at hlast
  rw [hlast, attrBytes]
  simp only [List.append_assoc]

/-! ## The message -/

/-- A reply: the header, with the length `len` in it, and the bytes of the attributes. -/
def message (transId : Bytes) (len : ℕ) (body : Bytes) : Bytes :=
  setBeUint16 (binding ||| successResponseClass) ++ (setBeUint16 len ++
    (rawMagicCookie ++ transId ++ body))

variable {transId : Bytes}

theorem length_message (htrans : transId.length = 12) :
    (message transId len body).length = 20 + body.length := by
  simp [message, htrans, rawMagicCookie]
  omega

theorem message_append (attr : Bytes) :
    message transId len (body ++ attr) = message transId len body ++ attr := by
  simp only [message, List.append_assoc]

/-- The length in the header is set. -/
theorem writeAt_length (len' : ℕ) :
    writeAt (message transId len body) 2 (setBeUint16 len') = message transId len' body :=
  writeAt_append (setBeUint16 (binding ||| successResponseClass)) _ rfl

theorem getBeUint16_message (hlen : len < 2 ^ 16) :
    getBeUint16 (message transId len body) 2 = some len := by
  have hread := getBeUint16_append (setBeUint16 (binding ||| successResponseClass))
    (setBeUint16 len ++ (rawMagicCookie ++ transId ++ body)) 0
  rw [getBeUint16_setBeUint16, Nat.mod_eq_of_lt hlen] at hread
  exact hread

theorem newMessage_eq (htrans : transId.length = 12) :
    newMessage (binding ||| successResponseClass) transId = message transId 0 [] := by
  rw [newMessage]
  show writeAt _ 8 transId = _
  rw [writeAt, htrans]
  rfl

/-! ## The address attribute -/

/-- The port of a sender. -/
def SockaddrStorage.port : SockaddrStorage → ℕ
  | .inet6 port _ => port
  | .inet port _ => port

/-- The bytes of the address that a reply carries: an IPv4 address has four, also a wrapped one. -/
def SockaddrStorage.carried : SockaddrStorage → Bytes
  | .inet6 _ addr => if addr.val.take 12 = ipv4In6Header then addr.val.drop 12 else addr.val
  | .inet _ addr => addr.val

/-- The value of the address attribute: the family, and the port and the address, each combined
with the cookie and the transaction id. -/
def mappedValue (transId : Bytes) (port : ℕ) (addr : Bytes) : Bytes :=
  setBeUint16 1 ++ (xorBytes (setBeUint16 port) (rawMagicCookie ++ transId) ++
    xorBytes addr (rawMagicCookie ++ transId))

theorem length_xorBytes {s1 s2 : Bytes} (h : s1.length ≤ s2.length) :
    (xorBytes s1 s2).length = s1.length := by
  rw [xorBytes, List.length_zipWith, Nat.min_eq_left h]

/-- Only as many masks are used as there are bytes. -/
theorem xorBytes_append_right {s1 s2 more : Bytes} (h : s1.length ≤ s2.length) :
    xorBytes s1 (s2 ++ more) = xorBytes s1 s2 := by
  apply List.ext_getElem
  · rw [length_xorBytes h, length_xorBytes (by simp; omega)]
  · intro i hi hi'
    have hlt : i < s1.length := by rwa [length_xorBytes h] at hi'
    simp only [xorBytes, List.getElem_zipWith]
    rw [List.getElem_append_left (by omega)]

theorem length_mappedValue (htrans : transId.length = 12) (port : ℕ) {addr : Bytes}
    (haddr : addr.length ≤ 16) : (mappedValue transId port addr).length = 4 + addr.length := by
  have hmask : (rawMagicCookie ++ transId).length = 16 := by
    rw [List.length_append, htrans]
    rfl
  have hport : (setBeUint16 port).length ≤ (rawMagicCookie ++ transId).length := by
    rw [hmask, length_setBeUint16]
    omega
  rw [mappedValue, List.length_append, List.length_append, length_xorBytes hport,
    length_xorBytes (by omega), length_setBeUint16, length_setBeUint16]
  omega

/-- A reply carries four or sixteen bytes of address. -/
theorem length_carried (sockaddr : SockaddrStorage) :
    sockaddr.carried.length = 4 ∨ sockaddr.carried.length = 16 := by
  cases sockaddr with
  | inet port addr => exact Or.inl addr.property
  | inet6 port addr =>
    have haddr : addr.val.length = 16 := addr.property
    rw [SockaddrStorage.carried]
    split
    · left
      rw [List.length_drop, haddr]
    · exact Or.inr haddr

/-! ## The members of the builder -/

section Members

variable (htrans : transId.length = 12) (hlt : 20 + body.length < 128) (hmod : body.length % 4 = 0)

include htrans hlt hmod

/-- The next attribute starts where the message ends. -/
theorem alignedSize_message :
    alignedSize (message transId len body) = (message transId len body).length := by
  rw [alignedSize, and_mask] <;> rw [length_message htrans] <;> omega

/-- The members that fill in an attribute append it. -/
theorem addIceControlled_eq (len : ℕ) :
    addIceControlled (message transId len body) =
      message transId len (body ++ attrBytes ICE_CONTROLLED (List.replicate 8 0)) := by
  rw [message_append, ← writeAt_attribute, ← resize_add, addIceControlled]
  simp only [alignedSize_message htrans hlt hmod]
  rfl

omit htrans hlt hmod in
/-- The masks of the address attribute: the message from the cookie on. -/
theorem drop_message :
    (message transId len body).drop 4 = rawMagicCookie ++ transId ++ body := by
  show List.drop 4 (_ :: _ :: _ :: _ :: (rawMagicCookie ++ transId ++ body)) = _
  rw [List.drop_succ_cons, List.drop_succ_cons, List.drop_succ_cons, List.drop_succ_cons,
    List.drop_zero]

omit hlt hmod in
/-- The masks of at most sixteen bytes are the cookie and the transaction id. -/
theorem xorBytes_message {bs : Bytes} (hbs : bs.length ≤ 16) :
    xorBytes bs ((message transId len body).drop 4) =
      xorBytes bs (rawMagicCookie ++ transId) := by
  have hmask : bs.length ≤ (rawMagicCookie ++ transId).length := by
    rw [List.length_append, htrans, rawMagicCookie]
    show bs.length ≤ 4 + 12
    omega
  rw [drop_message]
  exact xorBytes_append_right hmask

/-- An attribute is written behind the message. -/
theorem writeAt_resize {attr : Bytes} {n : ℕ} (hattr : attr.length = n) :
    writeAt (resize (message transId len body) (alignedSize (message transId len body) + n))
      (alignedSize (message transId len body)) attr = message transId len (body ++ attr) := by
  have hroom : (List.replicate n 0 : Bytes).length = attr.length := by
    rw [List.length_replicate, hattr]
  have hwrite := writeAt_append (message transId len body) [] hroom
  rw [List.append_nil, List.append_nil] at hwrite
  rw [alignedSize_message htrans hlt hmod, resize_add, hwrite, message_append]

theorem addIpv4XorMappedAddress_eq (port : ℕ) {addr : Bytes} (haddr : addr.length = 4) :
    addIpv4XorMappedAddress (message transId len body) port addr =
      message transId len
        (body ++ attrBytes XOR_MAPPED_ADDRESS (mappedValue transId port addr)) := by
  have hlen : (mappedValue transId port addr).length = 8 := by
    rw [length_mappedValue htrans port (by omega), haddr]
  have hattr : (attrBytes XOR_MAPPED_ADDRESS (mappedValue transId port addr)).length = 12 := by
    rw [length_attrBytes, hlen]
  have hport : (setBeUint16 port).length ≤ 16 := by
    rw [length_setBeUint16]
    omega
  rw [← writeAt_resize htrans hlt hmod hattr, addIpv4XorMappedAddress,
    xorBytes_message htrans hport, xorBytes_message htrans (by omega), attrBytes, hlen,
    mappedValue]
  simp only [List.append_assoc]

/-- The address attribute of a reply. -/
theorem addXorMappedAddress_eq (len : ℕ) (sockaddr : SockaddrStorage) :
    addXorMappedAddress (message transId len body) sockaddr =
      message transId len (body ++ attrBytes XOR_MAPPED_ADDRESS
        (mappedValue transId sockaddr.port sockaddr.carried)) := by
  cases sockaddr with
  | inet port addr => exact addIpv4XorMappedAddress_eq htrans hlt hmod port addr.property
  | inet6 port addr =>
    have haddr : addr.val.length = 16 := addr.property
    rw [addXorMappedAddress, SockaddrStorage.carried]
    by_cases hwrapped : addr.val.take 12 = ipv4In6Header
    · have hlast : (addr.val.drop 12).length = 4 := by
        rw [List.length_drop, haddr]
      rw [if_pos hwrapped, if_pos hwrapped]
      exact addIpv4XorMappedAddress_eq htrans hlt hmod port hlast
    · have hlen : (mappedValue transId port addr.val).length = 20 := by
        rw [length_mappedValue htrans port (by omega), haddr]
      have hattr : (attrBytes XOR_MAPPED_ADDRESS (mappedValue transId port addr.val)).length =
          24 := by
        rw [length_attrBytes, hlen]
      have hport : (setBeUint16 port).length ≤ 16 := by
        rw [length_setBeUint16]
        omega
      rw [if_neg hwrapped, if_neg hwrapped, SockaddrStorage.port,
        ← writeAt_resize htrans hlt hmod hattr, xorBytes_message htrans hport,
        xorBytes_message htrans (by omega), attrBytes, hlen, mappedValue]
      simp only [List.append_assoc]

omit htrans hlt hmod in
/-- Room for an attribute is made and the length is set. -/
theorem writeAt_length_resize (n len' : ℕ) :
    writeAt (resize (message transId len body) ((message transId len body).length + n)) 2
      (setBeUint16 len') = message transId len' body ++ List.replicate n 0 := by
  rw [resize_add, ← message_append, writeAt_length, message_append]

omit hlt hmod in
/-- The type and the length of an attribute are written behind the message. -/
theorem take_writeAt_header (n len' t l : ℕ) (hn : 4 ≤ n) :
    (writeAt (writeAt (message transId len' body ++ List.replicate n 0)
      (message transId len body).length (setBeUint16 t)) ((message transId len body).length + 2)
      (setBeUint16 l)).take (message transId len body).length = message transId len' body := by
  have hlen : (message transId len body).length = 20 + body.length := length_message htrans
  have hlen' : (message transId len' body).length = 20 + body.length := length_message htrans
  have hsame : (message transId len body).length = (message transId len' body).length := by
    rw [hlen, hlen']
  have hroom : (message transId len body).length + 4 ≤
      (message transId len' body ++ List.replicate n 0).length := by
    rw [List.length_append, List.length_replicate, hlen, hlen']
    omega
  have hfirst : (writeAt (message transId len' body ++ List.replicate n 0)
      (message transId len body).length (setBeUint16 t)).length =
        (message transId len' body ++ List.replicate n 0).length := by
    simp only [writeAt, List.length_append, List.length_take, List.length_drop,
      length_setBeUint16, List.length_replicate] at hroom ⊢
    omega
  rw [take_writeAt (Nat.le_add_right _ _) (by rw [hfirst]; omega),
    take_writeAt (Nat.le_refl _) (by omega), hsame, List.take_left]

/-- `MESSAGE-INTEGRITY` is computed over the message in front of it with the length that the
message has with it. -/
theorem addMessageIntegrity_eq (pwd : Bytes)
    (hhmac : ∀ key data, (env.hmacSha1 key data).length = 20) :
    addMessageIntegrity env (message transId len body) pwd =
      message transId (body.length + 24) (body ++ attrBytes MESSAGE_INTEGRITY
        (env.hmacSha1 pwd (message transId (body.length + 24) body))) := by
  have hlen : (message transId len body).length = 20 + body.length := length_message htrans
  have hsize : (message transId len body).length + 24 - stunMsgHeaderSize = body.length + 24 := by
    rw [hlen, stunMsgHeaderSize]
    omega
  have hsame : (message transId len body).length =
      (message transId (body.length + 24) body).length := by
    rw [hlen, length_message htrans]
  simp only [addMessageIntegrity, alignedSize_message htrans hlt hmod, hsize,
    writeAt_length_resize]
  rw [take_writeAt_header htrans 24 _ _ _ (by omega), hsame, message_append,
    ← writeAt_attribute, hhmac]

/-- `FINGERPRINT` is computed over the message in front of it with the length that the message has
with it. -/
theorem addFingerprint_eq (len : ℕ) :
    addFingerprint (message transId len body) =
      message transId (body.length + 8) (body ++ attrBytes FINGERPRINT
        (setBeUint32 (crc32Xor (message transId (body.length + 8) body)).toNat)) := by
  have hlen : (message transId len body).length = 20 + body.length := length_message htrans
  have hsize : (message transId len body).length + 8 - stunMsgHeaderSize = body.length + 8 := by
    rw [hlen, stunMsgHeaderSize]
    omega
  have hsame : (message transId len body).length =
      (message transId (body.length + 8) body).length := by
    rw [hlen, length_message htrans]
  simp only [addFingerprint, alignedSize_message htrans hlt hmod, hsize,
    writeAt_length_resize]
  rw [take_writeAt_header htrans 8 _ _ _ (by omega), hsame, message_append,
    ← writeAt_attribute, length_setBeUint32]

end Members

/-! ## The attributes of a reply -/

/-- The bytes of some attributes. -/
def encode (attrs : List (ℕ × Bytes)) : Bytes := attrs.flatMap fun p => attrBytes p.1 p.2

/-- Where attributes stand from `ptr` on. -/
def placed (ptr : ℕ) : List (ℕ × Bytes) → List Attribute
  | [] => []
  | (t, v) :: rest => ⟨ptr, t, v.length⟩ :: placed (ptr + (4 + v.length)) rest

/-- An attribute that needs no padding and whose type and length fit their fields. -/
def Fits (p : ℕ × Bytes) : Prop := p.1 < 2 ^ 16 ∧ p.2.length < 128 ∧ p.2.length % 4 = 0

/-- The header of an attribute is read back. -/
theorem getBeUint16_attrBytes (front : Bytes) (ht : t < 2 ^ 16) (hlt : v.length < 128)
    (rest : Bytes) :
    getBeUint16 (front ++ (attrBytes t v ++ rest)) front.length = some t ∧
      getBeUint16 (front ++ (attrBytes t v ++ rest)) (front.length + 2) = some v.length := by
  have htype := getBeUint16_append front
    (setBeUint16 t ++ (setBeUint16 v.length ++ (v ++ rest))) 0
  have hlen := getBeUint16_append (front ++ setBeUint16 t)
    (setBeUint16 v.length ++ (v ++ rest)) 0
  rw [getBeUint16_setBeUint16, Nat.mod_eq_of_lt ht] at htype
  rw [getBeUint16_setBeUint16, Nat.mod_eq_of_lt (by omega), List.append_assoc,
    List.length_append] at hlen
  rw [attrBytes, List.append_assoc, List.append_assoc]
  exact ⟨htype, hlen⟩

theorem encode_cons (t : ℕ) (v : Bytes) (attrs : List (ℕ × Bytes)) :
    encode ((t, v) :: attrs) = attrBytes t v ++ encode attrs := List.flatMap_cons

theorem encode_append (xs ys : List (ℕ × Bytes)) : encode (xs ++ ys) = encode xs ++ encode ys :=
  List.flatMap_append

/-- The parser finds the attributes that were written. -/
theorem attributesFrom_encode (attrs : List (ℕ × Bytes)) (hfits : ∀ p ∈ attrs, Fits p)
    (front : Bytes) :
    attributesFrom (front ++ encode attrs) front.length = placed front.length attrs := by
  induction attrs generalizing front with
  | nil => rw [attributesFrom, if_neg (by simp [encode]), placed]
  | cons p ps ih =>
    obtain ⟨t, v⟩ := p
    obtain ⟨ht, hlt, hmod⟩ := hfits (t, v) List.mem_cons_self
    have hnext := ih (fun q hq => hfits q (List.mem_cons_of_mem _ hq)) (front ++ attrBytes t v)
    rw [List.append_assoc, List.length_append, length_attrBytes, ← encode_cons] at hnext
    obtain ⟨htype, hlen⟩ := getBeUint16_attrBytes front ht hlt (encode ps)
    rw [← encode_cons] at htype hlen
    have hinside : front.length < (front ++ encode ((t, v) :: ps)).length := by
      rw [encode_cons, List.length_append, List.length_append, length_attrBytes]
      omega
    rw [attributesFrom, if_pos hinside, htype, hlen]
    simp only [placed, List.cons.injEq, true_and]
    rw [Attribute.next, attributeHeaderSize, and_mask hlt hmod]
    exact hnext

/-- From `ptr` on, attributes follow one another, each behind the padded value of the one before,
up to exactly the end of the message. -/
inductive Filled (msg : Bytes) : ℕ → Prop
  | done : Filled msg msg.length
  | attr {a : Attribute} (htype : getBeUint16 msg a.offset = some a.attrType)
      (hlen : getBeUint16 msg (a.offset + 2) = some a.attrLen)
      (hin : a.offset + attributeHeaderSize + a.attrLen ≤ msg.length)
      (hrest : Filled msg a.next) : Filled msg a.offset

theorem filled_encode (attrs : List (ℕ × Bytes)) (hfits : ∀ p ∈ attrs, Fits p) (front : Bytes) :
    Filled (front ++ encode attrs) front.length := by
  induction attrs generalizing front with
  | nil =>
    have hnone : front ++ encode [] = front := List.append_nil front
    rw [hnone]
    exact .done
  | cons p ps ih =>
    obtain ⟨t, v⟩ := p
    obtain ⟨ht, hlt, hmod⟩ := hfits (t, v) List.mem_cons_self
    have hnext := ih (fun q hq => hfits q (List.mem_cons_of_mem _ hq)) (front ++ attrBytes t v)
    rw [List.append_assoc, List.length_append, length_attrBytes, ← encode_cons] at hnext
    obtain ⟨htype, hlen⟩ := getBeUint16_attrBytes front ht hlt (encode ps)
    rw [← encode_cons] at htype hlen
    refine Filled.attr (a := ⟨front.length, t, v.length⟩) htype hlen ?_ ?_
    · rw [encode_cons, List.length_append, List.length_append, length_attrBytes,
        attributeHeaderSize]
      show front.length + 4 + v.length ≤ _
      omega
    · rw [Attribute.next, attributeHeaderSize, and_mask hlt hmod]
      exact hnext

theorem placed_append (ptr : ℕ) (xs ys : List (ℕ × Bytes)) :
    placed ptr (xs ++ ys) = placed ptr xs ++ placed (ptr + (encode xs).length) ys := by
  induction xs generalizing ptr with
  | nil => rfl
  | cons p ps ih =>
    obtain ⟨t, v⟩ := p
    rw [List.cons_append, placed, placed, ih, encode_cons, List.length_append, length_attrBytes,
      List.cons_append, Nat.add_assoc ptr]

/-- The types of the attributes are those that were written. -/
theorem attrType_placed (ptr : ℕ) (attrs : List (ℕ × Bytes)) :
    (placed ptr attrs).map Attribute.attrType = attrs.map Prod.fst := by
  induction attrs generalizing ptr with
  | nil => rfl
  | cons p ps ih =>
    rw [placed, List.map_cons, List.map_cons, ih]

/-! ## The checks of the parser -/

/-- The message in front of an attribute. -/
theorem take_message (htrans : transId.length = 12) (more : Bytes) :
    (message transId len (body ++ more)).take (20 + body.length) = message transId len body := by
  have hlen : (message transId len body).length = 20 + body.length := length_message htrans
  rw [message_append, ← hlen]
  exact List.take_left

/-- The value of an attribute is read back. -/
theorem readBytes_message (htrans : transId.length = 12) (len : ℕ) (body : Bytes) (t : ℕ)
    (v more : Bytes) :
    readBytes (message transId len (body ++ (attrBytes t v ++ more)))
      (20 + body.length + attributeHeaderSize) v.length = some v := by
  have hsplit : message transId len (body ++ (attrBytes t v ++ more)) =
      (message transId len body ++ setBeUint16 t ++ setBeUint16 v.length) ++ (v ++ more) := by
    rw [message_append, attrBytes]
    simp only [List.append_assoc]
  have hfront : (message transId len body ++ setBeUint16 t ++ setBeUint16 v.length).length =
      20 + body.length + attributeHeaderSize := by
    rw [List.length_append, List.length_append, length_message htrans, attributeHeaderSize]
    rfl
  rw [readBytes_eq_some, hsplit, ← hfront]
  refine ⟨?_, ?_⟩
  · simp only [List.length_append]
    omega
  · rw [List.drop_left, List.take_left]

/-- The integrity check of the parser accepts the HMAC of the builder. -/
theorem parseMessageIntegrity_message (htrans : transId.length = 12)
    (hhmac : ∀ key data, (env.hmacSha1 key data).length = 20) (more : Bytes) {st : ParseState}
    (huser : st.userName ≠ []) :
    parseMessageIntegrity env (message transId len (body ++ (attrBytes MESSAGE_INTEGRITY
      (env.hmacSha1 st.conn.localPwd (message transId (body.length + 24) body)) ++ more)))
      ⟨20 + body.length, MESSAGE_INTEGRITY, 20⟩ st = .ok st := by
  have hread := readBytes_message htrans len body MESSAGE_INTEGRITY
    (env.hmacSha1 st.conn.localPwd (message transId (body.length + 24) body)) more
  rw [hhmac] at hread
  have hsize : 20 + body.length + attributeHeaderSize + 20 - stunMsgHeaderSize =
      body.length + 24 := by
    rw [attributeHeaderSize, stunMsgHeaderSize]
    omega
  have hinput : integrityInput (message transId len (body ++ (attrBytes MESSAGE_INTEGRITY
      (env.hmacSha1 st.conn.localPwd (message transId (body.length + 24) body)) ++ more)))
      ⟨20 + body.length, MESSAGE_INTEGRITY, 20⟩ = message transId (body.length + 24) body := by
    rw [integrityInput, take_message htrans, hsize, writeAt_length]
  simp only [parseMessageIntegrity, bind_eq_ok, inBounds, orReject_eq_ok, failIf_eq_ok, not_not]
  refine ⟨⟨⟩, trivial, ⟨⟩, huser, _, hread, ⟨⟩, ?_, rfl⟩
  rw [hinput]

/-- The fingerprint check of the parser accepts the CRC of the builder. -/
theorem parseFingerprint_message (htrans : transId.length = 12) (more : Bytes) {st : ParseState} :
    parseFingerprint (message transId len (body ++ (attrBytes FINGERPRINT
      (setBeUint32 (crc32Xor (message transId len body)).toNat) ++ more)))
      ⟨20 + body.length, FINGERPRINT, 4⟩ st = .ok st := by
  obtain ⟨crc, hcrc⟩ : ∃ crc, crc = crc32Xor (message transId len body) := ⟨_, rfl⟩
  have hsplit : message transId len (body ++ (attrBytes FINGERPRINT (setBeUint32 crc.toNat) ++
      more)) = (message transId len body ++ setBeUint16 FINGERPRINT ++ setBeUint16 4) ++
        (setBeUint32 crc.toNat ++ more) := by
    rw [message_append, attrBytes]
    simp only [List.append_assoc]
    rfl
  have hfront : (message transId len body ++ setBeUint16 FINGERPRINT ++ setBeUint16 4).length =
      20 + body.length + attributeHeaderSize := by
    rw [List.length_append, List.length_append, length_message htrans, attributeHeaderSize]
    rfl
  have hread : getBeUint32 (message transId len (body ++ (attrBytes FINGERPRINT
      (setBeUint32 crc.toNat) ++ more))) (20 + body.length + attributeHeaderSize) =
        some crc.toNat := by
    have happend := getBeUint32_append
      (message transId len body ++ setBeUint16 FINGERPRINT ++ setBeUint16 4)
      (setBeUint32 crc.toNat ++ more) 0
    rw [getBeUint32_setBeUint32, Nat.mod_eq_of_lt crc.toNat_lt, Nat.add_zero, hfront,
      ← hsplit] at happend
    exact happend
  rw [← hcrc]
  simp only [parseFingerprint, bind_eq_ok, inBounds, orReject_eq_ok, failIf_eq_ok, not_not]
  refine ⟨⟨⟩, trivial, _, hread, ⟨⟩, ?_, rfl⟩
  rw [take_message htrans, ← hcrc]

/-! ## The reply -/

/-- What a reply has to meet: the length in its header is that of its attributes, they fill it
exactly, and it passes the integrity check with the password `pwd` and the fingerprint check, each
made wherever the parser makes it. The integrity check is made if there is a password. -/
structure Verifies (env : StunEnv) (pwd reply : Bytes) : Prop where
  size : ∃ n, getBeUint16 reply 2 = some n ∧ reply.length = n + stunMsgHeaderSize
  filled : Filled reply stunMsgHeaderSize
  integrity : ∀ a ∈ attributes reply, a.attrType = MESSAGE_INTEGRITY → ∀ st : ParseState,
    st.userName ≠ [] → st.conn.localPwd = pwd → parseMessageIntegrity env reply a st = .ok st
  fingerprint : ∀ a ∈ attributes reply, a.attrType = FINGERPRINT → ∀ st : ParseState,
    parseFingerprint reply a st = .ok st
  integrityMade : pwd ≠ [] → ∃ a ∈ attributes reply, a.attrType = MESSAGE_INTEGRITY
  fingerprintMade : ∃ a ∈ attributes reply, a.attrType = FINGERPRINT

theorem message_eq_append : message transId len body = message transId len [] ++ body := by
  rw [← message_append, List.nil_append]

/-- The attributes of a reply. -/
theorem attributes_message (htrans : transId.length = 12) {attrs : List (ℕ × Bytes)}
    (hfits : ∀ p ∈ attrs, Fits p) :
    attributes (message transId len (encode attrs)) = placed stunMsgHeaderSize attrs := by
  have h20 : (message transId len []).length = stunMsgHeaderSize := length_message htrans
  rw [attributes, message_eq_append, ← h20]
  exact attributesFrom_encode attrs hfits _

/-- An attribute of the wanted type stands behind others that are of another type. -/
theorem eq_of_mem_placed {ptr : ℕ} {xs ys : List (ℕ × Bytes)} {a : Attribute}
    (hxs : ∀ p ∈ xs, p.1 ≠ t) (hys : ∀ p ∈ ys, p.1 ≠ t)
    (hmem : a ∈ placed ptr (xs ++ (t, v) :: ys)) (ha : a.attrType = t) :
    a = ⟨ptr + (encode xs).length, t, v.length⟩ := by
  have hother : ∀ ptr zs, (∀ p ∈ zs, p.1 ≠ t) → a ∉ placed ptr zs := by
    intro ptr zs hzs hmem
    have htype : a.attrType ∈ zs.map Prod.fst := by
      rw [← attrType_placed ptr]
      exact List.mem_map_of_mem hmem
    obtain ⟨p, hp, heq⟩ := List.mem_map.mp htype
    exact hzs p hp (heq.trans ha)
  rw [placed_append, placed, List.mem_append, List.mem_cons] at hmem
  rcases hmem with hmem | rfl | hmem
  · exact absurd hmem (hother _ xs hxs)
  · rfl
  · exact absurd hmem (hother _ ys hys)

/-- A finished message verifies: attributes of other types, the integrity of what is in front of
it if there is a password, and the fingerprint of all that. -/
theorem verifies_message (htrans : transId.length = 12)
    (hhmac : ∀ key data, (env.hmacSha1 key data).length = 20) {base mi : List (ℕ × Bytes)}
    {pwd : Bytes}
    (hbase : ∀ p ∈ base, Fits p ∧ p.1 ≠ MESSAGE_INTEGRITY ∧ p.1 ≠ FINGERPRINT)
    (hmi : mi = if pwd = [] then [] else [(MESSAGE_INTEGRITY,
      env.hmacSha1 pwd (message transId ((encode base).length + 24) (encode base)))])
    (hlen : len = (encode (base ++ mi)).length + 8) (hlt : len < 2 ^ 16) :
    Verifies env pwd (message transId len (encode (base ++ mi) ++ attrBytes FINGERPRINT
      (setBeUint32 (crc32Xor (message transId len (encode (base ++ mi)))).toNat))) := by
  obtain ⟨crc, hcrc⟩ : ∃ crc, crc = setBeUint32 (crc32Xor (message transId len
    (encode (base ++ mi)))).toNat := ⟨_, rfl⟩
  have hcrclen : crc.length = 4 := by
    rw [hcrc]
    rfl
  have hmiFits : ∀ p ∈ mi, Fits p ∧ p.1 = MESSAGE_INTEGRITY := by
    intro p hp
    rw [hmi] at hp
    split at hp
    · exact absurd hp List.not_mem_nil
    · rw [List.mem_singleton.mp hp]
      have htype : MESSAGE_INTEGRITY < 2 ^ 16 := by decide
      refine ⟨⟨htype, ?_, ?_⟩, rfl⟩
      · rw [hhmac]
        decide
      · rw [hhmac]
  have hfits : ∀ p ∈ base ++ mi ++ [(FINGERPRINT, crc)], Fits p := by
    intro p hp
    rcases List.mem_append.mp hp with hp | hp
    · rcases List.mem_append.mp hp with hp | hp
      · exact (hbase p hp).1
      · exact (hmiFits p hp).1
    · rw [List.mem_singleton.mp hp]
      have htype : FINGERPRINT < 2 ^ 16 := by decide
      refine ⟨htype, ?_, ?_⟩
      · rw [hcrclen]
        decide
      · rw [hcrclen]
  have hencode : encode (base ++ mi) ++ attrBytes FINGERPRINT crc =
      encode (base ++ mi ++ [(FINGERPRINT, crc)]) := by
    rw [encode_append (base ++ mi), encode_cons]
    simp [encode]
  have hne : FINGERPRINT ≠ MESSAGE_INTEGRITY := by decide
  have hattrs : attributes (message transId len (encode (base ++ mi ++ [(FINGERPRINT, crc)]))) =
      placed stunMsgHeaderSize (base ++ mi ++ [(FINGERPRINT, crc)]) :=
    attributes_message htrans hfits
  rw [← hcrc, hencode]
  refine ⟨⟨len, getBeUint16_message hlt, ?_⟩, ?_, ?_, ?_, ?_, ?_⟩
  · rw [length_message htrans, ← hencode, List.length_append, length_attrBytes, hcrclen, hlen,
      stunMsgHeaderSize]
    omega
  · have h20 : (message transId len []).length = stunMsgHeaderSize := length_message htrans
    rw [message_eq_append, ← h20]
    exact filled_encode _ hfits _
  · intro a ha htype st huser hpwd
    rw [hattrs] at ha
    -- the only integrity attribute stands behind the base attributes
    by_cases hnil : pwd = []
    · rw [if_pos hnil] at hmi
      have hmem : a.attrType ∈ (base ++ mi ++ [(FINGERPRINT, crc)]).map Prod.fst := by
        rw [← attrType_placed stunMsgHeaderSize]
        exact List.mem_map_of_mem ha
      rw [hmi, List.append_nil, List.map_append, List.mem_append, htype] at hmem
      rcases hmem with hmem | hmem
      · obtain ⟨p, hp, heq⟩ := List.mem_map.mp hmem
        exact absurd heq (hbase p hp).2.1
      · exact absurd (List.mem_singleton.mp hmem) hne.symm
    · rw [if_neg hnil] at hmi
      rw [hmi, List.append_assoc, List.singleton_append] at ha
      have ha' := eq_of_mem_placed (fun p hp => (hbase p hp).2.1)
        (fun p hp => by rwa [List.mem_singleton.mp hp]) ha htype
      rw [hhmac] at ha'
      have hbody : encode (base ++ mi ++ [(FINGERPRINT, crc)]) =
          encode base ++ (attrBytes MESSAGE_INTEGRITY (env.hmacSha1 st.conn.localPwd
            (message transId ((encode base).length + 24) (encode base))) ++
              encode [(FINGERPRINT, crc)]) := by
        rw [hmi, encode_append, encode_append, encode_cons, hpwd, List.append_assoc]
        simp [encode]
      rw [ha', hbody]
      exact parseMessageIntegrity_message htrans hhmac _ huser
  · intro a ha htype st
    rw [hattrs] at ha
    have hother : ∀ p ∈ base ++ mi, p.1 ≠ FINGERPRINT := by
      intro p hp
      rcases List.mem_append.mp hp with hp | hp
      · exact (hbase p hp).2.2
      · rw [(hmiFits p hp).2]
        decide
    have ha' := eq_of_mem_placed hother (fun p hp => absurd hp List.not_mem_nil) ha htype
    rw [hcrclen] at ha'
    have hbody : encode (base ++ mi ++ [(FINGERPRINT, crc)]) =
        encode (base ++ mi) ++ (attrBytes FINGERPRINT crc ++ []) := by
      rw [← hencode, List.append_nil]
    rw [ha', hbody, hcrc]
    exact parseFingerprint_message htrans []
  · intro hpwd
    rw [if_neg hpwd] at hmi
    rw [hattrs, hmi, List.append_assoc, placed_append]
    exact ⟨_, List.mem_append_right _ List.mem_cons_self, rfl⟩
  · rw [hattrs, placed_append]
    exact ⟨_, List.mem_append_right _ List.mem_cons_self, rfl⟩

/-- The attributes of a reply in front of the integrity check. -/
def baseAttrs (transId : Bytes) (sockaddr : SockaddrStorage) (ice : Bool) : List (ℕ × Bytes) :=
  (XOR_MAPPED_ADDRESS, mappedValue transId sockaddr.port sockaddr.carried) ::
    if ice then [(ICE_CONTROLLED, List.replicate 8 0)] else []

theorem fits_baseAttrs (htrans : transId.length = 12) (sockaddr : SockaddrStorage) (ice : Bool) :
    ∀ p ∈ baseAttrs transId sockaddr ice,
      Fits p ∧ p.1 ≠ MESSAGE_INTEGRITY ∧ p.1 ≠ FINGERPRINT := by
  intro p hp
  rw [baseAttrs, List.mem_cons] at hp
  rcases hp with rfl | hp
  · have hcarried := length_carried sockaddr
    have hlen := length_mappedValue htrans sockaddr.port
      (show sockaddr.carried.length ≤ 16 by omega)
    have hinteg : XOR_MAPPED_ADDRESS ≠ MESSAGE_INTEGRITY := by decide
    have hfinger : XOR_MAPPED_ADDRESS ≠ FINGERPRINT := by decide
    refine ⟨⟨by show XOR_MAPPED_ADDRESS < 2 ^ 16; decide, ?_, ?_⟩, hinteg, hfinger⟩
    · show (mappedValue transId sockaddr.port sockaddr.carried).length < 128
      omega
    · show (mappedValue transId sockaddr.port sockaddr.carried).length % 4 = 0
      omega
  · split at hp
    · rw [List.mem_singleton.mp hp]
      exact ⟨⟨by show ICE_CONTROLLED < 2 ^ 16; decide, by decide, by decide⟩, by decide, by decide⟩
    · exact absurd hp List.not_mem_nil

theorem length_encode_baseAttrs (htrans : transId.length = 12) (sockaddr : SockaddrStorage)
    (ice : Bool) : (encode (baseAttrs transId sockaddr ice)).length ≤ 36 ∧
      (encode (baseAttrs transId sockaddr ice)).length % 4 = 0 := by
  have hcarried := length_carried sockaddr
  have hlen := length_mappedValue htrans sockaddr.port
    (show sockaddr.carried.length ≤ 16 by omega)
  have hice : (encode (if ice then [(ICE_CONTROLLED, List.replicate 8 0)] else [])).length = 0 ∨
      (encode (if ice then [(ICE_CONTROLLED, List.replicate 8 0)] else [])).length = 12 := by
    split
    · exact Or.inr rfl
    · exact Or.inl rfl
  rw [baseAttrs, encode_cons, List.length_append, length_attrBytes]
  omega

/-- The builder after the address, and the role if the sender has one, is written. -/
theorem base_message (htrans : transId.length = 12) (sockaddr : SockaddrStorage) (ice : Bool) :
    (if ice then addIceControlled (addXorMappedAddress (message transId 0 []) sockaddr)
      else addXorMappedAddress (message transId 0 []) sockaddr) =
        message transId 0 (encode (baseAttrs transId sockaddr ice)) := by
  have hnil : 20 + ([] : Bytes).length < 128 := by decide
  have haddr := addXorMappedAddress_eq htrans hnil rfl 0 sockaddr
  rw [List.nil_append] at haddr
  rw [baseAttrs, encode_cons]
  cases ice with
  | false => rw [if_neg (by decide), if_neg (by decide), haddr, encode, List.flatMap_nil,
      List.append_nil]
  | true =>
    have hcarried := length_carried sockaddr
    have hlen := length_mappedValue htrans sockaddr.port
      (show sockaddr.carried.length ≤ 16 by omega)
    have hattr := length_attrBytes XOR_MAPPED_ADDRESS
      (mappedValue transId sockaddr.port sockaddr.carried)
    have hshort : 20 + (attrBytes XOR_MAPPED_ADDRESS
        (mappedValue transId sockaddr.port sockaddr.carried)).length < 128 := by omega
    have hice := addIceControlled_eq htrans hshort (by omega) 0
    rw [if_pos rfl, if_pos rfl, haddr, hice, encode, List.flatMap_singleton]

/-- The integrity attribute of a reply, if there is a password. -/
def integrityAttrs (env : StunEnv) (pwd transId : Bytes) (base : List (ℕ × Bytes)) :
    List (ℕ × Bytes) :=
  if pwd = [] then [] else [(MESSAGE_INTEGRITY,
    env.hmacSha1 pwd (message transId ((encode base).length + 24) (encode base)))]

theorem length_encode_integrityAttrs (hhmac : ∀ key data, (env.hmacSha1 key data).length = 20)
    (pwd transId : Bytes) (base : List (ℕ × Bytes)) :
    (encode (integrityAttrs env pwd transId base)).length = 0 ∨
      (encode (integrityAttrs env pwd transId base)).length = 24 := by
  rw [integrityAttrs]
  split
  · exact Or.inl rfl
  · right
    rw [encode_cons, List.length_append, length_attrBytes, hhmac]
    rfl

/-- The builder after the integrity check is written, if there is a password. -/
theorem integrity_message (htrans : transId.length = 12)
    (hhmac : ∀ key data, (env.hmacSha1 key data).length = 20) {base : List (ℕ × Bytes)}
    (hshort : 20 + (encode base).length < 128) (hmod : (encode base).length % 4 = 0)
    (pwd : Bytes) :
    ∃ l, (if pwd = [] then message transId 0 (encode base)
      else addMessageIntegrity env (message transId 0 (encode base)) pwd) =
        message transId l (encode (base ++ integrityAttrs env pwd transId base)) := by
  rw [integrityAttrs]
  by_cases hnil : pwd = []
  · rw [if_pos hnil, if_pos hnil, List.append_nil]
    exact ⟨0, rfl⟩
  · rw [if_neg hnil, if_neg hnil, addMessageIntegrity_eq htrans hshort hmod pwd hhmac,
      encode_append, encode_cons]
    refine ⟨(encode base).length + 24, ?_⟩
    simp only [encode, List.flatMap_nil, List.append_nil]

/-- The attributes of the reply to the transaction `transId` in front of the fingerprint. -/
def checkedAttrs (env : StunEnv) (stun : StunMsg) (transId : Bytes) (sockaddr : SockaddrStorage) :
    List (ℕ × Bytes) :=
  baseAttrs transId sockaddr stun.hasIceControlling ++ integrityAttrs env stun.localPwd transId
    (baseAttrs transId sockaddr stun.hasIceControlling)

theorem length_encode_checkedAttrs (htrans : transId.length = 12)
    (hhmac : ∀ key data, (env.hmacSha1 key data).length = 20) (stun : StunMsg)
    (sockaddr : SockaddrStorage) :
    (encode (checkedAttrs env stun transId sockaddr)).length ≤ 60 ∧
      (encode (checkedAttrs env stun transId sockaddr)).length % 4 = 0 := by
  obtain ⟨hbase, hmod⟩ := length_encode_baseAttrs htrans sockaddr stun.hasIceControlling
  have hmi := length_encode_integrityAttrs hhmac stun.localPwd transId
    (baseAttrs transId sockaddr stun.hasIceControlling)
  rw [checkedAttrs, encode_append, List.length_append]
  omega

/-- The reply to a binding request: the attributes, and the fingerprint of all in front of it. -/
theorem createStunReply_eq (stun : StunMsg)
    (hhmac : ∀ key data, (env.hmacSha1 key data).length = 20)
    (hrequest : stun.methodClass = requestClass) (hmethod : stun.method = binding)
    (htrans : transId.length = 12) (hread : readBytes msg 8 12 = some transId)
    (sockaddr : SockaddrStorage) :
    createStunReply env stun msg sockaddr = some (message transId
      ((encode (checkedAttrs env stun transId sockaddr)).length + 8)
        (encode (checkedAttrs env stun transId sockaddr) ++ attrBytes FINGERPRINT
          (setBeUint32 (crc32Xor (message transId
            ((encode (checkedAttrs env stun transId sockaddr)).length + 8)
              (encode (checkedAttrs env stun transId sockaddr)))).toNat))) := by
  obtain ⟨hshort, hmod⟩ := length_encode_baseAttrs htrans sockaddr stun.hasIceControlling
  obtain ⟨l, hintegrity⟩ := integrity_message htrans hhmac (by omega) hmod stun.localPwd
  obtain ⟨hshort', hmod'⟩ := length_encode_checkedAttrs htrans hhmac stun sockaddr
  have hfinger := addFingerprint_eq htrans (show 20 + _ < 128 by omega) hmod' l
  rw [createStunReply, if_pos ⟨hrequest, hmethod⟩, hread]
  simp only [Option.bind_eq_bind, Option.bind_some]
  rw [newMessage_eq htrans, base_message htrans, hintegrity, ← checkedAttrs, hfinger]
  rfl

theorem length_of_readBytes {i n : ℕ} {bs : Bytes} (h : readBytes msg i n = some bs) :
    bs.length = n := by
  obtain ⟨hin, hbs⟩ := readBytes_eq_some.mp h
  rw [← hbs, List.length_take, List.length_drop]
  omega

variable {s : StunMsg}

/-- An accepted message has a whole header. -/
theorem length_of_accepted (h : parseStunMsg env msg = .ok s) : 20 ≤ msg.length := by
  unfold parseStunMsg at h
  simp only [bind_eq_ok, failIf_eq_ok] at h
  obtain ⟨-, hlen, -⟩ := h
  omega

/-- An accepted message is a binding message. -/
theorem method_of_accepted (h : parseStunMsg env msg = .ok s) : s.method = binding := by
  unfold parseStunMsg at h
  simp only [bind_eq_ok, failIf_eq_ok, not_not] at h
  obtain ⟨-, -, first, -, -, -, cookie, -, -, -, msgSize, -, -, -, mth, -, -, hmethod, st, -, h⟩ :=
    h
  rw [← Except.ok.inj h]
  exact List.mem_singleton.mp hmethod

/-- For every accepted binding request, sender and local password the reply verifies. -/
theorem createStunReply_verifies (hhmac : ∀ key data, (env.hmacSha1 key data).length = 20)
    (hparse : parseStunMsg env msg = .ok s) (hrequest : s.methodClass = requestClass)
    (sockaddr : SockaddrStorage) (pwd : Bytes) :
    ∃ reply, createStunReply env { s with localPwd := pwd } msg sockaddr = some reply ∧
      Verifies env pwd reply := by
  have hlen := length_of_accepted hparse
  obtain ⟨transId, hread⟩ : ∃ v, readBytes msg 8 12 = some v :=
    Option.isSome_iff_exists.mp (isSome_readBytes (by omega))
  have htrans : transId.length = 12 := length_of_readBytes hread
  have hmethod : s.method = binding := method_of_accepted hparse
  have hreply := createStunReply_eq { s with localPwd := pwd } hhmac hrequest hmethod htrans hread
    sockaddr
  have hshort := (length_encode_checkedAttrs htrans hhmac { s with localPwd := pwd } sockaddr).1
  have hbase := fits_baseAttrs htrans sockaddr s.hasIceControlling
  refine ⟨_, hreply, ?_⟩
  exact verifies_message htrans hhmac hbase rfl rfl (by
    show (encode (checkedAttrs env { s with localPwd := pwd } transId sockaddr)).length + 8 < 2 ^ 16
    omega)

/-! ## A reply -/

/-- The reply to a binding request of a known user at an IPv4 address, with the password "p". -/
theorem createStunReply_verifies_usernameOnly :
    ∃ reply, createStunReply exampleEnv { exampleSummary with localPwd := [112] } usernameOnly
      (.inet 5000 ⟨[127, 0, 0, 1], rfl⟩) = some reply ∧ Verifies exampleEnv [112] reply := by
  have hhmac : ∀ key data, (exampleEnv.hmacSha1 key data).length = 20 := by
    intro key data
    simp [exampleEnv]
    omega
  have hparse : parseStunMsg exampleEnv usernameOnly = .ok exampleSummary := by decide +kernel
  exact createStunReply_verifies hhmac hparse rfl (.inet 5000 ⟨[127, 0, 0, 1], rfl⟩) [112]

end Anon.Stun
