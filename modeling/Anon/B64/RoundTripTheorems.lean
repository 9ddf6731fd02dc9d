import Anon.B64.Codec

/-!
# The round trip of Base64

What `decode` makes of the output of `encode`. The size that the decoder computes for the last two
or three characters is one more than the bytes that it reads from them.

* `Inverse`: the index is the place in the alphabet.
* `decode_encode_of_fits`: the data comes back, with a NUL behind it if its last block is short.
* `decode_encode_iff`: the data comes back as it was exactly if all its blocks are full and the
  size of the code is an `int`.
-/

namespace Anon.B64

/-- `index` finds the place of each character of the alphabet. -/
structure Inverse (alphabet : Bytes) (index : UInt8 → Except Failure UInt8) : Prop where
  length : alphabet.length = 64
  index_getD : ∀ i < 64, index (alphabet.getD i 0) = .ok (UInt8.ofNat i)

theorem inverse_raw : Inverse rawAlphabet b64Index where
  length := by decide +kernel
  index_getD := by decide +kernel

theorem inverse_url : Inverse urlAlphabet b64urlIndex where
  length := by decide +kernel
  index_getD := by decide +kernel

/-! ## Sizes -/

theorem toInt_eq {size : ℕ} (h : size < 2 ^ 31) : toInt size = size := by
  apply Int.bmod_eq_of_le
  · omega
  · omega

theorem toInt_lt (size : ℕ) : toInt size < 2 ^ 31 := by
  have hlt : Int.bmod size (2 ^ 32) < (((2 ^ 32 : ℕ) : ℤ) + 1) / 2 := Int.bmod_lt (by omega)
  have hhalf : (((2 ^ 32 : ℕ) : ℤ) + 1) / 2 = 2 ^ 31 := by norm_num
  rw [hhalf] at hlt
  exact hlt

theorem toInt_le (size : ℕ) : toInt size ≤ size := by
  unfold toInt
  rw [Int.bmod_eq_emod, ← Int.natCast_emod]
  have hle := Nat.mod_le size (2 ^ 32)
  split
  · omega
  · omega

/-- The container has the size that was asked for. -/
theorem fill_eq_ok {size : ℤ} {written r : Bytes} (h : fill size written = .ok r) :
    (r.length : ℤ) = size := by
  unfold fill at h
  split_ifs at h with hneg hlong
  rw [← Except.ok.inj h, List.length_append, List.length_replicate]
  omega

/-- What fills the container is what it holds. -/
theorem fill_self (written : Bytes) : fill written.length written = .ok written := by
  unfold fill
  rw [if_neg (by omega), if_neg (by omega), Int.toNat_natCast, Nat.sub_self, List.replicate_zero,
    List.append_nil]

/-- With room for one more byte there is a NUL behind it. -/
theorem fill_succ (written : Bytes) :
    fill (written.length + 1) written = .ok (written ++ [0]) := by
  have hsize : ((written.length : ℤ) + 1).toNat - written.length = 1 := by omega
  unfold fill
  rw [if_neg (by omega), if_neg (by omega), hsize]
  rfl

/-! ## The encoder -/

variable {alphabet : Bytes} {pad : UInt8} {index : UInt8 → Except Failure UInt8}

theorem and_63 (n : ℕ) : n &&& 0x3f = n % 64 := Nat.and_two_pow_sub_one_eq_mod n 6

/-- What the encoder writes if the number of blocks is an `int`. -/
def encoded (alphabet : Bytes) (pad : UInt8) (data : Bytes) : Bytes :=
  encodeFrom alphabet pad (data.length / 3) data

/-- The length of the code. -/
def codeLength (pad : UInt8) (len : ℕ) : ℕ :=
  if pad ≠ 0 then (len + 2) / 3 * 4 else len / 3 * 4 + if len % 3 ≠ 0 then len % 3 + 1 else 0

/-- The number of pad characters at the end of the code. -/
def padding (pad : UInt8) (len : ℕ) : ℕ := if pad = 0 then 0 else (3 - len % 3) % 3

theorem encodedSize_eq (len : ℕ) : encodedSize pad len = toInt (codeLength pad len) := by
  unfold encodedSize codeLength
  split
  · rfl
  · rfl

theorem encoded_cons (b₀ b₁ b₂ : UInt8) (rest : Bytes) :
    encoded alphabet pad (b₀ :: b₁ :: b₂ :: rest) =
      encodeBlock alphabet b₀ b₁ b₂ ++ encoded alphabet pad rest := by
  have hblocks : (b₀ :: b₁ :: b₂ :: rest).length / 3 = rest.length / 3 + 1 := by
    show (rest.length + 3) / 3 = _
    omega
  unfold encoded
  rw [hblocks]
  rfl

@[simp] theorem encoded_nil : encoded alphabet pad [] = [] := by
  simp [encoded, encodeFrom, encodeTail]

theorem encoded_one (b₀ : UInt8) : encoded alphabet 0 [b₀] =
    [sextet alphabet (b₀.toNat >>> 2), sextet alphabet (b₀.toNat <<< 4)] := by
  simp [encoded, encodeFrom, encodeTail]

theorem encoded_two (b₀ b₁ : UInt8) : encoded alphabet 0 [b₀, b₁] =
    [sextet alphabet (b₀.toNat >>> 2), sextet alphabet ((b₀.toNat <<< 4) + (b₁.toNat >>> 4)),
      sextet alphabet (b₁.toNat <<< 2)] := by
  simp [encoded, encodeFrom, encodeTail]

theorem codeLength_zero (len : ℕ) :
    codeLength 0 len = len / 3 * 4 + if len % 3 = 0 then 0 else len % 3 + 1 := by
  simp [codeLength]

theorem sextet_mem (h : alphabet.length = 64) (n : ℕ) : sextet alphabet n ∈ alphabet := by
  have hlt : n &&& 0x3f < alphabet.length := by
    rw [and_63, h]
    exact Nat.mod_lt n (by omega)
  unfold sextet
  rw [List.getD_eq_getElem _ _ hlt]
  exact List.getElem_mem hlt

/-- Every character without a pad is one of the alphabet. -/
theorem mem_encoded (h : alphabet.length = 64) :
    ∀ {data : Bytes}, ∀ c ∈ encoded alphabet 0 data, c ∈ alphabet
  | [], c, hc => by
    rw [encoded_nil] at hc
    exact absurd hc List.not_mem_nil
  | [b₀], c, hc => by
    rw [encoded_one, List.mem_cons, List.mem_singleton] at hc
    rcases hc with rfl | rfl
    · exact sextet_mem h _
    · exact sextet_mem h _
  | [b₀, b₁], c, hc => by
    rw [encoded_two, List.mem_cons, List.mem_cons, List.mem_singleton] at hc
    rcases hc with rfl | rfl | rfl
    · exact sextet_mem h _
    · exact sextet_mem h _
    · exact sextet_mem h _
  | b₀ :: b₁ :: b₂ :: rest, c, hc => by
    rw [encoded_cons, List.mem_append] at hc
    rcases hc with hblock | hrest
    · rw [encodeBlock, List.mem_cons, List.mem_cons, List.mem_cons, List.mem_singleton] at hblock
      rcases hblock with rfl | rfl | rfl | rfl
      · exact sextet_mem h _
      · exact sextet_mem h _
      · exact sextet_mem h _
      · exact sextet_mem h _
    · exact mem_encoded h c hrest

/-- The pad characters stand behind the code. -/
theorem encoded_eq_append : ∀ data : Bytes, encoded alphabet pad data =
    encoded alphabet 0 data ++ List.replicate (padding pad data.length) pad
  | [] => by simp [padding]
  | [b₀] => by
    by_cases hpad : pad = 0
    · simp [padding, hpad]
    · simp [encoded, encodeFrom, encodeTail, padding, hpad]
  | [b₀, b₁] => by
    by_cases hpad : pad = 0
    · simp [padding, hpad]
    · simp [encoded, encodeFrom, encodeTail, padding, hpad]
  | b₀ :: b₁ :: b₂ :: rest => by
    have hpadding : padding pad (b₀ :: b₁ :: b₂ :: rest).length = padding pad rest.length := by
      show padding pad (rest.length + 3) = _
      unfold padding
      rw [Nat.add_mod_right]
    rw [encoded_cons, encoded_cons, encoded_eq_append rest, hpadding, List.append_assoc]

theorem length_encoded_zero : ∀ data : Bytes,
    (encoded alphabet 0 data).length = codeLength 0 data.length
  | [] => by
    rw [encoded_nil]
    rfl
  | [b₀] => by simp [encoded_one, codeLength_zero]
  | [b₀, b₁] => by simp [encoded_two, codeLength_zero]
  | b₀ :: b₁ :: b₂ :: rest => by
    have ih := length_encoded_zero rest
    have hcode : codeLength 0 (rest.length + 3) = codeLength 0 rest.length + 4 := by
      rw [codeLength_zero, codeLength_zero, Nat.add_mod_right]
      omega
    rw [encoded_cons, List.length_append, ih]
    show 4 + _ = codeLength 0 (rest.length + 3)
    omega

theorem codeLength_eq_add (pad : UInt8) (len : ℕ) :
    codeLength pad len = codeLength 0 len + padding pad len := by
  unfold codeLength padding
  by_cases hpad : pad = 0
  · simp [hpad]
  · rw [if_pos hpad, if_neg hpad, if_neg (by simp)]
    split
    · omega
    · omega

theorem length_encoded (data : Bytes) :
    (encoded alphabet pad data).length = codeLength pad data.length := by
  rw [encoded_eq_append, List.length_append, List.length_replicate, length_encoded_zero,
    ← codeLength_eq_add]

/-- The code, if its length is an `int`. -/
theorem encode_eq {data : Bytes} (hfits : codeLength pad data.length < 2 ^ 31) :
    encode alphabet pad data = .ok (encoded alphabet pad data) := by
  have hblocks : data.length / 3 < 2 ^ 31 := by
    have hle : data.length / 3 ≤ codeLength 0 data.length := by
      rw [codeLength_zero]
      omega
    have hadd := codeLength_eq_add pad data.length
    omega
  unfold encode
  rw [encodedSize_eq, toInt_eq hfits, toInt_eq hblocks, Int.toNat_natCast, ← length_encoded]
  exact fill_self _

/-! ## The decoder on a code -/

/-- The index undoes the alphabet. -/
theorem Inverse.index_sextet (h : Inverse alphabet index) (n : ℕ) :
    index (sextet alphabet n) = .ok (UInt8.ofNat (n % 64)) := by
  unfold sextet
  rw [and_63]
  exact h.index_getD (n % 64) (Nat.mod_lt n (by omega))

theorem toNat_ofNat_mod (n : ℕ) : (UInt8.ofNat (n % 64)).toNat = n % 64 := by
  rw [UInt8.toNat_ofNat']
  omega

/-- The first two characters of a block give back its first byte. -/
theorem first_byte (b₀ b₁ : UInt8) :
    UInt8.ofNat (((b₀.toNat >>> 2) % 64) <<< 2 +
      (((b₀.toNat <<< 4) + (b₁.toNat >>> 4)) % 64) >>> 4) = b₀ := by
  have h₀ := b₀.toNat_lt
  have h₁ := b₁.toNat_lt
  apply UInt8.toNat_inj.mp
  rw [UInt8.toNat_ofNat']
  simp only [Nat.shiftLeft_eq, Nat.shiftRight_eq_div_pow]
  omega

/-- Without a second byte its place is zero. -/
theorem first_byte_alone (b₀ : UInt8) :
    UInt8.ofNat (((b₀.toNat >>> 2) % 64) <<< 2 + ((b₀.toNat <<< 4) % 64) >>> 4) = b₀ :=
  first_byte b₀ 0

theorem second_byte (b₀ b₁ b₂ : UInt8) :
    UInt8.ofNat ((((b₀.toNat <<< 4) + (b₁.toNat >>> 4)) % 64) <<< 4 +
      (((b₁.toNat <<< 2) + (b₂.toNat >>> 6)) % 64) >>> 2) = b₁ := by
  have h₀ := b₀.toNat_lt
  have h₁ := b₁.toNat_lt
  have h₂ := b₂.toNat_lt
  apply UInt8.toNat_inj.mp
  rw [UInt8.toNat_ofNat']
  simp only [Nat.shiftLeft_eq, Nat.shiftRight_eq_div_pow]
  omega

theorem second_byte_last (b₀ b₁ : UInt8) :
    UInt8.ofNat ((((b₀.toNat <<< 4) + (b₁.toNat >>> 4)) % 64) <<< 4 +
      ((b₁.toNat <<< 2) % 64) >>> 2) = b₁ :=
  second_byte b₀ b₁ 0

theorem third_byte (b₁ b₂ : UInt8) :
    UInt8.ofNat ((((b₁.toNat <<< 2) + (b₂.toNat >>> 6)) % 64) <<< 6 + b₂.toNat % 64) = b₂ := by
  have h₁ := b₁.toNat_lt
  have h₂ := b₂.toNat_lt
  apply UInt8.toNat_inj.mp
  rw [UInt8.toNat_ofNat']
  simp only [Nat.shiftLeft_eq, Nat.shiftRight_eq_div_pow]
  omega

/-- The loop of the decoder gives back the bytes, from a code without pads. -/
theorem Inverse.decodeFrom_encoded (h : Inverse alphabet index) : ∀ data : Bytes,
    decodeFrom index (data.length / 3) (encoded alphabet 0 data) = .ok data
  | [] => by
    rw [encoded_nil]
    rfl
  | [b₀] => by
    have hblocks : [b₀].length / 3 = 0 := Nat.div_eq_of_lt (by simp)
    rw [encoded_one, hblocks, decodeFrom, decodeTail, h.index_sextet, h.index_sextet]
    show Except.ok [UInt8.ofNat _] = _
    rw [toNat_ofNat_mod, toNat_ofNat_mod, first_byte_alone]
  | [b₀, b₁] => by
    have hblocks : [b₀, b₁].length / 3 = 0 := Nat.div_eq_of_lt (by simp)
    rw [encoded_two, hblocks, decodeFrom, decodeTail, h.index_sextet, h.index_sextet,
      h.index_sextet]
    show Except.ok [UInt8.ofNat _, UInt8.ofNat _] = _
    rw [toNat_ofNat_mod, toNat_ofNat_mod, toNat_ofNat_mod, first_byte, second_byte_last]
  | b₀ :: b₁ :: b₂ :: rest => by
    -- a whole block, and then the code of the rest
    have ih := h.decodeFrom_encoded rest
    have hblocks : (b₀ :: b₁ :: b₂ :: rest).length / 3 = rest.length / 3 + 1 := by
      show (rest.length + 3) / 3 = _
      omega
    have hblock : decodeBlock index (sextet alphabet (b₀.toNat >>> 2))
        (sextet alphabet ((b₀.toNat <<< 4) + (b₁.toNat >>> 4)))
        (sextet alphabet ((b₁.toNat <<< 2) + (b₂.toNat >>> 6)))
        (sextet alphabet b₂.toNat) = .ok [b₀, b₁, b₂] := by
      unfold decodeBlock
      rw [h.index_sextet, h.index_sextet, h.index_sextet, h.index_sextet]
      show Except.ok [UInt8.ofNat _, UInt8.ofNat _, UInt8.ofNat _] = _
      rw [toNat_ofNat_mod, toNat_ofNat_mod, toNat_ofNat_mod, toNat_ofNat_mod, first_byte,
        second_byte, third_byte]
    rw [hblocks, encoded_cons, encodeBlock]
    show decodeBlock index _ _ _ _ >>= _ = _
    rw [hblock]
    show decodeFrom index (rest.length / 3) (encoded alphabet 0 rest) >>= _ = _
    rw [ih]
    rfl

/-- The decoder counts the pads, wherever the code in front of them has none. -/
theorem numPads_append {front : Bytes} {p : ℕ} (hpad : pad ≠ 0) (hfront : pad ∉ front)
    (hp : p ≤ 2) (hlen : 2 ≤ front.length) :
    numPads pad (front ++ List.replicate p pad) = p := by
  have hne : ∀ i < front.length, (front ++ List.replicate p pad)[i]? ≠ some pad := by
    intro i hi hget
    rw [List.getElem?_append_left hi] at hget
    exact hfront (List.mem_of_getElem? hget)
  have heq : ∀ i, front.length ≤ i → i < front.length + p →
      (front ++ List.replicate p pad)[i]? = some pad := by
    intro i hle hlt
    rw [List.getElem?_append_right hle, List.getElem?_replicate, if_pos (by omega)]
  have hlength : (front ++ List.replicate p pad).length = front.length + p := by
    rw [List.length_append, List.length_replicate]
  unfold numPads
  rw [hlength, if_pos ⟨hpad, by omega⟩]
  -- the decoder looks at the last two characters
  by_cases htwo : p = 2
  · rw [if_pos (heq _ (by omega) (by omega)), htwo]
  · rw [if_neg (hne _ (by omega))]
    by_cases hone : p = 1
    · rw [if_pos (heq _ (by omega) (by omega)), hone]
    · rw [if_neg (hne _ (by omega))]
      omega

/-- The decoder counts the pads of a code. -/
theorem numPads_encoded (h : alphabet.length = 64) (hpad : pad ∉ alphabet) (data : Bytes) :
    numPads pad (encoded alphabet pad data) = padding pad data.length := by
  by_cases hzero : pad = 0
  · unfold numPads padding
    rw [if_neg fun hboth => hboth.1 hzero, if_pos hzero]
  · by_cases hnil : data = []
    · rw [hnil, encoded_nil]
      simp [numPads, padding]
    · have hfront : pad ∉ encoded alphabet 0 data := fun hmem => hpad (mem_encoded h pad hmem)
      have hlen : 2 ≤ (encoded alphabet 0 data).length := by
        have hpos := List.length_pos_of_ne_nil hnil
        rw [length_encoded_zero, codeLength_zero]
        split
        · omega
        · omega
      -- there is code in front of the pads, and none of it is a pad
      have hp : padding pad data.length ≤ 2 := by
        unfold padding
        rw [if_neg hzero]
        omega
      rw [encoded_eq_append]
      exact numPads_append hzero hfront hp hlen

/-- A code has a length that the decoder accepts. -/
theorem checkLength_codeLength (pad : UInt8) (len : ℕ) :
    checkLength pad (codeLength pad len) = .ok () := by
  by_cases hpad : pad = 0
  · have hmod : codeLength 0 len % 4 ≠ 1 := by
      rw [codeLength_zero]
      split
      · omega
      · omega
    rw [hpad, checkLength, if_neg (by simp), if_neg hmod]
  · have hmod : codeLength pad len % 4 = 0 := by
      rw [codeLength, if_pos hpad]
      omega
    rw [checkLength, if_pos hpad, if_neg (by omega)]

/-- The size that the decoder computes is one too large for a short last block. -/
theorem decodedSize_codeLength {len : ℕ} (hfits : codeLength pad len < 2 ^ 31) :
    decodedSize (codeLength 0 len) = len + if len % 3 = 0 then 0 else 1 := by
  have hadd := codeLength_eq_add pad len
  have hcode : codeLength 0 len / 4 * 3 + codeLength 0 len % 4 =
      len + if len % 3 = 0 then 0 else 1 := by
    rw [codeLength_zero]
    by_cases hmod : len % 3 = 0
    · rw [if_pos hmod, if_pos hmod]
      omega
    · rw [if_neg hmod, if_neg hmod]
      omega
  unfold decodedSize
  rw [toInt_eq (by omega), hcode]
  split
  · rfl
  · rfl

/-! ## The round trip -/

/-- Where the length of the code is an `int`, the data comes back, with a NUL behind it if its
last block is short. -/
theorem decode_encode_of_fits (h : Inverse alphabet index) (hpad : pad ∉ alphabet) {x : Bytes}
    (hfits : codeLength pad x.length < 2 ^ 31) :
    (encode alphabet pad x >>= decode pad index) =
      .ok (x ++ if x.length % 3 = 0 then [] else [0]) := by
  have hadd := codeLength_eq_add pad x.length
  have htake : (encoded alphabet pad x).take ((encoded alphabet pad x).length -
      numPads pad (encoded alphabet pad x)) = encoded alphabet 0 x := by
    rw [numPads_encoded h.length hpad, length_encoded, hadd, Nat.add_sub_cancel,
      encoded_eq_append, ← length_encoded_zero, List.take_left]
  have hblocks : (toInt (codeLength 0 x.length / 4)).toNat = x.length / 3 := by
    rw [toInt_eq (by omega), Int.toNat_natCast, codeLength_zero]
    split
    · omega
    · omega
  have hsize := decodedSize_codeLength hfits
  have hlength : (encoded alphabet pad x).length = codeLength pad x.length := length_encoded x
  have hneg : ¬decodedSize (codeLength 0 x.length) < 0 := by
    rw [hsize]
    split
    · omega
    · omega
  -- without its pads it is the code that the loop decodes
  have hdecode : decode pad index (encoded alphabet pad x) =
      fill (decodedSize (codeLength 0 x.length)) x := by
    unfold decode
    rw [hlength, checkLength_codeLength, ok_bind]
    simp only
    rw [← hlength, htake, length_encoded_zero, failIf, if_neg hneg,
      ok_bind, hblocks, h.decodeFrom_encoded, ok_bind]
  rw [encode_eq hfits]
  show decode pad index _ = _
  rw [hdecode, hsize]
  split
  · rw [List.append_nil]
    exact fill_self x
  · exact fill_succ x

/-- What the decoder gives back has the size that it computed. -/
theorem length_le_of_decode_eq_ok {data r : Bytes} (hok : decode pad index data = .ok r) :
    r.length ≤ data.length / 4 * 3 + data.length % 4 := by
  unfold decode at hok
  obtain ⟨-, -, hok⟩ := bind_eq_ok.mp hok
  obtain ⟨-, -, hok⟩ := bind_eq_ok.mp hok
  obtain ⟨written, -, hfill⟩ := bind_eq_ok.mp hok
  have hlen := fill_eq_ok hfill
  have hle := toInt_le
    ((data.take (data.length - numPads pad data)).length / 4 * 3 +
      (data.take (data.length - numPads pad data)).length % 4)
  have htake := List.length_take_le (data.length - numPads pad data) data
  unfold decodedSize at hlen
  omega

theorem lt_of_lt_codeLength {len : ℕ} (h : 2 ^ 31 < codeLength pad len) : 3 * 2 ^ 29 < len := by
  have hadd := codeLength_eq_add pad len
  rw [codeLength_zero, padding] at hadd
  split_ifs at hadd
  · omega
  · omega
  · omega
  · omega

/-- Where the length of the code is no `int`, the data does not come back. -/
theorem decode_encode_ne_of_large {x : Bytes} (hlarge : 2 ^ 31 ≤ codeLength pad x.length) :
    (encode alphabet pad x >>= decode pad index) ≠ .ok x := by
  intro hok
  obtain ⟨code, hcode, hdecode⟩ := bind_eq_ok.mp hok
  have hsize := fill_eq_ok hcode
  rw [encodedSize_eq] at hsize
  have hlen := length_le_of_decode_eq_ok hdecode
  have hlt := toInt_lt (codeLength pad x.length)
  by_cases heq : codeLength pad x.length = 2 ^ 31
  · -- the least length that is no `int` is a negative size
    have hneg : toInt (2 ^ 31) = -2 ^ 31 := by decide
    rw [heq, hneg] at hsize
    omega
  · -- the code is too short for that much data
    have hlong := lt_of_lt_codeLength (Nat.lt_of_le_of_ne hlarge (Ne.symm heq))
    omega

/-- The data comes back as it was exactly if its blocks are full and the length of the code is an
`int`. -/
theorem decode_encode_iff (h : Inverse alphabet index) (hpad : pad ∉ alphabet) (x : Bytes) :
    (encode alphabet pad x >>= decode pad index) = .ok x ↔
      x.length % 3 = 0 ∧ x.length < 3 * 2 ^ 29 := by
  have hadd := codeLength_eq_add pad x.length
  rw [codeLength_zero, padding] at hadd
  by_cases hfits : codeLength pad x.length < 2 ^ 31
  · rw [decode_encode_of_fits h hpad hfits, Except.ok.injEq, List.append_right_eq_self]
    by_cases hmod : x.length % 3 = 0
    · rw [if_pos hmod]
      rw [if_pos hmod] at hadd
      exact ⟨fun _ => ⟨hmod, by omega⟩, fun _ => rfl⟩
    · rw [if_neg hmod]
      exact ⟨fun hnul => absurd hnul (List.cons_ne_nil _ _), fun hfull => absurd hfull.1 hmod⟩
  -- data with such a code is longer than `3 * 2 ^ 29` allows
  · have hlarge := Nat.le_of_not_lt hfits
    constructor
    · intro hok
      exact absurd hok (decode_encode_ne_of_large hlarge)
    · intro ⟨hmod, hlt⟩
      rw [if_pos hmod, hmod] at hadd
      split at hadd
      · omega
      · omega

/-- For both alphabets, with any pad outside of the alphabet or none: the data comes back as it
was exactly if its length is a multiple of three below `3 * 2 ^ 29`. -/
theorem b64_round_trip_iff (x : Bytes) (pad : UInt8) :
    (pad ∉ rawAlphabet →
      ((b64Encode x pad >>= fun code => b64Decode code pad) = .ok x ↔
        x.length % 3 = 0 ∧ x.length < 3 * 2 ^ 29)) ∧
    (pad ∉ urlAlphabet →
      ((b64urlEncode x pad >>= fun code => b64urlDecode code pad) = .ok x ↔
        x.length % 3 = 0 ∧ x.length < 3 * 2 ^ 29)) :=
  ⟨fun hpad => decode_encode_iff inverse_raw hpad x,
    fun hpad => decode_encode_iff inverse_url hpad x⟩

/-- A single byte comes back with a NUL behind it, with and without padding. -/
theorem b64_decode_adds_nul :
    b64Encode [77] 61 = .ok (ascii "TQ==") ∧ b64Decode (ascii "TQ==") 61 = .ok [77, 0] ∧
    b64Encode [77] 0 = .ok (ascii "TQ") ∧ b64Decode (ascii "TQ") 0 = .ok [77, 0] ∧
    ¬(b64Encode [77] 61 >>= fun code => b64Decode code 61) = .ok [77] := by
  decide +kernel

/-- The condition with `=` as the pad and with none. -/
theorem b64_round_trip_iff_man :
    ((b64Encode (ascii "Man") 61 >>= fun code => b64Decode code 61) = .ok (ascii "Man") ↔
      (ascii "Man").length % 3 = 0 ∧ (ascii "Man").length < 3 * 2 ^ 29) ∧
    ((b64urlEncode (ascii "Man") 0 >>= fun code => b64urlDecode code 0) = .ok (ascii "Man") ↔
      (ascii "Man").length % 3 = 0 ∧ (ascii "Man").length < 3 * 2 ^ 29) :=
  ⟨(b64_round_trip_iff (ascii "Man") 61).1 (by decide +kernel),
    (b64_round_trip_iff (ascii "Man") 0).2 (by decide +kernel)⟩

end Anon.B64
