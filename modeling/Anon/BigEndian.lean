import Mathlib

/-!
# Bytes and big-endian access

The buffers of the program and the accessors of `big_endian_access.h`. A pointer into a buffer
is an offset. A read is fallible: `none` is a read outside the buffer, which the program must
never make.

* `getBeUint16`, `getBeUint32`, `setBeUint16`, `setBeUint32`: the accessors.
* `writeAt`: a store of some bytes into a buffer.
-/

namespace Anon

abbrev Bytes := List UInt8

/-- Bytes compare as unsigned numbers, strings of them byte by byte. -/
instance linearOrderUInt8 : LinearOrder UInt8 where
  le_refl := UInt8.le_refl
  le_trans _ _ _ := UInt8.le_trans
  le_antisymm _ _ := UInt8.le_antisymm
  le_total := UInt8.le_total
  toDecidableLE := inferInstance
  lt_iff_le_not_ge _ _ := by rw [UInt8.not_le]; exact ⟨fun h => ⟨UInt8.le_of_lt h, h⟩, And.right⟩

/-- What holds of the 256 bytes holds of every byte. -/
theorem forall_uint8 {p : UInt8 → Prop} (h : ∀ n < 256, p (UInt8.ofNat n)) (c : UInt8) : p c := by
  have hc := h c.toNat c.toNat_lt
  rwa [UInt8.ofNat_toNat] at hc

/-- The bytes of a string literal. -/
def ascii (s : String) : Bytes := s.toList.map fun c => UInt8.ofNat c.toNat

/-- `get_be_uint16(&msg[i])` -/
def getBeUint16 (msg : Bytes) (i : ℕ) : Option ℕ := do
  let b0 ← msg[i]?
  let b1 ← msg[i + 1]?
  return b0.toNat * 2 ^ 8 + b1.toNat

/-- `get_be_uint32(&msg[i])` -/
def getBeUint32 (msg : Bytes) (i : ℕ) : Option ℕ := do
  let hi ← getBeUint16 msg i
  let lo ← getBeUint16 msg (i + 2)
  return hi * 2 ^ 16 + lo

/-- The bytes that `set_be_uint16(val, ptr)` stores. -/
def setBeUint16 (val : ℕ) : Bytes :=
  [UInt8.ofNat (val / 2 ^ 8), UInt8.ofNat val]

/-- The bytes that `set_be_uint32(val, ptr)` stores. -/
def setBeUint32 (val : ℕ) : Bytes :=
  setBeUint16 (val / 2 ^ 16) ++ setBeUint16 val

/-- The `n` bytes from offset `i` on; `none` if they are not all inside the buffer. -/
def readBytes (msg : Bytes) (i n : ℕ) : Option Bytes :=
  if i + n ≤ msg.length then some ((msg.drop i).take n) else none

/-- Store `bs` at offset `i` of a buffer that holds them. -/
def writeAt (buf : Bytes) (i : ℕ) (bs : Bytes) : Bytes :=
  buf.take i ++ bs ++ buf.drop (i + bs.length)

variable {msg : Bytes} {i : ℕ}

/-- A two-byte read inside the buffer. -/
theorem getBeUint16_of_le (h : i + 2 ≤ msg.length) :
    getBeUint16 msg i = some (msg[i].toNat * 2 ^ 8 + msg[i + 1].toNat) := by
  have h0 : msg[i]? = some msg[i] := List.getElem?_eq_getElem (by omega)
  have h1 : msg[i + 1]? = some msg[i + 1] := List.getElem?_eq_getElem (by omega)
  rw [getBeUint16, h0, h1]
  rfl

/-- Reading behind a prefix. -/
theorem getBeUint16_append (xs ys : Bytes) (i : ℕ) :
    getBeUint16 (xs ++ ys) (xs.length + i) = getBeUint16 ys i := by
  have h0 : (xs ++ ys)[xs.length + i]? = ys[i]? := by
    rw [List.getElem?_append_right (by omega), Nat.add_sub_cancel_left]
  have h1 : (xs ++ ys)[xs.length + i + 1]? = ys[i + 1]? := by
    rw [Nat.add_assoc, List.getElem?_append_right (by omega), Nat.add_sub_cancel_left]
  rw [getBeUint16, getBeUint16, h0, h1]

theorem getBeUint32_append (xs ys : Bytes) (i : ℕ) :
    getBeUint32 (xs ++ ys) (xs.length + i) = getBeUint32 ys i := by
  rw [getBeUint32, getBeUint32, getBeUint16_append, Nat.add_assoc, getBeUint16_append]

/-- What was stored is read back, truncated to 16 bits. -/
theorem getBeUint16_setBeUint16 (val : ℕ) (rest : Bytes) :
    getBeUint16 (setBeUint16 val ++ rest) 0 = some (val % 2 ^ 16) := by
  show some ((UInt8.ofNat (val / 2 ^ 8)).toNat * 2 ^ 8 + (UInt8.ofNat val).toNat) = _
  rw [UInt8.toNat_ofNat', UInt8.toNat_ofNat']
  congr 1
  omega

/-- What was stored is read back, truncated to 32 bits. -/
theorem getBeUint32_setBeUint32 (val : ℕ) (rest : Bytes) :
    getBeUint32 (setBeUint32 val ++ rest) 0 = some (val % 2 ^ 32) := by
  have hlow : getBeUint16 (setBeUint32 val ++ rest) 2 = some (val % 2 ^ 16) := by
    rw [setBeUint32, List.append_assoc]
    exact (getBeUint16_append (setBeUint16 (val / 2 ^ 16)) _ 0).trans
      (getBeUint16_setBeUint16 val rest)
  rw [getBeUint32, hlow, setBeUint32, List.append_assoc, getBeUint16_setBeUint16]
  show some (val / 2 ^ 16 % 2 ^ 16 * 2 ^ 16 + val % 2 ^ 16) = _
  congr 1
  omega

@[simp] theorem length_setBeUint16 (val : ℕ) : (setBeUint16 val).length = 2 := rfl

@[simp] theorem length_setBeUint32 (val : ℕ) : (setBeUint32 val).length = 4 := rfl

theorem isSome_getElem (h : i < msg.length) : (msg[i]?).isSome := by
  rw [List.getElem?_eq_getElem h]
  rfl

theorem isSome_getBeUint16 (h : i + 2 ≤ msg.length) : (getBeUint16 msg i).isSome := by
  rw [getBeUint16_of_le h]
  rfl

theorem isSome_getBeUint32 (h : i + 4 ≤ msg.length) : (getBeUint32 msg i).isSome := by
  rw [getBeUint32, getBeUint16_of_le (by omega), getBeUint16_of_le (by omega)]
  rfl

theorem isSome_readBytes {n : ℕ} (h : i + n ≤ msg.length) : (readBytes msg i n).isSome := by
  rw [readBytes, if_pos h]
  rfl

theorem readBytes_eq_some {n : ℕ} {bs : Bytes} :
    readBytes msg i n = some bs ↔ i + n ≤ msg.length ∧ (msg.drop i).take n = bs := by
  unfold readBytes
  split <;> simp [*]

end Anon
