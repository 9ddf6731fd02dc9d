import Anon.Dispatcher.HeaderParsing
import Anon.Epc.SockaddrIn6
import Anon.Webrtc.Offer

/-!
# Identifiers and their hexadecimal form

`big_id.h` and `big_id_serial.h`. A `big_id` and a `small_id` differ in their size only.

* `Id`: the bytes of an identifier, with their number.
* `toHexString`, `hexStringId`: to a string and back.
* `writeLong`, `writeShort`, `readId`: to a stream and back.
-/

namespace Anon.Ids

open Epc (memcmp)
open Dispatcher (toLower)
open Webrtc (isSpace)

/-- The bytes `m_buf`. -/
structure Id (n : ℕ) where
  mBuf : Bytes
  size : mBuf.length = n
  deriving DecidableEq

/-- `big_id` -/
abbrev BigId := Id 32

/-- `small_id` -/
abbrev SmallId := Id 20

namespace Id

variable {n : ℕ}

/-- `operator==` -/
def same (id1 id2 : Id n) : Bool := memcmp n id1.mBuf id2.mBuf = .eq

/-- `operator<` -/
def before (id1 id2 : Id n) : Bool := memcmp n id1.mBuf id2.mBuf = .lt

/-- One more byte. -/
def cons (b : UInt8) (id : Id n) : Id (n + 1) :=
  ⟨b :: id.mBuf, by rw [List.length_cons, id.size]⟩

end Id

/-- A digit, for a number below 16. -/
def hexDigit (nib : UInt8) : UInt8 :=
  if nib < 10 then 48 + nib
  else 97 + nib - 10

/-- The digits of a byte. -/
def hexByte (b : UInt8) : Bytes := [hexDigit (b >>> 4), hexDigit (b &&& 15)]

/-- `to_ascii_hex` -/
def toAsciiHex (idBuff : Bytes) : Bytes := idBuff.flatMap hexByte ++ [0]

/-- `hex_to_i` -/
def hexToI (nib : UInt8) : UInt8 :=
  if 48 ≤ nib ∧ nib ≤ 57 then nib - 48
  else if 97 ≤ nib ∧ nib ≤ 102 then nib - 97 + 10
  else if 65 ≤ nib ∧ nib ≤ 70 then nib - 65 + 10
  else 0

variable {n : ℕ}

/-- `toHexString` -/
def toHexString (id : Id n) : Bytes := cString (toAsciiHex id.mBuf)

/-- The loop of `bigHexStringId` and `smallHexStringId`; `none` is a read behind the string. -/
def readHex : (n : ℕ) → Bytes → Option (Id n)
  | 0, _ => some ⟨[], rfl⟩
  | n + 1, nib1 :: nib2 :: ss => (readHex n ss).map (.cons ((hexToI nib1 <<< 4) + hexToI nib2))
  | _ + 1, _ => none

/-- `bigHexStringId` and `smallHexStringId` -/
def hexStringId (n : ℕ) (str : Bytes) : Option (Id n) := readHex n (str ++ [0])

/-! ## Streams -/

/-- `operator<<` for what `ldisp` returns. -/
def writeLong (str : Bytes) (id : Id n) : Bytes := str ++ cString (toAsciiHex id.mBuf)

/-- `operator<<` for what `sdisp` returns, and for an identifier; the bytes of the array behind the
NUL are left out. -/
def writeShort (str : Bytes) (id : Id n) : Bytes :=
  str ++ cString ((toAsciiHex id.mBuf).take 6 ++ ascii "..." ++ [0])

/-- `str >> nib`; `none` is the end of the stream. -/
def readNib (str : Bytes) : Option (UInt8 × Bytes) :=
  match str.dropWhile isSpace with
  | nib :: str => some (nib, str)
  | [] => none

/-- `operator>>` -/
def readId : (n : ℕ) → Bytes → Option (Id n × Bytes)
  | 0, str => some (⟨[], rfl⟩, str)
  | n + 1, str => do
    let (nib1, str) ← readNib str
    let (nib2, str) ← readNib str
    let (id, str) ← readId n str
    return (.cons ((hexToI nib1 <<< 4) + hexToI nib2) id, str)

/-- One identifier after the other. -/
def readIds (n : ℕ) : ℕ → Bytes → Option (List (Id n) × Bytes)
  | 0, str => some ([], str)
  | k + 1, str => do
    let (id, str) ← readId n str
    let (ids, str) ← readIds n k str
    return (id :: ids, str)

end Anon.Ids
