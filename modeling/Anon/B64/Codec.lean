import Anon.Lib.CString
import Anon.Lib.Except

/-!
# Base64

`encode` and `decode` of `b64.cpp`, for the raw alphabet and for the one that is safe in a url. A
pad of NUL stands for no padding. Sizes are computed in an `int`, to which a length is converted
modulo 2^32; a product of such sizes that does not fit wraps.

* `encode`: blocks of three bytes, and the last one or two bytes.
* `decode`: blocks of four characters, and the last two or three characters.
* `b64Encode`, `b64Decode`, `b64urlEncode`, `b64urlDecode`: the functions of the interface.
-/

namespace Anon.B64

def urlAlphabet : Bytes :=
  ascii "ABCDEFGHIJKLMNOPQRSTUVWXYZabcdefghijklmnopqrstuvwxyz0123456789-_"

def rawAlphabet : Bytes :=
  ascii "ABCDEFGHIJKLMNOPQRSTUVWXYZabcdefghijklmnopqrstuvwxyz0123456789+/"

/-- How a call ends without a string. -/
inductive Failure
  /-- `std::runtime_error` -/
  | runtime (what : Bytes)
  /-- `std::length_error`, which a container throws for a negative size. -/
  | length
  /-- A read or write outside its buffer. -/
  | outOfBounds
  deriving DecidableEq

/-- The conversion of a size to an `int`. -/
def toInt (size : ℕ) : ℤ := Int.bmod size (2 ^ 32)

/-- A container of that size in which `written` is stored from the front. -/
def fill (size : ℤ) (written : Bytes) : Except Failure Bytes :=
  if size < 0 then .error .length
  else if size < written.length then .error .outOfBounds
  else .ok (written ++ List.replicate (size.toNat - written.length) 0)

/-! ## Encoding -/

variable (alphabet : Bytes) (pad : UInt8)

/-- The character for the low six bits of a number. -/
def sextet (n : ℕ) : UInt8 := alphabet.getD (n &&& 0x3f) 0

/-- The characters of one block. -/
def encodeBlock (b₀ b₁ b₂ : UInt8) : Bytes :=
  [sextet alphabet (b₀.toNat >>> 2),
    sextet alphabet ((b₀.toNat <<< 4) + (b₁.toNat >>> 4)),
    sextet alphabet ((b₁.toNat <<< 2) + (b₂.toNat >>> 6)),
    sextet alphabet b₂.toNat]

/-- The characters for what is left behind the blocks. -/
def encodeTail : Bytes → Bytes
  | [] => []
  | [b₀] =>
    [sextet alphabet (b₀.toNat >>> 2), sextet alphabet (b₀.toNat <<< 4)] ++
      if pad ≠ 0 then [pad, pad] else []
  | b₀ :: b₁ :: _ =>
    [sextet alphabet (b₀.toNat >>> 2), sextet alphabet ((b₀.toNat <<< 4) + (b₁.toNat >>> 4)),
      sextet alphabet (b₁.toNat <<< 2)] ++ if pad ≠ 0 then [pad] else []

/-- The characters of the data, `numFullBlocks` of them in the loop. -/
def encodeFrom : (numFullBlocks : ℕ) → Bytes → Bytes
  | blocks + 1, b₀ :: b₁ :: b₂ :: rest => encodeBlock alphabet b₀ b₁ b₂ ++ encodeFrom blocks rest
  | _, rest => encodeTail alphabet pad rest

/-- `encoded_size` -/
def encodedSize (len : ℕ) : ℤ :=
  if pad ≠ 0 then toInt ((len + 2) / 3 * 4)
  else toInt (len / 3 * 4 + if len % 3 ≠ 0 then len % 3 + 1 else 0)

/-- `encode` -/
def encode (data : Bytes) : Except Failure Bytes :=
  fill (encodedSize pad data.length)
    (encodeFrom alphabet pad (toInt (data.length / 3)).toNat data)

def b64urlEncode (data : Bytes) (pad : UInt8) : Except Failure Bytes :=
  encode urlAlphabet pad data

def b64Encode (data : Bytes) (pad : UInt8) : Except Failure Bytes :=
  encode rawAlphabet pad data

/-! ## Decoding -/

/-- The exception for a character that is not in the alphabet. -/
def invalidCharacter (code : UInt8) : Failure :=
  .runtime (ascii "invalid character in b64 string: (" ++ ascii (toString code.toNat) ++
    ascii ") \"" ++ cString [code, 0] ++ ascii "\"")

/-- The index of a letter or digit, or of one of the two other characters. -/
def indexOf (code62 code63 code : UInt8) : Except Failure UInt8 :=
  if 65 ≤ code ∧ code ≤ 90 then .ok (code - 65)
  else if 97 ≤ code ∧ code ≤ 122 then .ok (code - 97 + 26)
  else if 48 ≤ code ∧ code ≤ 57 then .ok (code - 48 + 52)
  else if code = code62 then .ok 62
  else if code = code63 then .ok 63
  else .error (invalidCharacter code)

/-- `b64url_index` -/
def b64urlIndex : UInt8 → Except Failure UInt8 := indexOf 45 95

/-- `b64_index` -/
def b64Index : UInt8 → Except Failure UInt8 := indexOf 43 47

/-- The lengths that are refused. -/
def checkLength (len : ℕ) : Except Failure Unit :=
  if pad ≠ 0 then
    if len % 4 ≠ 0 then
      .error (.runtime (ascii "illegal base64 length - must be a multiple of 4, was: " ++
        ascii (toString len)))
    else .ok ()
  else
    if len % 4 = 1 then
      .error (.runtime (ascii "illegal unpadded base64 length - (len % 4) cannot == 1, len: " ++
        ascii (toString len)))
    else .ok ()

/-- `num_pads` -/
def numPads (data : Bytes) : ℕ :=
  if pad ≠ 0 ∧ 0 < data.length then
    if data[data.length - 2]? = some pad then 2
    else if data[data.length - 1]? = some pad then 1
    else 0
  else 0

variable (index : UInt8 → Except Failure UInt8)

/-- The bytes of one block; the sums are truncated to a `char`. -/
def decodeBlock (c₀ c₁ c₂ c₃ : UInt8) : Except Failure Bytes := do
  let a ← index c₀
  let b ← index c₁
  let c ← index c₂
  let d ← index c₃
  return [UInt8.ofNat ((a.toNat <<< 2) + (b.toNat >>> 4)),
    UInt8.ofNat ((b.toNat <<< 4) + (c.toNat >>> 2)), UInt8.ofNat ((c.toNat <<< 6) + d.toNat)]

/-- The bytes of what is left behind the blocks. -/
def decodeTail : Bytes → Except Failure Bytes
  | [] => .ok []
  | [_] => .error .outOfBounds
  | [c₀, c₁] => do
    let a ← index c₀
    let b ← index c₁
    return [UInt8.ofNat ((a.toNat <<< 2) + (b.toNat >>> 4))]
  | c₀ :: c₁ :: c₂ :: _ => do
    let a ← index c₀
    let b ← index c₁
    let c ← index c₂
    return [UInt8.ofNat ((a.toNat <<< 2) + (b.toNat >>> 4)),
      UInt8.ofNat ((b.toNat <<< 4) + (c.toNat >>> 2))]

/-- The bytes of the data, `numFullBlocks` blocks of them in the loop. -/
def decodeFrom : (numFullBlocks : ℕ) → Bytes → Except Failure Bytes
  | blocks + 1, c₀ :: c₁ :: c₂ :: c₃ :: rest => do
    let block ← decodeBlock index c₀ c₁ c₂ c₃
    let dec ← decodeFrom blocks rest
    return block ++ dec
  | _ + 1, _ => .error .outOfBounds
  | 0, rest => decodeTail index rest

/-- `decoded_size` -/
def decodedSize (len : ℕ) : ℤ := toInt (len / 4 * 3 + len % 4)

/-- `decode` -/
def decode (data : Bytes) : Except Failure Bytes := do
  checkLength pad data.length
  let data := data.take (data.length - numPads pad data)
  failIf (decodedSize data.length < 0) .length
  let written ← decodeFrom index (toInt (data.length / 4)).toNat data
  fill (decodedSize data.length) written

def b64urlDecode (data : Bytes) (pad : UInt8) : Except Failure Bytes :=
  decode pad b64urlIndex data

def b64Decode (data : Bytes) (pad : UInt8) : Except Failure Bytes :=
  decode pad b64Index data

end Anon.B64
