import Anon.Dispatcher.Dispatch
import Anon.Lib.Except

/-!
# Percent coding

`percent_encode`, and what `percent_decode` makes of its output. The decoder appends each decoded
character as a C string, so a NUL that was encoded is not there any more.

* `percentEncode`: each character as it is, or as `%` and two hexadecimal digits.
* `percentDecode_append`: the decoder undoes the encoder at the front of any text.
* `percentDecode_percentEncode`: what comes back is the text without its NULs.
-/

namespace Anon.Dispatcher

/-- `toa` -/
def toa (nib : UInt8) : UInt8 := if nib < 10 then 48 + nib else 65 + (nib - 10)

/-- The characters that stand for themselves. A negative `char` is none of them. -/
def unreserved (c : UInt8) : Bool :=
  65 ≤ c ∧ c ≤ 90 ∨ 97 ≤ c ∧ c ≤ 122 ∨ 48 ≤ c ∧ c ≤ 57 ∨ c = 45 ∨ c = 95 ∨ c = 46 ∨ c = 126

/-- `buf` for a character of the text. -/
def escapeBuf (c : UInt8) : Bytes :=
  if unreserved c then [c, 0] else [percent, toa (c >>> 4 &&& 15), toa (c &&& 15), 0]

/-- `percent_encode` -/
def percentEncode (plain : Bytes) : Bytes := plain.flatMap fun c => cString (escapeBuf c)

/-! ## One character -/

/-- A character is written as itself or as `%` and the digits of its two halves. -/
theorem cString_escapeBuf : ∀ c : UInt8, cString (escapeBuf c) =
    if unreserved c then [c] else [percent, toa (c >>> 4 &&& 15), toa (c &&& 15)] := by
  apply forall_uint8
  decide +kernel

theorem nib_toa_high : ∀ c : UInt8, nib (toa (c >>> 4 &&& 15)) = some (c >>> 4 &&& 15) := by
  apply forall_uint8
  decide +kernel

theorem nib_toa_low : ∀ c : UInt8, nib (toa (c &&& 15)) = some (c &&& 15) := by
  apply forall_uint8
  decide +kernel

theorem halves : ∀ c : UInt8, (c >>> 4 &&& 15) * 16 + (c &&& 15) = c := by
  apply forall_uint8
  decide +kernel

/-- A character that stands for itself is neither `%` nor NUL. -/
theorem unreserved_ne : ∀ c : UInt8, unreserved c → c ≠ percent ∧ c ≠ 0 := by
  apply forall_uint8
  decide +kernel

/-- No NUL is in the encoded text. -/
theorem zero_notMem_percentEncode (plain : Bytes) : 0 ∉ percentEncode plain := by
  intro hmem
  obtain ⟨c, -, hc⟩ := List.mem_flatMap.mp hmem
  exact zero_notMem_cString _ hc

@[simp] theorem percentEncode_nil : percentEncode [] = [] := rfl

theorem percentEncode_cons (c : UInt8) (plain : Bytes) :
    percentEncode (c :: plain) = cString (escapeBuf c) ++ percentEncode plain := rfl

/-! ## The decoder -/

/-- The decoder passes over a character that is not `%`. -/
theorem percentDecodeFrom_cons_of_ne {c : UInt8} (h : c ≠ percent) (rest : Bytes) :
    percentDecodeFrom 0 (c :: rest) = (c :: ·) <$> percentDecodeFrom 0 rest := by
  rw [percentDecodeFrom, if_neg h]
  cases percentDecodeFrom 0 rest with
  | error e => rfl
  | ok dec => rfl

/-- The decoder reads an escape sequence, and loses a NUL. -/
theorem percentDecodeFrom_escape {high low hi lo : UInt8} (hhi : nib high = some hi)
    (hlo : nib low = some lo) (rest : Bytes) :
    percentDecodeFrom 0 (percent :: high :: low :: rest) =
      (fun dec => if hi * 16 + lo = 0 then dec else (hi * 16 + lo) :: dec) <$>
        percentDecodeFrom 0 rest := by
  have hskip : percentDecodeFrom 2 (high :: low :: rest) = percentDecodeFrom 0 rest := rfl
  rw [percentDecodeFrom]
  simp only [List.head?_cons, List.tail_cons, Option.bind_some, hhi, hlo, if_true]
  rw [hskip]
  cases percentDecodeFrom 0 rest with
  | error e => rfl
  | ok dec => rfl

/-- The decoder undoes the encoder for one character, but for a NUL. -/
theorem percentDecodeFrom_escapeBuf (c : UInt8) (rest : Bytes) :
    percentDecodeFrom 0 (cString (escapeBuf c) ++ rest) =
      ([c].filter (· ≠ 0) ++ ·) <$> percentDecodeFrom 0 rest := by
  rw [cString_escapeBuf]
  by_cases hplain : unreserved c
  · obtain ⟨hpercent, hzero⟩ := unreserved_ne c hplain
    rw [if_pos hplain, List.filter_cons_of_pos (by simpa using hzero)]
    exact percentDecodeFrom_cons_of_ne hpercent rest
  · rw [if_neg hplain]
    show percentDecodeFrom 0 (percent :: _ :: _ :: rest) = _
    rw [percentDecodeFrom_escape (nib_toa_high c) (nib_toa_low c), halves]
    by_cases hzero : c = 0
    · rw [hzero]
      rfl
    · rw [List.filter_cons_of_pos (by simpa using hzero)]
      simp only [if_neg hzero]
      rfl

/-- The decoder undoes the encoder at the front of a text. -/
theorem percentDecodeFrom_append (plain rest : Bytes) :
    percentDecodeFrom 0 (percentEncode plain ++ rest) =
      (plain.filter (· ≠ 0) ++ ·) <$> percentDecodeFrom 0 rest := by
  induction plain with
  | nil => exact (id_map _).symm
  | cons c plain ih =>
    have hfilter : (c :: plain).filter (· ≠ 0) = [c].filter (· ≠ 0) ++ plain.filter (· ≠ 0) := by
      rw [← List.filter_append, List.singleton_append]
    rw [percentEncode_cons, List.append_assoc, percentDecodeFrom_escapeBuf, ih, hfilter]
    cases percentDecodeFrom 0 rest with
    | error e => rfl
    | ok dec => exact congrArg Except.ok (List.append_assoc _ _ _).symm

/-- The decoder gives back the text without its NULs. -/
theorem percentDecode_percentEncode (s : Bytes) :
    percentDecode (percentEncode s) = .ok (s.filter (· ≠ 0)) := by
  have happend := percentDecodeFrom_append s []
  rw [List.append_nil] at happend
  rw [percentDecode, cString_eq_self (zero_notMem_percentEncode s), happend]
  exact congrArg Except.ok (List.append_nil _)

/-- A text comes back as it was if it has no NUL in it. -/
theorem percentDecode_percentEncode_iff (s : Bytes) :
    percentDecode (percentEncode s) = .ok s ↔ 0 ∉ s := by
  rw [percentDecode_percentEncode, Except.ok.injEq, List.filter_eq_self]
  constructor
  · intro hall hmem
    exact absurd (hall 0 hmem) (by decide)
  · intro hno c hc
    have hne : c ≠ 0 := fun hzero => hno (hzero ▸ hc)
    exact decide_eq_true hne

/-- A text that is a single NUL comes back empty. -/
theorem percentDecode_loses_nul : percentEncode [0] = ascii "%00" ∧
    percentDecode (percentEncode [0]) = .ok [] ∧
    ¬∀ s : Bytes, percentDecode (percentEncode s) = .ok s := by
  refine ⟨by decide +kernel, percentDecode_percentEncode [0], fun hall => ?_⟩
  have hnul := hall [0]
  rw [percentDecode_percentEncode] at hnul
  exact absurd (Except.ok.inj hnul) (by decide)

end Anon.Dispatcher
