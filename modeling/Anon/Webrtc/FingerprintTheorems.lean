import Anon.Webrtc.Offer

/-!
# The fingerprint in an offer

A certificate's digest travels as a text, two hexadecimal digits for each byte and a colon between
two bytes. `digest_from_fingerprint_str` reads such a text.

* `fingerprintText`: the text, as the constructor of the dispatcher writes it.
* `digestFromFingerprintStr_eq`: what is read from the text of a digest: all but its last byte.
* `digest_never_read_back`: no digest is read back.
-/

namespace Anon.Webrtc

variable {b c : UInt8} {d : Bytes}

/-- The text of a digest. -/
def fingerprintText (digest : Bytes) : Bytes :=
  digest.zipIdx.flatMap fun b => appendSdpByte b.1 (b.2 < digest.length - 1)

/-! ## The text, byte by byte -/

/-- The text of the bytes from index `n` on. -/
theorem flatMap_zipIdx_cons (n : ℕ) (b c : UInt8) (d : Bytes) :
    ((b :: c :: d).zipIdx n).flatMap (fun p =>
        appendSdpByte p.1 (p.2 < n + (b :: c :: d).length - 1)) =
      appendSdpByte b true ++ ((c :: d).zipIdx (n + 1)).flatMap (fun p =>
        appendSdpByte p.1 (p.2 < n + 1 + (c :: d).length - 1)) := by
  have hlen : n + (b :: c :: d).length - 1 = n + 1 + (c :: d).length - 1 := by
    simp only [List.length_cons]
    omega
  have hfirst : decide (n < n + 1 + (c :: d).length - 1) = true := by
    simp only [List.length_cons]
    apply decide_eq_true
    omega
  rw [hlen, List.zipIdx_cons, List.flatMap_cons, hfirst]

/-- The text of the bytes from index `n` on is that of the bytes alone. -/
theorem flatMap_zipIdx_eq (n : ℕ) (d : Bytes) :
    (d.zipIdx n).flatMap (fun p => appendSdpByte p.1 (p.2 < n + d.length - 1)) =
      fingerprintText d := by
  suffices hshift : ∀ m k, (d.zipIdx m).flatMap (fun p =>
      appendSdpByte p.1 (p.2 < m + d.length - 1)) = (d.zipIdx k).flatMap (fun p =>
        appendSdpByte p.1 (p.2 < k + d.length - 1)) by
    rw [hshift n 0, fingerprintText, Nat.zero_add]
  induction d with
  | nil =>
    intro m k
    rfl
  | cons b d ih =>
    intro m k
    cases d with
    | nil =>
      have hlast : ∀ i : ℕ, decide (i < i + [b].length - 1) = false := by
        intro i
        apply decide_eq_false
        rw [List.length_singleton]
        omega
      simp only [List.zipIdx_cons, List.zipIdx_nil, List.flatMap_cons, List.flatMap_nil, hlast]
    | cons c d =>
      rw [flatMap_zipIdx_cons, flatMap_zipIdx_cons, ih (m + 1) (k + 1)]

/-- A byte with another one behind it has its two digits and a colon. -/
theorem fingerprintText_cons (b c : UInt8) (d : Bytes) :
    fingerprintText (b :: c :: d) = appendSdpByte b true ++ fingerprintText (c :: d) := by
  rw [← flatMap_zipIdx_eq 0 (b :: c :: d), flatMap_zipIdx_cons, flatMap_zipIdx_eq]

theorem fingerprintText_singleton (b : UInt8) : fingerprintText [b] = appendSdpByte b false := by
  show appendSdpByte b _ ++ [] = _
  rw [List.append_nil]
  rfl

/-! ## Reading -/

/-- The digits of a byte are read back. -/
theorem getNibble_digits : ∀ b : UInt8,
    getNibble (appendNibble (b >>> 4) 65) = some (b >>> 4) ∧
      getNibble (appendNibble (b &&& 0x0f) 65) = some (b &&& 0x0f) ∧
        ((b >>> 4) <<< 4) + (b &&& 0x0f) = b := by
  apply forall_uint8
  decide +kernel

/-- A byte with a colon behind it is read. -/
theorem digestBytes_appendSdpByte (b : UInt8) (rest : Bytes) :
    digestBytes (appendSdpByte b true ++ rest) = (digestBytes rest).map (b :: ·) := by
  obtain ⟨hhigh, hlow, hbyte⟩ := getNibble_digits b
  have htext : appendSdpByte b true ++ rest =
      appendNibble (b >>> 4) 65 :: appendNibble (b &&& 0x0f) 65 :: 58 :: rest := rfl
  rw [htext, digestBytes, if_neg (by simp), hhigh, hlow]
  simp only [hbyte]

/-- The loop stops in front of the last byte. -/
theorem digestBytes_fingerprintText (b : UInt8) (d : Bytes) :
    digestBytes (fingerprintText (b :: d)) = some (b :: d).dropLast := by
  induction d generalizing b with
  | nil =>
    rw [fingerprintText_singleton]
    rfl
  | cons c d ih =>
    rw [fingerprintText_cons, digestBytes_appendSdpByte, ih]
    rfl

/-- What is read from the text of a digest: all but its last byte. -/
theorem digestFromFingerprintStr_eq (hd : d ≠ []) :
    digestFromFingerprintStr (fingerprintText d) = d.dropLast := by
  cases d with
  | nil => exact absurd rfl hd
  | cons b d =>
    rw [digestFromFingerprintStr, digestBytes_fingerprintText]
    rfl

/-- No digest is read back from its text. -/
theorem digest_never_read_back (hd : d ≠ []) :
    digestFromFingerprintStr (fingerprintText d) ≠ d := by
  intro heq
  rw [digestFromFingerprintStr_eq hd] at heq
  have hlen := congrArg List.length heq
  have hpos := List.length_pos_of_ne_nil hd
  rw [List.length_dropLast] at hlen
  omega

theorem digest_never_read_back_two :
    digestFromFingerprintStr (fingerprintText [0x0a, 0xff]) ≠ [0x0a, 0xff] :=
  digest_never_read_back (by decide)

/-- From "0A:FF", the last byte is missing. -/
theorem last_byte_dropped : fingerprintText [0x0a, 0xff] = ascii "0A:FF" ∧
    digestFromFingerprintStr (fingerprintText [0x0a, 0xff]) = [0x0a] ∧
      digestFromFingerprintStr (fingerprintText [0x0a, 0xff]) ≠ [0x0a, 0xff] := by
  have hread : digestFromFingerprintStr (fingerprintText [0x0a, 0xff]) = [0x0a] := by
    decide +kernel
  refine ⟨by decide, hread, ?_⟩
  rw [hread]
  decide

end Anon.Webrtc
