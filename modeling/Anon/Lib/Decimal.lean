import Anon.BigEndian

/-!
# Decimal numbers

The digits that a stream writes for a number, and the number that digits are.

* `digit_of_mem_toString`: only digits are written.
* `decimal_toString`: reading them gives the number back.
-/

namespace Anon

/-- `std::isdigit` -/
def isDigit (c : UInt8) : Bool := 48 ≤ c ∧ c ≤ 57

/-- The number that some digits are. -/
def decimal (s : Bytes) : ℕ := s.foldl (fun n c => 10 * n + (c.toNat - 48)) 0

/-- A digit is the same number as a byte and as a character. -/
theorem toNat_ofNat_of_isDigit {c : Char} (h : c.isDigit) :
    (UInt8.ofNat c.toNat).toNat = c.toNat ∧ 48 ≤ c.toNat ∧ c.toNat ≤ 57 := by
  have hbounds : 48 ≤ c.toNat ∧ c.toNat ≤ 57 := by
    rw [Char.isDigit, Bool.and_eq_true, decide_eq_true_eq, decide_eq_true_eq] at h
    exact ⟨UInt32.le_iff_toNat_le.mp h.1, UInt32.le_iff_toNat_le.mp h.2⟩
  refine ⟨?_, hbounds⟩
  rw [UInt8.toNat_ofNat', Nat.mod_eq_of_lt]
  omega

theorem isDigit_of_mem_toString {n : ℕ} {c : Char} (h : c ∈ (toString n).toList) : c.isDigit := by
  have htoList : (toString n).toList = Nat.toDigits 10 n := String.toList_ofList
  rw [htoList] at h
  exact Nat.isDigit_of_mem_toDigits (by omega) le_rfl h

/-- A printed number is a sequence of digits. -/
theorem digit_of_mem_toString {n : ℕ} {b : UInt8} (h : b ∈ ascii (toString n)) :
    isDigit b = true := by
  obtain ⟨c, hc, rfl⟩ := List.mem_map.mp h
  obtain ⟨hvalue, hlow, hhigh⟩ := toNat_ofNat_of_isDigit (isDigit_of_mem_toString hc)
  rw [isDigit, decide_eq_true_eq, UInt8.le_iff_toNat_le, UInt8.le_iff_toNat_le, hvalue]
  exact ⟨hlow, hhigh⟩

theorem ascii_toString_ne_nil (n : ℕ) : ascii (toString n) ≠ [] := by
  have htoList : (toString n).toList = Nat.toDigits 10 n := String.toList_ofList
  intro hnil
  rw [ascii, htoList, List.map_eq_nil_iff] at hnil
  have hpos : 0 < (Nat.toDigits 10 n).length := Nat.length_toDigits_pos
  rw [hnil] at hpos
  exact absurd hpos (Nat.lt_irrefl 0)

theorem foldl_ascii_digits {cs : List Char} (h : ∀ c ∈ cs, c.isDigit) (init : ℕ) :
    (cs.map fun c => UInt8.ofNat c.toNat).foldl (fun n c => 10 * n + (c.toNat - 48)) init =
      Nat.ofDigitChars 10 cs init := by
  induction cs generalizing init with
  | nil => exact Nat.ofDigitChars_nil.symm
  | cons c cs ih =>
    have hvalue := (toNat_ofNat_of_isDigit (h c List.mem_cons_self)).1
    rw [List.map_cons, List.foldl_cons, ih (fun d hd => h d (List.mem_cons_of_mem c hd)), hvalue,
      Nat.ofDigitChars_cons]
    rfl

/-- A printed number is read back. -/
theorem decimal_toString (n : ℕ) : decimal (ascii (toString n)) = n := by
  have htoList : (toString n).toList = Nat.toDigits 10 n := String.toList_ofList
  have hdigits : ∀ c ∈ (toString n).toList, c.isDigit := fun c hc => isDigit_of_mem_toString hc
  rw [decimal, ascii, foldl_ascii_digits hdigits, htoList]
  exact Nat.ofDigitChars_toDigits (by omega) le_rfl

end Anon
