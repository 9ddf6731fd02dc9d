import Mathlib.Order.Defs.LinearOrder
import Mathlib.Data.Int.Order.Basic

/-!
# Points in time

`struct timespec` with the comparison operators of `time_utils.h`. They order the points in time
lexicographically, whether or not the nanoseconds are normalized. `operator+` and `operator-` carry
and borrow between the two fields.
-/

namespace Anon

structure Timespec where
  sec : ℤ
  nsec : ℤ
  deriving DecidableEq

namespace Timespec

/-- `operator<` -/
def before (spec1 spec2 : Timespec) : Bool :=
  if spec1.sec ≠ spec2.sec then spec1.sec < spec2.sec else spec1.nsec < spec2.nsec

instance : LT Timespec := ⟨fun spec1 spec2 => spec1.before spec2 = true⟩

/-- `operator<=` -/
instance : LE Timespec := ⟨fun spec1 spec2 => ¬spec2 < spec1⟩

theorem lt_iff {spec1 spec2 : Timespec} : spec1 < spec2 ↔
    spec1.sec < spec2.sec ∨ spec1.sec = spec2.sec ∧ spec1.nsec < spec2.nsec := by
  show spec1.before spec2 = true ↔ _
  unfold before
  split
  · rw [decide_eq_true_eq]
    omega
  · rw [decide_eq_true_eq]
    omega

theorem le_iff {spec1 spec2 : Timespec} : spec1 ≤ spec2 ↔
    spec1.sec < spec2.sec ∨ spec1.sec = spec2.sec ∧ spec1.nsec ≤ spec2.nsec := by
  show ¬spec2 < spec1 ↔ _
  rw [lt_iff]
  omega

instance : DecidableLT Timespec := fun spec1 spec2 =>
  inferInstanceAs (Decidable (spec1.before spec2 = true))

instance : DecidableLE Timespec := fun spec1 spec2 => inferInstanceAs (Decidable (¬spec2 < spec1))

instance : LinearOrder Timespec where
  le_refl spec := by
    rw [le_iff]
    omega
  le_trans spec1 spec2 spec3 h12 h23 := by
    rw [le_iff] at h12 h23 ⊢
    omega
  le_antisymm spec1 spec2 h12 h21 := by
    rw [le_iff] at h12 h21
    have hsec : spec1.sec = spec2.sec := by omega
    have hnsec : spec1.nsec = spec2.nsec := by omega
    cases spec1
    cases spec2
    simp only at hsec hnsec
    rw [hsec, hnsec]
  le_total spec1 spec2 := by
    rw [le_iff, le_iff]
    omega
  lt_iff_le_not_ge spec1 spec2 := by
    rw [le_iff, le_iff, lt_iff]
    omega
  toDecidableLE := inferInstance
  toDecidableEq := inferInstance
  toDecidableLT := inferInstance

/-- What the timer of the kernel takes for a point in time. -/
def Normal (spec : Timespec) : Prop := 0 ≤ spec.sec ∧ 0 ≤ spec.nsec ∧ spec.nsec < 1000000000

instance (spec : Timespec) : Decidable spec.Normal := inferInstanceAs (Decidable (_ ∧ _))

/-- The value that disarms a timer. -/
def zero : Timespec := ⟨0, 0⟩

/-- `operator+` -/
def add (spec1 spec2 : Timespec) : Timespec :=
  let spec : Timespec := ⟨spec1.sec + spec2.sec, spec1.nsec + spec2.nsec⟩
  if spec.nsec > 1000000000 then ⟨spec.sec + 1, spec.nsec - 1000000000⟩ else spec

instance : Add Timespec := ⟨add⟩

/-- `operator-` -/
def sub (spec1 spec2 : Timespec) : Timespec :=
  let sec := spec1.sec - spec2.sec
  if spec2.nsec > spec1.nsec then ⟨sec - 1, 1000000000 + spec1.nsec - spec2.nsec⟩
  else ⟨sec, spec1.nsec - spec2.nsec⟩

instance : Sub Timespec := ⟨sub⟩

end Timespec

end Anon
