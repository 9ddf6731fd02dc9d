import Anon.Timespec

/-!
# Sums and differences of points in time

A normalized `timespec` is a number of nanoseconds, written in seconds and the rest. `operator+`
carries a second over only if the nanoseconds add up to more than one, not if they add up to
exactly one.

* `Exact`: the operators compute with the numbers of nanoseconds.
* `sleepDur`, `wakeTime`: when `io_params::msleep` wakes a fiber.
* `exact_iff`: the operands of exact operations, and the wake-up times that the timer takes.
-/

namespace Anon.Timespec

variable {a b now : Timespec} {milliseconds : ℤ}

/-- The number of nanoseconds that a `timespec` denotes. -/
def nanos (spec : Timespec) : ℤ := spec.sec * 1000000000 + spec.nsec

/-- The nanoseconds are less than a second. -/
def Normalized (spec : Timespec) : Prop := 0 ≤ spec.nsec ∧ spec.nsec < 1000000000

instance (spec : Timespec) : Decidable spec.Normalized := inferInstanceAs (Decidable (_ ∧ _))

/-- The operators compute with the numbers of nanoseconds. -/
structure Exact (a b : Timespec) : Prop where
  add_normalized : (a + b).Normalized
  add_nanos : (a + b).nanos = a.nanos + b.nanos
  sub_normalized : (a - b).Normalized
  sub_nanos : (a - b).nanos = a.nanos - b.nanos
  add_sub : a + b - b = a
  eq_iff : a = b ↔ a.nanos = b.nanos
  lt_iff : a < b ↔ a.nanos < b.nanos
  le_iff : a ≤ b ↔ a.nanos ≤ b.nanos

/-! ## Comparison -/

theorem eq_iff_fields : a = b ↔ a.sec = b.sec ∧ a.nsec = b.nsec := by
  constructor
  · intro h
    rw [h]
    exact ⟨rfl, rfl⟩
  · intro h
    cases a
    cases b
    simp only at h
    rw [h.1, h.2]

/-- Normalized points in time are ordered as the numbers that they denote. -/
theorem lt_iff_nanos (ha : a.Normalized) (hb : b.Normalized) : a < b ↔ a.nanos < b.nanos := by
  obtain ⟨ha0, ha1⟩ := ha
  obtain ⟨hb0, hb1⟩ := hb
  rw [Timespec.lt_iff, nanos, nanos]
  omega

theorem le_iff_nanos (ha : a.Normalized) (hb : b.Normalized) : a ≤ b ↔ a.nanos ≤ b.nanos := by
  rw [← not_lt, lt_iff_nanos hb ha]
  omega

theorem eq_iff_nanos (ha : a.Normalized) (hb : b.Normalized) : a = b ↔ a.nanos = b.nanos := by
  obtain ⟨ha0, ha1⟩ := ha
  obtain ⟨hb0, hb1⟩ := hb
  rw [eq_iff_fields, nanos, nanos]
  omega

/-! ## Sums -/

theorem add_of_lt (h : 1000000000 < a.nsec + b.nsec) :
    a + b = ⟨a.sec + b.sec + 1, a.nsec + b.nsec - 1000000000⟩ := by
  show add a b = _
  rw [add, if_pos h]

theorem add_of_le (h : a.nsec + b.nsec ≤ 1000000000) :
    a + b = ⟨a.sec + b.sec, a.nsec + b.nsec⟩ := by
  show add a b = _
  rw [add, if_neg (not_lt.mpr h)]

/-- A sum denotes the sum, carried over or not. -/
theorem nanos_add (a b : Timespec) : (a + b).nanos = a.nanos + b.nanos := by
  by_cases h : 1000000000 < a.nsec + b.nsec
  · rw [add_of_lt h, nanos, nanos, nanos]
    show (a.sec + b.sec + 1) * 1000000000 + (a.nsec + b.nsec - 1000000000) = _
    omega
  · rw [add_of_le (not_lt.mp h), nanos, nanos, nanos]
    show (a.sec + b.sec) * 1000000000 + (a.nsec + b.nsec) = _
    omega

/-- A sum is normalized unless the nanoseconds add up to exactly a second. -/
theorem normalized_add_iff (ha : a.Normalized) (hb : b.Normalized) :
    (a + b).Normalized ↔ a.nsec + b.nsec ≠ 1000000000 := by
  obtain ⟨ha0, ha1⟩ := ha
  obtain ⟨hb0, hb1⟩ := hb
  by_cases h : 1000000000 < a.nsec + b.nsec
  · rw [add_of_lt h, Normalized]
    show 0 ≤ a.nsec + b.nsec - 1000000000 ∧ a.nsec + b.nsec - 1000000000 < 1000000000 ↔ _
    omega
  · rw [add_of_le (not_lt.mp h), Normalized]
    show 0 ≤ a.nsec + b.nsec ∧ a.nsec + b.nsec < 1000000000 ↔ _
    omega

/-! ## Differences -/

theorem sub_of_lt (h : a.nsec < b.nsec) :
    a - b = ⟨a.sec - b.sec - 1, 1000000000 + a.nsec - b.nsec⟩ := by
  show sub a b = _
  rw [sub, if_pos h]

theorem sub_of_le (h : b.nsec ≤ a.nsec) : a - b = ⟨a.sec - b.sec, a.nsec - b.nsec⟩ := by
  show sub a b = _
  rw [sub, if_neg (not_lt.mpr h)]

/-- A difference denotes the difference, with a borrowed second or without. -/
theorem nanos_sub (a b : Timespec) : (a - b).nanos = a.nanos - b.nanos := by
  by_cases h : a.nsec < b.nsec
  · rw [sub_of_lt h, nanos, nanos, nanos]
    show (a.sec - b.sec - 1) * 1000000000 + (1000000000 + a.nsec - b.nsec) = _
    omega
  · rw [sub_of_le (not_lt.mp h), nanos, nanos, nanos]
    show (a.sec - b.sec) * 1000000000 + (a.nsec - b.nsec) = _
    omega

theorem normalized_sub (ha : a.Normalized) (hb : b.Normalized) : (a - b).Normalized := by
  obtain ⟨ha0, ha1⟩ := ha
  obtain ⟨hb0, hb1⟩ := hb
  by_cases h : a.nsec < b.nsec
  · rw [sub_of_lt h, Normalized]
    show 0 ≤ 1000000000 + a.nsec - b.nsec ∧ 1000000000 + a.nsec - b.nsec < 1000000000
    omega
  · rw [sub_of_le (not_lt.mp h), Normalized]
    show 0 ≤ a.nsec - b.nsec ∧ a.nsec - b.nsec < 1000000000
    omega

/-- What was added is taken off again, also from a sum that is not normalized. -/
theorem add_sub_self (ha : a.Normalized) (hb : b.Normalized) : a + b - b = a := by
  obtain ⟨ha0, ha1⟩ := ha
  obtain ⟨hb0, hb1⟩ := hb
  by_cases h : 1000000000 < a.nsec + b.nsec
  · rw [add_of_lt h, sub_of_lt (by show a.nsec + b.nsec - 1000000000 < b.nsec; omega),
      eq_iff_fields]
    show a.sec + b.sec + 1 - b.sec - 1 = a.sec ∧
      1000000000 + (a.nsec + b.nsec - 1000000000) - b.nsec = a.nsec
    omega
  · rw [add_of_le (not_lt.mp h), sub_of_le (by show b.nsec ≤ a.nsec + b.nsec; omega),
      eq_iff_fields]
    show a.sec + b.sec - b.sec = a.sec ∧ a.nsec + b.nsec - b.nsec = a.nsec
    omega

/-! ## Sleeping -/

/-- `sleep_dur_`, as `io_params::msleep` sets it. -/
def sleepDur (milliseconds : ℤ) : Timespec :=
  let sec := milliseconds.tdiv 1000
  ⟨sec, (milliseconds - sec * 1000) * 1000000⟩

/-- When `wake_all` schedules the task that wakes the fiber. -/
def wakeTime (now : Timespec) (milliseconds : ℤ) : Timespec := now + sleepDur milliseconds

theorem sleepDur_eq (h : 0 ≤ milliseconds) :
    sleepDur milliseconds = ⟨milliseconds / 1000, milliseconds % 1000 * 1000000⟩ := by
  have hdiv : milliseconds.tdiv 1000 = milliseconds / 1000 := Int.tdiv_eq_ediv_of_nonneg h
  rw [sleepDur, hdiv, eq_iff_fields]
  refine ⟨rfl, ?_⟩
  show (milliseconds - milliseconds / 1000 * 1000) * 1000000 = milliseconds % 1000 * 1000000
  omega

theorem normal_iff : a.Normal ↔ 0 ≤ a.sec ∧ a.Normalized := Iff.rfl

/-- The timer takes a wake-up time unless the nanoseconds add up to exactly a second. -/
theorem normal_wakeTime_iff (hnow : now.Normal) (h : 0 ≤ milliseconds) :
    (wakeTime now milliseconds).Normal ↔
      now.nsec + milliseconds % 1000 * 1000000 ≠ 1000000000 := by
  obtain ⟨hsec, hnsec⟩ := normal_iff.mp hnow
  have hdur : (sleepDur milliseconds).Normalized := by
    rw [sleepDur_eq h, Normalized]
    show 0 ≤ milliseconds % 1000 * 1000000 ∧ milliseconds % 1000 * 1000000 < 1000000000
    omega
  have hnonneg : 0 ≤ (wakeTime now milliseconds).sec := by
    rw [wakeTime, sleepDur_eq h]
    show 0 ≤ (add _ _).sec
    rw [add]
    split
    · show 0 ≤ now.sec + milliseconds / 1000 + 1
      omega
    · show 0 ≤ now.sec + milliseconds / 1000
      omega
  rw [normal_iff, and_iff_right hnonneg, wakeTime, normalized_add_iff hnsec hdur, sleepDur_eq h]

/-! ## Exact operations -/

/-- The operators on two normalized points in time are exact, and the timer takes the wake-up time
of a fiber that sleeps, exactly if the nanoseconds do not add up to exactly a second. -/
theorem exact_iff (ha : a.Normalized) (hb : b.Normalized) (hnow : now.Normal)
    (hmilliseconds : 0 ≤ milliseconds) :
    (Exact a b ↔ a.nsec + b.nsec ≠ 1000000000) ∧
      ((wakeTime now milliseconds).Normal ↔
        now.nsec + milliseconds % 1000 * 1000000 ≠ 1000000000) := by
  refine ⟨?_, normal_wakeTime_iff hnow hmilliseconds⟩
  constructor
  · intro h
    exact (normalized_add_iff ha hb).mp h.add_normalized
  · intro h
    refine ⟨?_, nanos_add a b, normalized_sub ha hb, nanos_sub a b, add_sub_self ha hb,
      eq_iff_nanos ha hb, lt_iff_nanos ha hb, le_iff_nanos ha hb⟩
    exact (normalized_add_iff ha hb).mpr h

theorem exact_half_seconds :
    Exact ⟨1, 500000000⟩ ⟨2, 499999999⟩ ∧ (wakeTime ⟨1, 500000000⟩ 2499).Normal := by
  have hiff := exact_iff (a := ⟨1, 500000000⟩) (b := ⟨2, 499999999⟩) (by decide) (by decide)
    (show (⟨1, 500000000⟩ : Timespec).Normal by decide) (show (0 : ℤ) ≤ 2499 by decide)
  exact ⟨hiff.1.mpr (by decide), hiff.2.mpr (by decide)⟩

/-- Two half seconds do not make a second, and a fiber that sleeps for half a second from one on
would be woken at a time that the timer does not take. -/
theorem half_seconds_not_carried :
    ¬Exact ⟨1, 500000000⟩ ⟨2, 500000000⟩ ∧
      (⟨1, 500000000⟩ + ⟨2, 500000000⟩ : Timespec) = ⟨3, 1000000000⟩ ∧
      ¬(wakeTime ⟨1, 500000000⟩ 2500).Normal := by
  have hsum : (⟨1, 500000000⟩ + ⟨2, 500000000⟩ : Timespec) = ⟨3, 1000000000⟩ := by decide
  refine ⟨?_, hsum, by decide⟩
  intro h
  have hnormalized := h.add_normalized
  rw [hsum] at hnormalized
  exact absurd hnormalized (by decide)

end Anon.Timespec
