import Mathlib.Data.Int.Order.Basic
import Mathlib.Logic.Function.Iterate
import Mathlib.Tactic.IntervalCases

/-!
# The calendar

Dates of the proleptic Gregorian calendar, their months counted from zero and their days from one.

* `IsLeap`, `daysInMonth`: the 4/100/400 rule, and the lengths of the months.
* `Date`: a date that exists.
* `dayNumber`: the number of a date, counted from the start of the year zero.
* `Date.next`: the day after a date, which has the next number (`dayNumber_next`).
* `Date.dayNumber_inj`: no two dates have the same number.
* `Date.iterate_next`: a date is reached from an earlier one day by day.
* `nextMonth`, `iterate_nextMonth`: months and years, counted on.
-/

namespace Anon.Calendar

/-! ## Years and months -/

/-- A leap year, by the 4/100/400 rule. -/
def IsLeap (year : ℤ) : Prop := year % 4 = 0 ∧ (year % 100 ≠ 0 ∨ year % 400 = 0)

instance (year : ℤ) : Decidable (IsLeap year) := inferInstanceAs (Decidable (_ ∧ _))

def daysInYear (year : ℤ) : ℤ := if IsLeap year then 366 else 365

/-- April, June, September and November have thirty days, February 28 or 29, the others 31. -/
def daysInMonth (year month : ℤ) : ℤ :=
  if month = 1 then if IsLeap year then 29 else 28
  else if month = 3 ∨ month = 5 ∨ month = 8 ∨ month = 10 then 30
  else 31

/-- The days from the start of the year zero to that of `year`: its leap years are the multiples
of four, less those of a hundred, and again those of four hundred. -/
def daysBeforeYear (year : ℤ) : ℤ :=
  365 * year + (year + 3) / 4 - (year + 99) / 100 + (year + 399) / 400

/-- The days from the start of `year` to that of `month`. -/
def daysBeforeMonth (year month : ℤ) : ℤ :=
  (367 * month + 5) / 12 - if month < 2 then 0 else if IsLeap year then 1 else 2

theorem daysBeforeYear_succ (year : ℤ) :
    daysBeforeYear (year + 1) = daysBeforeYear year + daysInYear year := by
  rw [daysBeforeYear, daysBeforeYear, daysInYear]
  by_cases hleap : IsLeap year
  · rw [if_pos hleap]
    unfold IsLeap at hleap
    omega
  · rw [if_neg hleap]
    unfold IsLeap at hleap
    omega

/-- Later years start later. -/
theorem daysBeforeYear_le {year year' : ℤ} (h : year ≤ year') :
    daysBeforeYear year ≤ daysBeforeYear year' := by
  rw [daysBeforeYear, daysBeforeYear]
  omega

theorem daysInMonth_bounds (year month : ℤ) :
    28 ≤ daysInMonth year month ∧ daysInMonth year month ≤ 31 := by
  rw [daysInMonth]
  split
  · split <;> omega
  · split <;> omega

/-- A month ends where the next one starts. -/
theorem daysBeforeMonth_succ {month : ℤ} (h0 : 0 ≤ month) (h12 : month < 12) (year : ℤ) :
    daysBeforeMonth year (month + 1) = daysBeforeMonth year month + daysInMonth year month := by
  rw [daysBeforeMonth, daysBeforeMonth, daysInMonth]
  by_cases hleap : IsLeap year
  · simp only [if_pos hleap]
    interval_cases month <;> decide
  · simp only [if_neg hleap]
    interval_cases month <;> decide

theorem daysBeforeMonth_twelve (year : ℤ) : daysBeforeMonth year 12 = daysInYear year := by
  rw [daysBeforeMonth, daysInYear, if_neg (by decide)]
  split <;> rfl

theorem daysBeforeMonth_zero (year : ℤ) : daysBeforeMonth year 0 = 0 := rfl

/-- Later months start later. -/
theorem daysBeforeMonth_le {month month' : ℤ} (h0 : 0 ≤ month) (h : month ≤ month') (year : ℤ) :
    daysBeforeMonth year month ≤ daysBeforeMonth year month' := by
  rw [daysBeforeMonth, daysBeforeMonth]
  by_cases hleap : IsLeap year
  · simp only [if_pos hleap]
    split <;> split <;> omega
  · simp only [if_neg hleap]
    split <;> split <;> omega

/-! ## Dates -/

/-- The number of a date, if it exists. -/
def dayNumber (year month day : ℤ) : ℤ :=
  daysBeforeYear year + daysBeforeMonth year month + (day - 1)

/-- A date that exists. -/
@[ext] structure Date where
  year : ℤ
  month : ℤ
  day : ℤ
  month_mem : 0 ≤ month ∧ month < 12
  day_mem : 1 ≤ day ∧ day ≤ daysInMonth year month
  deriving DecidableEq

namespace Date

variable {d d' : Date}

/-- The number of a date. -/
def number (d : Date) : ℤ := dayNumber d.year d.month d.day

/-- The first day of a month. -/
def first (year month : ℤ) (h : 0 ≤ month ∧ month < 12) : Date where
  year := year
  month := month
  day := 1
  month_mem := h
  day_mem := by
    have hdays := daysInMonth_bounds year month
    omega

/-- The day after a date. -/
def next (d : Date) : Date :=
  if hday : d.day < daysInMonth d.year d.month then
    { d with
      day := d.day + 1
      day_mem := by
        have hmem := d.day_mem
        omega }
  else if hmonth : d.month < 11 then
    first d.year (d.month + 1) (by
      have hmem := d.month_mem
      omega)
  else first (d.year + 1) 0 (by decide)

/-- The day after a date has the next number. -/
theorem number_next (d : Date) : d.next.number = d.number + 1 := by
  obtain ⟨hday1, hdays⟩ := d.day_mem
  obtain ⟨hmonth0, hmonth12⟩ := d.month_mem
  have hsucc := daysBeforeMonth_succ hmonth0 hmonth12 d.year
  rw [next]
  split
  · show dayNumber d.year d.month (d.day + 1) = dayNumber d.year d.month d.day + 1
    rw [dayNumber, dayNumber]
    omega
  · next hlast =>
    have hday : d.day = daysInMonth d.year d.month := by omega
    split
    · -- the first day of the next month
      show dayNumber d.year (d.month + 1) 1 = dayNumber d.year d.month d.day + 1
      rw [dayNumber, dayNumber]
      omega
    · next hdecember =>
      -- the first day of the next year
      have hmonth : d.month + 1 = 12 := by omega
      have hyear := daysBeforeYear_succ d.year
      rw [hmonth, daysBeforeMonth_twelve] at hsucc
      show dayNumber (d.year + 1) 0 1 = dayNumber d.year d.month d.day + 1
      rw [dayNumber, dayNumber, daysBeforeMonth_zero]
      omega

/-- A date is in its month. -/
theorem number_mem_month (d : Date) :
    daysBeforeYear d.year + daysBeforeMonth d.year d.month ≤ d.number ∧
      d.number < daysBeforeYear d.year + daysBeforeMonth d.year (d.month + 1) := by
  obtain ⟨hday1, hdays⟩ := d.day_mem
  rw [daysBeforeMonth_succ d.month_mem.1 d.month_mem.2, number, dayNumber]
  omega

/-- A date is in its year. -/
theorem number_mem_year (d : Date) :
    daysBeforeYear d.year ≤ d.number ∧ d.number < daysBeforeYear (d.year + 1) := by
  obtain ⟨hmonth0, hmonth12⟩ := d.month_mem
  obtain ⟨hstart, hend⟩ := d.number_mem_month
  have hfirst := daysBeforeMonth_le (Int.le_refl 0) hmonth0 d.year
  have hlast := daysBeforeMonth_le (show 0 ≤ d.month + 1 by omega)
    (show d.month + 1 ≤ 12 by omega) d.year
  rw [daysBeforeMonth_zero] at hfirst
  rw [daysBeforeMonth_twelve] at hlast
  have hyear := daysBeforeYear_succ d.year
  omega

/-- A date in an earlier year has a smaller number. -/
theorem number_lt_of_year_lt (h : d.year < d'.year) : d.number < d'.number := by
  have hend := d.number_mem_year.2
  have hstart := d'.number_mem_year.1
  have hle := daysBeforeYear_le (show d.year + 1 ≤ d'.year by omega)
  omega

theorem number_lt_of_month_lt (hyear : d.year = d'.year) (h : d.month < d'.month) :
    d.number < d'.number := by
  have hend := d.number_mem_month.2
  have hstart := d'.number_mem_month.1
  have hmonth0 := d.month_mem.1
  have hle := daysBeforeMonth_le (show 0 ≤ d.month + 1 by omega)
    (show d.month + 1 ≤ d'.month by omega) d.year
  rw [← hyear] at hstart
  omega

/-- No two dates have the same number. -/
theorem number_inj (h : d.number = d'.number) : d = d' := by
  have hyear : d.year = d'.year := by
    rcases lt_trichotomy d.year d'.year with hlt | heq | hlt
    · have hnumber := number_lt_of_year_lt hlt
      omega
    · exact heq
    · have hnumber := number_lt_of_year_lt hlt
      omega
  have hmonth : d.month = d'.month := by
    rcases lt_trichotomy d.month d'.month with hlt | heq | hlt
    · have hnumber := number_lt_of_month_lt hyear hlt
      omega
    · exact heq
    · have hnumber := number_lt_of_month_lt hyear.symm hlt
      omega
  have hday : d.day = d'.day := by
    rw [number, number, dayNumber, dayNumber, hyear, hmonth] at h
    omega
  exact Date.ext hyear hmonth hday

theorem number_iterate_next (d : Date) (n : ℕ) : (next^[n] d).number = d.number + n := by
  induction n with
  | zero =>
    show d.number = d.number + 0
    omega
  | succ n ih =>
    rw [Function.iterate_succ_apply', number_next, ih]
    omega

/-- A later date is reached day by day. -/
theorem iterate_next (h : d.number ≤ d'.number) : next^[(d'.number - d.number).toNat] d = d' := by
  apply number_inj
  rw [number_iterate_next]
  omega

end Date

/-! ## Months, counted on -/

/-- The year and the month after a month. -/
def nextMonth (p : ℤ × ℤ) : ℤ × ℤ := if p.2 < 11 then (p.1, p.2 + 1) else (p.1 + 1, 0)

/-- Counting on month by month, in one step. -/
theorem iterate_nextMonth {month : ℤ} (h0 : 0 ≤ month) (h12 : month < 12) (year : ℤ) (n : ℕ) :
    nextMonth^[n] (year, month) =
      ((year * 12 + month + n) / 12, (year * 12 + month + n) % 12) := by
  induction n with
  | zero =>
    show (year, month) = _
    rw [Prod.mk.injEq]
    omega
  | succ n ih =>
    rw [Function.iterate_succ_apply', ih, nextMonth]
    split
    · rw [Prod.mk.injEq]
      omega
    · rw [Prod.mk.injEq]
      omega

end Anon.Calendar
