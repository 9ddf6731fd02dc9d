import Anon.Lib.Calendar

/-!
# Months and years from a point in time

`epoc_time_plus_n_months` and `epoc_time_plus_n_years` of `time_utils.h`. Both take a time apart,
count on, and put it together again.

* `Tm`: a time, taken apart.
* `UtcConversion`: `gmtime_r` and `mktime`, exact inverses of each other where the local time is
  UTC.
* `epocTimePlusNMonths`, `epocTimePlusNYears`: the two functions.
-/

namespace Anon.EpocTime

open Calendar

/-- The fields of a `struct tm` that the functions and `mktime` use. -/
structure Tm where
  sec : ℤ
  min : ℤ
  hour : ℤ
  mday : ℤ
  mon : ℤ
  /-- Counted from 1900. -/
  year : ℤ
  deriving DecidableEq

/-- A time that exists, from 1970 on. -/
structure Tm.Valid (t : Tm) : Prop where
  year : 70 ≤ t.year
  mon : 0 ≤ t.mon ∧ t.mon < 12
  mday : 1 ≤ t.mday ∧ t.mday ≤ daysInMonth (t.year + 1900) t.mon
  hour : 0 ≤ t.hour ∧ t.hour < 24
  min : 0 ≤ t.min ∧ t.min < 60
  sec : 0 ≤ t.sec ∧ t.sec < 60

/-- The conversions of the C library, on UTC. -/
structure UtcConversion where
  gmtimeR : ℤ → Tm
  mktime : Tm → ℤ
  valid_gmtimeR : ∀ s, 0 ≤ s → (gmtimeR s).Valid
  mktime_gmtimeR : ∀ s, 0 ≤ s → mktime (gmtimeR s) = s
  mktime_nonneg : ∀ t : Tm, t.Valid → 0 ≤ mktime t
  gmtimeR_mktime : ∀ t : Tm, t.Valid → gmtimeR (mktime t) = t

/-- `is_leap_year` -/
def isLeapYear (fullYear : ℤ) : Bool :=
  fullYear.tmod 4 = 0 ∧ (fullYear.tmod 100 ≠ 0 ∨ fullYear.tmod 400 = 0)

/-- What `epoc_time_plus_n_months` does between the conversions. -/
def plusNMonths (t : Tm) (numMonths : ℤ) : Tm :=
  let months := t.year * 12 + t.mon + numMonths
  let year := months.tdiv 12
  let month := months.tmod 12
  let ndaysInMonth :=
    if month = 1 then
      -- careful with february
      if isLeapYear (year + 1900) then 29 else 28
    else if month ∈ [0, 2, 4, 6, 7, 9, 11] then 31
    else 30
  let t := { t with mon := month, year := year }
  if t.mday > ndaysInMonth then { t with mday := ndaysInMonth } else t

/-- `epoc_time_plus_n_months` -/
def epocTimePlusNMonths (conv : UtcConversion) (epocSeconds numMonths : ℤ) : ℤ :=
  conv.mktime (plusNMonths (conv.gmtimeR epocSeconds) numMonths)

/-- What `epoc_time_plus_n_years` does between the conversions. -/
def plusNYears (t : Tm) (numYears : ℤ) : Tm :=
  let t := { t with year := t.year + numYears }
  if t.mon = 0 ∨ t.mday = 29 then
    if isLeapYear (t.year + 1900) then t else { t with mday := 28 }
  else t

/-- `epoc_time_plus_n_years` -/
def epocTimePlusNYears (conv : UtcConversion) (epocSeconds numYears : ℤ) : ℤ :=
  conv.mktime (plusNYears (conv.gmtimeR epocSeconds) numYears)

/-! ## A conversion -/

theorem january_mem : (0 : ℤ) ≤ 0 ∧ (0 : ℤ) < 12 := ⟨le_rfl, by omega⟩

/-- The first of January 1970. -/
def epoch : Date := Date.first 1970 0 january_mem

/-- The date and the time of day, `s` seconds after the epoch. -/
def utcGmtimeR (s : ℤ) : Tm :=
  let date := Date.next^[(s / 86400).toNat] epoch
  let rest := s % 86400
  { sec := rest % 60, min := rest / 60 % 60, hour := rest / 3600,
    mday := date.day, mon := date.month, year := date.year - 1900 }

/-- The seconds from the epoch to a time. -/
def utcMktime (t : Tm) : ℤ :=
  (dayNumber (t.year + 1900) t.mon t.mday - epoch.number) * 86400 +
    t.hour * 3600 + t.min * 60 + t.sec

variable {d : Date} {t : Tm}

/-- The dates from the epoch on are those from the year 1970 on. -/
theorem epoch_number_le (h : 1970 ≤ d.year) : epoch.number ≤ d.number := by
  have hstart := d.number_mem_year.1
  have hle := daysBeforeYear_le h
  have hepoch : epoch.number = daysBeforeYear 1970 := by decide
  omega

theorem year_of_epoch_number_le (h : epoch.number ≤ d.number) : 1970 ≤ d.year := by
  by_contra hyear
  have hlt : d.number < epoch.number :=
    Date.number_lt_of_year_lt (show d.year < 1970 from not_le.mp hyear)
  omega

/-- The date of a time that exists. -/
def Tm.Valid.date (h : t.Valid) : Date where
  year := t.year + 1900
  month := t.mon
  day := t.mday
  month_mem := h.mon
  day_mem := h.mday

theorem Tm.Valid.epoch_number_le (h : t.Valid) : epoch.number ≤ h.date.number := by
  apply EpocTime.epoch_number_le
  have hyear := h.year
  show 1970 ≤ t.year + 1900
  omega

theorem utcMktime_eq (h : t.Valid) : utcMktime t =
    (h.date.number - epoch.number) * 86400 + t.hour * 3600 + t.min * 60 + t.sec := rfl

/-- The number of the date, `s` seconds after the epoch. -/
theorem number_utcGmtimeR {s : ℤ} (hs : 0 ≤ s) :
    (Date.next^[(s / 86400).toNat] epoch).number = epoch.number + s / 86400 := by
  rw [Date.number_iterate_next]
  omega

/-- What is taken apart is a time that exists. -/
theorem valid_utcGmtimeR {s : ℤ} (hs : 0 ≤ s) : (utcGmtimeR s).Valid := by
  have hnumber := number_utcGmtimeR hs
  have hyear := year_of_epoch_number_le (show epoch.number ≤ _ by rw [hnumber]; omega)
  obtain ⟨date, hdate⟩ : ∃ date, date = Date.next^[(s / 86400).toNat] epoch := ⟨_, rfl⟩
  rw [← hdate] at hyear
  rw [utcGmtimeR, ← hdate]
  refine ⟨?_, date.month_mem, ?_, ?_, ?_, ?_⟩
  · show 70 ≤ date.year - 1900
    omega
  · show 1 ≤ date.day ∧ date.day ≤ daysInMonth (date.year - 1900 + 1900) date.month
    rw [Int.sub_add_cancel]
    exact date.day_mem
  · show 0 ≤ s % 86400 / 3600 ∧ s % 86400 / 3600 < 24
    omega
  · show 0 ≤ s % 86400 / 60 % 60 ∧ s % 86400 / 60 % 60 < 60
    omega
  · show 0 ≤ s % 86400 % 60 ∧ s % 86400 % 60 < 60
    omega

theorem utcMktime_utcGmtimeR {s : ℤ} (hs : 0 ≤ s) : utcMktime (utcGmtimeR s) = s := by
  have hnumber := number_utcGmtimeR hs
  obtain ⟨date, hdate⟩ : ∃ date, date = Date.next^[(s / 86400).toNat] epoch := ⟨_, rfl⟩
  rw [← hdate, Date.number] at hnumber
  rw [utcGmtimeR, ← hdate, utcMktime]
  show (dayNumber (date.year - 1900 + 1900) date.month date.day - epoch.number) * 86400 +
    s % 86400 / 3600 * 3600 + s % 86400 / 60 % 60 * 60 + s % 86400 % 60 = s
  rw [Int.sub_add_cancel, hnumber]
  omega

theorem utcMktime_nonneg (ht : t.Valid) : 0 ≤ utcMktime t := by
  have hepoch := ht.epoch_number_le
  have hhour := ht.hour
  have hmin := ht.min
  have hsec := ht.sec
  rw [utcMktime_eq ht]
  omega

theorem utcGmtimeR_utcMktime (ht : t.Valid) : utcGmtimeR (utcMktime t) = t := by
  have hepoch := ht.epoch_number_le
  have hhour := ht.hour
  have hmin := ht.min
  have hsec := ht.sec
  have hs := utcMktime_eq ht
  have hday : utcMktime t / 86400 = ht.date.number - epoch.number := by omega
  have hrest : utcMktime t % 86400 = t.hour * 3600 + t.min * 60 + t.sec := by omega
  have hdate : Date.next^[(utcMktime t / 86400).toNat] epoch = ht.date := by
    rw [hday]
    exact Date.iterate_next hepoch
  rw [utcGmtimeR, hdate, hrest]
  show Tm.mk ((t.hour * 3600 + t.min * 60 + t.sec) % 60)
    ((t.hour * 3600 + t.min * 60 + t.sec) / 60 % 60)
    ((t.hour * 3600 + t.min * 60 + t.sec) / 3600) t.mday t.mon (t.year + 1900 - 1900) = t
  have hsec' : (t.hour * 3600 + t.min * 60 + t.sec) % 60 = t.sec := by omega
  have hmin' : (t.hour * 3600 + t.min * 60 + t.sec) / 60 % 60 = t.min := by omega
  have hhour' : (t.hour * 3600 + t.min * 60 + t.sec) / 3600 = t.hour := by omega
  rw [hsec', hmin', hhour', Int.add_sub_cancel]

/-- The conversions by the calendar. -/
def utc : UtcConversion where
  gmtimeR := utcGmtimeR
  mktime := utcMktime
  valid_gmtimeR _ := valid_utcGmtimeR
  mktime_gmtimeR _ := utcMktime_utcGmtimeR
  mktime_nonneg _ := utcMktime_nonneg
  gmtimeR_mktime _ := utcGmtimeR_utcMktime

end Anon.EpocTime
