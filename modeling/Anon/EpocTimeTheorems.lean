import Anon.EpocTime

/-!
# Counting on months and years

Months are counted on over the ends of years, and a day that the month does not have becomes the
last one. Years are counted on without months, with a correction for leap days that reaches other
days too.

* `MonthsLater`: the same time, some months later.
* `epocTimePlusNMonths_spec`: the time that `epoc_time_plus_n_months` gives.
* `YearsAgree`: the times for which years are counted on like twelve months each.
* `epocTimePlusNYears_eq_iff`: there, the two functions agree, and nowhere else.
-/

namespace Anon.EpocTime

open Calendar

variable {t : Tm} {epocSeconds n : ℤ}

/-- The same time of day, `n` months later, on the same day of the month or on the last one. -/
structure MonthsLater (n : ℕ) (t t' : Tm) : Prop where
  month : (t'.year, t'.mon) = nextMonth^[n] (t.year, t.mon)
  mday : t'.mday = Min.min t.mday (daysInMonth (t'.year + 1900) t'.mon)
  hour : t'.hour = t.hour
  min : t'.min = t.min
  sec : t'.sec = t.sec

/-! ## Months -/

theorem isLeapYear_iff {fullYear : ℤ} (h : 0 ≤ fullYear) :
    isLeapYear fullYear = true ↔ IsLeap fullYear := by
  rw [isLeapYear, decide_eq_true_eq, Int.tmod_eq_emod_of_nonneg h, Int.tmod_eq_emod_of_nonneg h,
    Int.tmod_eq_emod_of_nonneg h, IsLeap]

/-- The months that the `switch` names are those with 31 days. -/
theorem daysInMonth_eq {year month : ℤ} (hyear : 0 ≤ year) (hmonth : 0 ≤ month ∧ month < 12) :
    daysInMonth (year + 1900) month =
      if month = 1 then if isLeapYear (year + 1900) then 29 else 28
      else if month ∈ [0, 2, 4, 6, 7, 9, 11] then 31
      else 30 := by
  have hleap := isLeapYear_iff (show 0 ≤ year + 1900 by omega)
  rw [daysInMonth]
  by_cases hfebruary : month = 1
  · rw [if_pos hfebruary, if_pos hfebruary]
    by_cases h : IsLeap (year + 1900)
    · rw [if_pos h, if_pos (hleap.mpr h)]
    · rw [if_neg h, if_neg fun h' => h (hleap.mp h')]
  · rw [if_neg hfebruary, if_neg hfebruary]
    obtain ⟨hmonth0, hmonth12⟩ := hmonth
    simp only [List.mem_cons, List.not_mem_nil, or_false]
    split
    · rw [if_neg (by omega)]
    · rw [if_pos (by omega)]

/-- The fields after counting on `n` months. -/
theorem plusNMonths_eq (ht : t.Valid) (hn : 0 ≤ n) :
    plusNMonths t n =
      { t with
        year := (t.year * 12 + t.mon + n) / 12
        mon := (t.year * 12 + t.mon + n) % 12
        mday := Min.min t.mday (daysInMonth ((t.year * 12 + t.mon + n) / 12 + 1900)
          ((t.year * 12 + t.mon + n) % 12)) } := by
  have hyear := ht.year
  have hmon := ht.mon
  have hmonths : 0 ≤ t.year * 12 + t.mon + n := by omega
  have hdiv : (t.year * 12 + t.mon + n).tdiv 12 = (t.year * 12 + t.mon + n) / 12 :=
    Int.tdiv_eq_ediv_of_nonneg hmonths
  have hmod : (t.year * 12 + t.mon + n).tmod 12 = (t.year * 12 + t.mon + n) % 12 :=
    Int.tmod_eq_emod_of_nonneg hmonths
  have hdays := daysInMonth_eq (show 0 ≤ (t.year * 12 + t.mon + n) / 12 by omega)
    (show 0 ≤ (t.year * 12 + t.mon + n) % 12 ∧ (t.year * 12 + t.mon + n) % 12 < 12 by omega)
  unfold plusNMonths
  simp only [hdiv, hmod]
  rw [← hdays]
  split
  · next hpast => rw [min_eq_right (le_of_lt hpast)]
  · next hin => rw [min_eq_left (not_lt.mp hin)]

/-- What `epoc_time_plus_n_months` puts together exists. -/
theorem valid_plusNMonths (ht : t.Valid) (hn : 0 ≤ n) : (plusNMonths t n).Valid := by
  have hyear := ht.year
  have hmon := ht.mon
  have hmday := ht.mday
  have hdays := daysInMonth_bounds ((t.year * 12 + t.mon + n) / 12 + 1900)
    ((t.year * 12 + t.mon + n) % 12)
  rw [plusNMonths_eq ht hn]
  refine ⟨?_, ?_, ?_, ht.hour, ht.min, ht.sec⟩
  · show 70 ≤ (t.year * 12 + t.mon + n) / 12
    omega
  · show 0 ≤ (t.year * 12 + t.mon + n) % 12 ∧ (t.year * 12 + t.mon + n) % 12 < 12
    omega
  · refine ⟨?_, min_le_right _ _⟩
    exact le_min hmday.1 (by omega)

theorem monthsLater_plusNMonths (ht : t.Valid) (hn : 0 ≤ n) :
    MonthsLater n.toNat t (plusNMonths t n) := by
  have hmon := ht.mon
  have hcount : ((n.toNat : ℕ) : ℤ) = n := Int.toNat_of_nonneg hn
  rw [plusNMonths_eq ht hn]
  refine ⟨?_, rfl, rfl, rfl, rfl⟩
  rw [iterate_nextMonth hmon.1 hmon.2, hcount]

/-- Only one time is the same, `n` months later. -/
theorem MonthsLater.unique {n : ℕ} {t₁ t₂ : Tm} (h₁ : MonthsLater n t t₁)
    (h₂ : MonthsLater n t t₂) : t₁ = t₂ := by
  have hmonth := h₁.month.trans h₂.month.symm
  obtain ⟨hyear, hmon⟩ := Prod.mk.inj hmonth
  have hmday : t₁.mday = t₂.mday := by
    rw [h₁.mday, h₂.mday, hyear, hmon]
  have hhour := h₁.hour.trans h₂.hour.symm
  have hmin := h₁.min.trans h₂.min.symm
  have hsec := h₁.sec.trans h₂.sec.symm
  cases t₁
  cases t₂
  simp only at hyear hmon hmday hhour hmin hsec
  rw [hyear, hmon, hmday, hhour, hmin, hsec]

/-- `epoc_time_plus_n_months` gives the one time that is the given one, `n` months later. -/
theorem epocTimePlusNMonths_spec (conv : UtcConversion) (hs : 0 ≤ epocSeconds) (hn : 0 ≤ n) :
    0 ≤ epocTimePlusNMonths conv epocSeconds n ∧
      ∀ s, 0 ≤ s → (s = epocTimePlusNMonths conv epocSeconds n ↔
        MonthsLater n.toNat (conv.gmtimeR epocSeconds) (conv.gmtimeR s)) := by
  have ht := conv.valid_gmtimeR epocSeconds hs
  have hvalid := valid_plusNMonths ht hn
  have hlater := monthsLater_plusNMonths ht hn
  refine ⟨conv.mktime_nonneg _ hvalid, ?_⟩
  intro s hs'
  constructor
  · intro heq
    rw [heq, epocTimePlusNMonths, conv.gmtimeR_mktime _ hvalid]
    exact hlater
  · intro h
    rw [epocTimePlusNMonths, ← h.unique hlater, conv.mktime_gmtimeR s hs']

/-- One month after the last of January 1970, it is the last of February. -/
theorem epocTimePlusNMonths_january :
    MonthsLater 1 (utc.gmtimeR (30 * 86400)) (utc.gmtimeR (58 * 86400)) :=
  ((epocTimePlusNMonths_spec utc (show (0 : ℤ) ≤ 30 * 86400 by decide)
    (show (0 : ℤ) ≤ 1 by decide)).2 (58 * 86400) (by decide)).mp (by decide +kernel)

/-! ## Years -/

/-- The year that is counted on to is a leap year, or neither is the day in January, other than the
28th, nor is it the 29th, other than of February. -/
def YearsAgree (t : Tm) (numYears : ℤ) : Prop :=
  IsLeap (t.year + numYears + 1900) ∨
    (t.mon = 0 → t.mday = 28) ∧ (t.mday = 29 → t.mon = 1)

/-- The fields after counting on twelve months for each year. -/
theorem plusNMonths_twelve (ht : t.Valid) (hn : 0 ≤ n) :
    plusNMonths t (12 * n) =
      { t with
        year := t.year + n
        mday := Min.min t.mday (daysInMonth (t.year + n + 1900) t.mon) } := by
  have hmon := ht.mon
  have hyear : (t.year * 12 + t.mon + 12 * n) / 12 = t.year + n := by omega
  have hmonth : (t.year * 12 + t.mon + 12 * n) % 12 = t.mon := by omega
  rw [plusNMonths_eq ht (by omega), hyear, hmonth]

/-- The day after counting on years. -/
theorem plusNYears_eq (ht : t.Valid) (hn : 0 ≤ n) :
    plusNYears t n =
      { t with
        year := t.year + n
        mday := if (t.mon = 0 ∨ t.mday = 29) ∧ ¬IsLeap (t.year + n + 1900) then 28
          else t.mday } := by
  have hyear := ht.year
  have hleap := isLeapYear_iff (show 0 ≤ t.year + n + 1900 by omega)
  unfold plusNYears
  simp only
  by_cases hday : t.mon = 0 ∨ t.mday = 29
  · rw [if_pos hday]
    by_cases h : IsLeap (t.year + n + 1900)
    · rw [if_pos (hleap.mpr h), if_neg fun hboth => hboth.2 h]
    · rw [if_neg fun h' => h (hleap.mp h'), if_pos ⟨hday, h⟩]
  · rw [if_neg hday, if_neg fun hboth => hday hboth.1]

theorem daysInMonth_february (year : ℤ) :
    daysInMonth year 1 = if IsLeap year then 29 else 28 := by
  rw [daysInMonth, if_pos rfl]

/-- The other months are always as long, and longer. -/
theorem daysInMonth_of_ne {month : ℤ} (h : month ≠ 1) (year year' : ℤ) :
    daysInMonth year month = daysInMonth year' month ∧ 30 ≤ daysInMonth year' month := by
  rw [daysInMonth, daysInMonth, if_neg h, if_neg h]
  refine ⟨rfl, ?_⟩
  split <;> omega

/-- The days agree under the condition, and only then. -/
theorem mday_eq_iff (ht : t.Valid) (n : ℤ) :
    (if (t.mon = 0 ∨ t.mday = 29) ∧ ¬IsLeap (t.year + n + 1900) then 28 else t.mday) =
      Min.min t.mday (daysInMonth (t.year + n + 1900) t.mon) ↔ YearsAgree t n := by
  obtain ⟨hmday1, hmday⟩ := ht.mday
  by_cases hfebruary : t.mon = 1
  · -- in February, a 29th is the only day that a year may not have
    have hagree : YearsAgree t n := by
      right
      omega
    rw [hfebruary, daysInMonth_february] at hmday
    rw [hfebruary, daysInMonth_february]
    refine iff_of_true ?_ hagree
    have hshort : t.mday ≤ 29 := by
      split at hmday <;> omega
    by_cases hleap : IsLeap (t.year + n + 1900)
    · rw [if_neg fun hboth => hboth.2 hleap, if_pos hleap]
      omega
    · simp only [hleap, not_false_eq_true, and_true, if_false]
      split <;> omega
  · -- in the other months, every day is there in every year
    obtain ⟨hdays, hlong⟩ := daysInMonth_of_ne hfebruary (t.year + 1900) (t.year + n + 1900)
    rw [min_eq_left (by omega), YearsAgree]
    by_cases hleap : IsLeap (t.year + n + 1900)
    · rw [if_neg fun hboth => hboth.2 hleap]
      exact iff_of_true rfl (Or.inl hleap)
    · rw [or_iff_right hleap]
      simp only [hleap, not_false_eq_true, and_true]
      split <;> omega

/-- What `epoc_time_plus_n_years` puts together exists. -/
theorem valid_plusNYears (ht : t.Valid) (hn : 0 ≤ n) : (plusNYears t n).Valid := by
  have hyear := ht.year
  obtain ⟨hmday1, hmday⟩ := ht.mday
  have hbounds := daysInMonth_bounds (t.year + n + 1900) t.mon
  rw [plusNYears_eq ht hn]
  refine ⟨?_, ht.mon, ?_, ht.hour, ht.min, ht.sec⟩
  · show 70 ≤ t.year + n
    omega
  · show 1 ≤ (if _ then 28 else t.mday) ∧
      (if _ then 28 else t.mday) ≤ daysInMonth (t.year + n + 1900) t.mon
    split
    · omega
    · next hkept =>
      refine ⟨hmday1, ?_⟩
      by_cases hfebruary : t.mon = 1
      · rw [hfebruary, daysInMonth_february] at hmday ⊢
        by_cases hleap : IsLeap (t.year + n + 1900)
        · rw [if_pos hleap]
          split at hmday <;> omega
        · have hnot : t.mday ≠ 29 := fun h => hkept ⟨Or.inr h, hleap⟩
          rw [if_neg hleap]
          split at hmday <;> omega
      · rw [(daysInMonth_of_ne hfebruary (t.year + n + 1900) (t.year + 1900)).1]
        exact hmday

/-- The two functions agree under the condition, and only then. -/
theorem epocTimePlusNYears_eq_iff (conv : UtcConversion) (hs : 0 ≤ epocSeconds) (hn : 0 ≤ n) :
    epocTimePlusNYears conv epocSeconds n = epocTimePlusNMonths conv epocSeconds (12 * n) ↔
      YearsAgree (conv.gmtimeR epocSeconds) n := by
  have ht := conv.valid_gmtimeR epocSeconds hs
  have hyears := valid_plusNYears ht hn
  have hmonths := valid_plusNMonths ht (show 0 ≤ 12 * n by omega)
  rw [← mday_eq_iff ht, epocTimePlusNYears, epocTimePlusNMonths]
  constructor
  · intro heq
    -- what was put together is taken apart again
    have htm := congrArg conv.gmtimeR heq
    rw [conv.gmtimeR_mktime _ hyears, conv.gmtimeR_mktime _ hmonths, plusNYears_eq ht hn,
      plusNMonths_twelve ht hn] at htm
    exact congrArg Tm.mday htm
  · intro hmday
    rw [plusNYears_eq ht hn, plusNMonths_twelve ht hn, hmday]

/-- Two years after the 15th of January 1970, it is the 15th of January of a leap year. -/
theorem epocTimePlusNYears_leap :
    epocTimePlusNYears utc (14 * 86400) 2 = epocTimePlusNMonths utc (14 * 86400) (12 * 2) := by
  apply (epocTimePlusNYears_eq_iff utc (by decide) (by decide)).mpr
  show IsLeap _ ∨ _
  decide +kernel

/-- A year after the 15th of January 1970, it is the 28th of January. -/
theorem january_of_common_year :
    epocTimePlusNYears utc (14 * 86400) 1 = (365 + 27) * 86400 ∧
      epocTimePlusNMonths utc (14 * 86400) 12 = (365 + 14) * 86400 := by
  decide +kernel

end Anon.EpocTime
