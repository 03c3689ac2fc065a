import Mathlib

namespace RiscvWorkshop.Gregorian

/-!
# The Gregorian calendar

Days are counted from the first of January of the year 1, and months from 0.
Years and days go on in both directions.
-/

/-- Every fourth year is a leap year, except for three of four centuries. -/
def isLeap (year : Int) : Bool :=
  year % 4 = 0 ∧ (year % 100 ≠ 0 ∨ year % 400 = 0)

/-- The day that a leap year has more. -/
def leapDay (year : Int) : Int :=
  if isLeap year then 1 else 0

/-- The days before a year. -/
def daysBeforeYear (year : Int) : Int :=
  365 * (year - 1) + (year - 1) / 4 - (year - 1) / 100 + (year - 1) / 400

/-- The lengths of the months. -/
def monthLength (year month : Int) : Int :=
  if month = 1 then
    28 + leapDay year
  else if month = 3 ∨ month = 5 ∨ month = 8 ∨ month = 10 then
    30
  else
    31

/-- The days of a year before a month. -/
def daysBeforeMonth (year month : Int) : Int :=
  ([0, 31, 59, 90, 120, 151, 181, 212, 243, 273, 304, 334] : List Int).getD
      month.toNat 365 +
    if 2 ≤ month then leapDay year else 0

/-- The number of a day; other days may be given than those of the month. -/
def dayNumber (year month day : Int) : Int :=
  daysBeforeYear year + daysBeforeMonth year month + day - 1

/-- The day of the week, from Sunday on. -/
def weekday (number : Int) : Int :=
  (number + 1) % 7

/-- A day of a month of a year. -/
structure IsDate (year month day : Int) : Prop where
  inYear : 0 ≤ month ∧ month ≤ 11
  inMonth : 1 ≤ day ∧ day ≤ monthLength year month

section Calendar

variable {year month day otherYear otherMonth otherDay : Int}

theorem leapDay_eq :
    leapDay year =
      if year % 4 = 0 ∧ (year % 100 ≠ 0 ∨ year % 400 = 0) then 1 else 0 := by
  simp [leapDay, isLeap]

theorem leapDay_bounds :
    0 ≤ leapDay year ∧ leapDay year ≤ 1 := by
  rw [leapDay]
  split <;> decide

/-- A year has 365 days, and a leap year one more. -/
theorem daysBeforeYear_succ :
    daysBeforeYear (year + 1) = daysBeforeYear year + 365 + leapDay year := by
  rw [daysBeforeYear, daysBeforeYear, leapDay_eq]
  split
  case isTrue leap => omega
  case isFalse common => omega

/-- The days up to the leap day of a year. -/
theorem daysBeforeYear_leapDay :
    daysBeforeYear year + leapDay year =
      365 * (year - 1) + year / 4 - year / 100 + year / 400 := by
  rw [daysBeforeYear, leapDay_eq]
  split
  case isTrue leap => omega
  case isFalse common => omega

/-- Twelve months make a year, of which each begins behind the one before. -/
theorem daysBeforeMonth_succ
    (inYear : 0 ≤ month ∧ month ≤ 11) :
    daysBeforeMonth year (month + 1) =
      daysBeforeMonth year month + monthLength year month := by
  obtain ⟨low, high⟩ := inYear
  interval_cases month <;> simp [daysBeforeMonth, monthLength] <;> ring

theorem daysBeforeMonth_zero :
    daysBeforeMonth year 0 = 0 := by
  simp [daysBeforeMonth]

theorem daysBeforeMonth_twelve :
    daysBeforeMonth year 12 = 365 + leapDay year := by
  simp [daysBeforeMonth]

/-- The days before a month, by a division. -/
theorem daysBeforeMonth_eq
    (low : 0 ≤ month)
    (high : month ≤ 12) :
    daysBeforeMonth year month =
      (367 * month + 5) / 12 + if 2 ≤ month then leapDay year - 2 else 0 := by
  interval_cases month <;> simp [daysBeforeMonth] <;> ring

/-- An earlier month ends before a later one begins. -/
theorem daysBeforeMonth_le
    (low : 0 ≤ month)
    (less : month < otherMonth)
    (high : otherMonth ≤ 12) :
    daysBeforeMonth year (month + 1) ≤ daysBeforeMonth year otherMonth := by
  obtain ⟨some_day, one⟩ := @leapDay_bounds year
  rw [daysBeforeMonth_eq (by omega) (by omega),
    daysBeforeMonth_eq (by omega) high]
  split <;> split <;> omega

/-- An earlier year ends before a later one begins. -/
theorem daysBeforeYear_le
    (less : year < otherYear) :
    daysBeforeYear (year + 1) ≤ daysBeforeYear otherYear := by
  rw [daysBeforeYear, daysBeforeYear]
  omega

/-- The day of a date within its year. -/
theorem IsDate.dayOfYear
    (date : IsDate year month day) :
    0 ≤ daysBeforeMonth year month + day - 1 ∧
      daysBeforeMonth year month + day - 1 < 365 + leapDay year := by
  obtain ⟨low, high⟩ := date.inYear
  obtain ⟨first, last⟩ := date.inMonth
  have next := @daysBeforeMonth_succ year _ date.inYear
  have start : 0 ≤ daysBeforeMonth year month := by
    obtain ⟨some_day, one⟩ := @leapDay_bounds year
    rw [daysBeforeMonth_eq low (by omega)]
    split <;> omega
  have ending : daysBeforeMonth year (month + 1) ≤ 365 + leapDay year := by
    rw [← daysBeforeMonth_twelve]
    rcases Int.lt_or_eq_of_le high with before | rfl
    · exact daysBeforeMonth_le low (by omega) le_rfl
    · exact le_rfl
  omega

/-- Different dates have different numbers. -/
theorem IsDate.unique
    (date : IsDate year month day)
    (other : IsDate otherYear otherMonth otherDay)
    (same : dayNumber year month day =
      dayNumber otherYear otherMonth otherDay) :
    year = otherYear ∧ month = otherMonth ∧ day = otherDay := by
  rw [dayNumber, dayNumber] at same
  have inYear := date.dayOfYear
  have otherInYear := other.dayOfYear
  have next := @daysBeforeYear_succ year
  have otherNext := @daysBeforeYear_succ otherYear
  rcases Int.lt_trichotomy year otherYear with less | rfl | more
  · have ordered := daysBeforeYear_le less
    omega
  · have nextMonth := @daysBeforeMonth_succ year _ date.inYear
    have otherNextMonth := @daysBeforeMonth_succ year _ other.inYear
    have inMonth := date.inMonth
    have otherInMonth := other.inMonth
    refine ⟨rfl, ?_⟩
    rcases Int.lt_trichotomy month otherMonth with less | rfl | more
    · have ordered :=
        @daysBeforeMonth_le year _ _ date.inYear.1 less
          (other.inYear.2.trans (by decide))
      omega
    · exact ⟨rfl, by omega⟩
    · have ordered :=
        @daysBeforeMonth_le year _ _ other.inYear.1 more
          (date.inYear.2.trans (by decide))
      omega
  · have ordered := daysBeforeYear_le more
    omega

end Calendar

end RiscvWorkshop.Gregorian
