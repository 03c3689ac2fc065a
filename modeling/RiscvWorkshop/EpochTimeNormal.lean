import Mathlib
import RiscvWorkshop.EpochTime

namespace RiscvWorkshop.Klib

open Gregorian

/-!
# Normal calendar times

The calendar time of a second is that of the Gregorian calendar, and the second
of a calendar time is that of Gregorian day arithmetic, apart from the years
1902 to 1967.
-/

/-- The second of a calendar time with any fields, by the days before it. -/
def KernelTm.seconds (tm : KernelTm) : Int :=
  let year := tm.tmYear + 1900 + tm.tmMon / 12
  let days :=
    dayNumber year (tm.tmMon % 12) tm.tmMday - dayNumber 1970 0 1
  86400 * days + 3600 * tm.tmHour + 60 * tm.tmMin + tm.tmSec

/-- The normal form of a second: a date, a time of the day and what follows. -/
structure NormalForm
    (t : Int)
    (tm : KernelTm) : Prop where
  sec : 0 ≤ tm.tmSec ∧ tm.tmSec ≤ 59
  min : 0 ≤ tm.tmMin ∧ tm.tmMin ≤ 59
  hour : 0 ≤ tm.tmHour ∧ tm.tmHour ≤ 23
  date : IsDate (tm.tmYear + 1900) tm.tmMon tm.tmMday
  yday :
    tm.tmYday =
      daysBeforeMonth (tm.tmYear + 1900) tm.tmMon + tm.tmMday - 1
  wday :
    tm.tmWday =
      weekday (dayNumber (tm.tmYear + 1900) tm.tmMon tm.tmMday)
  isdst : tm.tmIsdst = 0
  gmtoff : tm.tmGmtoff = 0
  zone : tm.tmZone = none
  seconds : tm.seconds = t

/-- The fields are of type `int`. -/
structure KernelTm.Ints (tm : KernelTm) : Prop where
  sec : intMin ≤ tm.tmSec ∧ tm.tmSec ≤ intMax
  min : intMin ≤ tm.tmMin ∧ tm.tmMin ≤ intMax
  hour : intMin ≤ tm.tmHour ∧ tm.tmHour ≤ intMax
  mday : intMin ≤ tm.tmMday ∧ tm.tmMday ≤ intMax
  mon : intMin ≤ tm.tmMon ∧ tm.tmMon ≤ intMax
  year : intMin ≤ tm.tmYear ∧ tm.tmYear ≤ intMax

/-- The year of a calendar time, with the months carried over. -/
def KernelTm.carriedYear (tm : KernelTm) : Int :=
  tm.tmYear + tm.tmMon / 12

/-- The common years from 1902 to 1967. -/
def LateYear (year : Int) : Prop :=
  2 ≤ year ∧ year ≤ 67 ∧ year % 4 ≠ 0

/-- The right result: the second and its normal form, if that has an `int` year. -/
def MkRight
    (tm : KernelTm)
    (etp : Int) : Prop :=
  ∃ form,
    NormalForm tm.seconds form ∧
      clockMkEpochTime tm etp =
        some
          (if intMin ≤ form.tmYear ∧ form.tmYear ≤ intMax then
            (0, form, tm.seconds)
          else
            (-erange, tm, etp))

section Division

variable {number divisor : Int}

/-- The division is the one that rounds down. -/
theorem divideDown_eq
    (positive : 0 < divisor) :
    divideDown number divisor = (number / divisor, number % divisor) := by
  have low := Int.emod_nonneg number positive.ne'
  have high := Int.emod_lt_of_pos number positive
  have size : (divisor.natAbs : Int) = divisor := Int.natAbs_of_nonneg positive.le
  rw [divideDown, Int.tmod_eq_emod, Int.tdiv_eq_ediv,
    Int.sign_eq_one_of_pos positive]
  by_cases exact : 0 ≤ number ∨ divisor ∣ number
  · simp only [if_pos exact, Int.ofNat_zero, sub_zero, add_zero,
      if_neg (Int.not_lt.mpr low)]
  · have negative : number % divisor - divisor < 0 := by omega
    simp only [if_neg exact, size, if_pos negative, sub_add_cancel,
      add_sub_cancel_right]

/-- A quotient that is taken back by one when it is one more than the last. -/
theorem capped_quotient
    {last : Int}
    (positive : 0 < divisor)
    (low : 0 ≤ number)
    (high : number / divisor ≤ last) :
    ∃ quotient,
      (if number.tdiv divisor = last then number.tdiv divisor - 1
        else number.tdiv divisor) = quotient ∧
        0 ≤ number - quotient * divisor ∧
        (quotient + 1 < last → number - quotient * divisor < divisor) ∧
        (0 < last → 0 ≤ quotient) ∧ quotient < last := by
  have parts := Int.mul_ediv_add_emod number divisor
  have restLow := Int.emod_nonneg number positive.ne'
  have restHigh := Int.emod_lt_of_pos number positive
  have notNegative := Int.ediv_nonneg low positive.le
  rw [mul_comm] at parts
  rw [Int.tdiv_eq_ediv_of_nonneg low]
  split
  case isTrue isLast =>
    have back :
        (number / divisor - 1) * divisor =
          number / divisor * divisor - divisor := by
      ring
    exact ⟨_, rfl, by omega, by omega, by omega, by omega⟩
  case isFalse notLast =>
    exact ⟨_, rfl, by omega, by omega, by omega, by omega⟩

end Division

/-! ## The days since March 2000 -/

/-- What the cycles are. -/
structure DayCycles.Split
    (cycles : DayCycles)
    (days : Int) : Prop where
  days :
    days =
      146097 * cycles.qcCycles + 36524 * cycles.cCycles +
        1461 * cycles.qCycles + 365 * cycles.remyears + cycles.remdays
  cCycles : 0 ≤ cycles.cCycles ∧ cycles.cCycles ≤ 3
  qCycles : 0 ≤ cycles.qCycles ∧ cycles.qCycles ≤ 24
  remyears : 0 ≤ cycles.remyears ∧ cycles.remyears ≤ 3
  remdays : 0 ≤ cycles.remdays ∧ cycles.remdays ≤ 365
  last :
    cycles.remdays = 365 →
      cycles.remyears = 3 ∧ (cycles.qCycles = 24 → cycles.cCycles = 3)

theorem dayCycles_split
    (days : Int) :
    (dayCycles days).Split days := by
  have down : divideDown days daysPer400Y = (days / 146097, days % 146097) :=
    divideDown_eq (by decide)
  have low := Int.emod_nonneg days (by decide : (146097 : Int) ≠ 0)
  have high := Int.emod_lt_of_pos days (by decide : (0 : Int) < 146097)
  have parts := Int.mul_ediv_add_emod days 146097
  simp only [dayCycles, down, daysPer100Y, daysPer4Y, daysPerYear, Int.reduceMul,
    Int.reduceAdd]
  generalize days % 146097 = rest at *
  generalize days / 146097 = qc at *
  obtain ⟨c, isC, low1, cRest, cLow, cHigh⟩ :=
    @capped_quotient rest 36524 4 (by decide) low (by omega)
  rw [isC]
  obtain ⟨q, isQ, low2, qRest, qLow, qHigh⟩ :=
    @capped_quotient (rest - c * 36524) 1461 25 (by decide) low1 (by omega)
  rw [isQ]
  obtain ⟨y, isY, low3, yRest, yLow, yHigh⟩ :=
    @capped_quotient (rest - c * 36524 - q * 1461) 365 4 (by decide) low2
      (by omega)
  rw [isY]
  constructor <;> dsimp only <;> omega

/-! ## The months since March -/

/-- The days from March to the beginning of a month. -/
def daysFromMarch (months : Int) : Int :=
  (153 * months + 2) / 5

/-- The loop finds the month of a day, and the day of the month. -/
theorem monthLoop_eq
    {remdays : Int}
    (low : 0 ≤ remdays)
    (high : remdays ≤ 365) :
    ∃ months rest,
      monthLoop mar2febDaysInMonth 0 remdays = (months, rest) ∧
        0 ≤ months ∧ months ≤ 11 ∧ 0 ≤ rest ∧
        remdays = daysFromMarch months + rest ∧
        remdays < daysFromMarch (months + 1) := by
  simp only [mar2febDaysInMonth, daysFromMarch]
  iterate 12
    rw [monthLoop]
    split
    case isFalse =>
      exact ⟨_, _, rfl, by omega, by omega, by omega, by omega, by omega⟩
  omega

/-- A month of the year that began in March. -/
theorem fromMarch_month
    {year months : Int}
    (low : 0 ≤ months)
    (high : months ≤ 9) :
    daysBeforeMonth year (months + 2) =
        daysFromMarch months + 59 + leapDay year ∧
      monthLength year (months + 2) =
        daysFromMarch (months + 1) - daysFromMarch months := by
  interval_cases months <;>
    simp [daysBeforeMonth, monthLength, daysFromMarch]

/-- A month of the year behind. -/
theorem fromMarch_nextYear
    {year months : Int}
    (low : 10 ≤ months)
    (high : months ≤ 11) :
    daysBeforeMonth year (months - 10) = daysFromMarch months - 306 ∧
      monthLength year (months - 10) =
        if months = 10 then 31 else 28 + leapDay year := by
  interval_cases months <;>
    simp [daysBeforeMonth, monthLength, daysFromMarch]

namespace DayCycles

/-- The year that begins in March, counted from 2000. -/
def years (cycles : DayCycles) : Int :=
  cycles.remyears + 4 * cycles.qCycles + 100 * cycles.cCycles +
    4 * 100 * cycles.qcCycles

variable {cycles : DayCycles}
variable {days : Int}

/-- Whether the year in which the March year begins is a leap year. -/
theorem Split.leap_eq
    (split : cycles.Split days) :
    (if cycles.remyears = 0 ∧ (cycles.qCycles ≠ 0 ∨ cycles.cCycles = 0) then
        (1 : Int)
      else
        0) =
      leapDay (cycles.years + 2000) := by
  have c := split.cCycles
  have q := split.qCycles
  have y := split.remyears
  rw [leapDay_eq, years]
  exact if_congr (by omega) rfl rfl

/-- The days up to the first of March. -/
theorem Split.march
    (split : cycles.Split days) :
    daysBeforeYear (cycles.years + 2000) + leapDay (cycles.years + 2000) + 59 =
      730179 + days - cycles.remdays := by
  have c := split.cCycles
  have q := split.qCycles
  have y := split.remyears
  have parts := split.days
  rw [daysBeforeYear_leapDay, years]
  omega

/-- A March year of 366 days ends with a leap day. -/
theorem Split.leap_of_last
    (split : cycles.Split days)
    (last : cycles.remdays = 365) :
    leapDay (cycles.years + 2001) = 1 := by
  have c := split.cCycles
  have q := split.qCycles
  have y := split.remyears
  obtain ⟨lastYear, lastCycle⟩ := split.last last
  rw [leapDay_eq, years]
  exact if_pos (by omega)

end DayCycles

/-- The fields that say the date, by the cycles of the days and their month. -/
structure DateFields
    (cycles : DayCycles)
    (days months rest : Int)
    (tm : KernelTm) : Prop where
  year : tm.tmYear = cycles.years + 100 + if months ≥ 10 then 1 else 0
  mon : tm.tmMon = months + 2 - if months ≥ 10 then 12 else 0
  mday : tm.tmMday = rest + 1
  yday :
    tm.tmYday =
      if cycles.remdays + 59 ≥ 365 then cycles.remdays - 306
      else cycles.remdays + 59 + leapDay (cycles.years + 2000)
  wday : tm.tmWday = (days + 3) % 7

/-- The fields of a time within a day. -/
structure TimeFields
    (secs : Int)
    (tm : KernelTm) : Prop where
  hour : tm.tmHour = secs / 3600
  min : tm.tmMin = secs / 60 % 60
  sec : tm.tmSec = secs % 60

/-- What the fields are computed from. -/
theorem tmOfSecs_fields
    (t : Int)
    (tm : KernelTm) :
    ∃ months rest,
      monthLoop mar2febDaysInMonth 0
            (dayCycles ((t - leapoch) / 86400)).remdays =
          (months, rest) ∧
        DateFields (dayCycles ((t - leapoch) / 86400))
          ((t - leapoch) / 86400) months rest (tmOfSecs t tm) ∧
        TimeFields ((t - leapoch) % 86400) (tmOfSecs t tm) ∧
        (tmOfSecs t tm).tmIsdst = tm.tmIsdst ∧
        (tmOfSecs t tm).tmGmtoff = tm.tmGmtoff ∧
        (tmOfSecs t tm).tmZone = tm.tmZone := by
  have down :
      divideDown (t - leapoch) secsPerDay =
        ((t - leapoch) / 86400, (t - leapoch) % 86400) :=
    divideDown_eq (by decide)
  have remsecs : 0 ≤ (t - leapoch) % 86400 :=
    Int.emod_nonneg _ (by decide)
  have split := dayCycles_split ((t - leapoch) / 86400)
  obtain ⟨months, rest, ended, _⟩ :=
    monthLoop_eq split.remdays.1 split.remdays.2
  have week := fun days : Int => @divideDown_eq (leapochWday + days) 7 (by decide)
  have leap := split.leap_eq
  simp only [tmOfSecs, down, ended, week, leap]
  generalize dayCycles ((t - leapoch) / 86400) = cycles at *
  generalize (t - leapoch) / 86400 = days at *
  generalize (t - leapoch) % 86400 = secs at *
  refine ⟨months, rest, rfl, ?_, ?_, trivial, trivial, trivial⟩
  · have yday :
        ∀ remdays leap : Int,
          (if remdays + 31 + 28 + leap ≥ 365 + leap then
              remdays + 31 + 28 + leap - (365 + leap)
            else
              remdays + 31 + 28 + leap) =
            if remdays + 59 ≥ 365 then remdays - 306 else remdays + 59 + leap := by
      intro remdays leap
      split <;> split <;> omega
    have wday := congrArg (· % 7) (Int.add_comm 3 days)
    by_cases later : months ≥ 10
    · simp only [if_pos later]
      constructor <;> simp only [if_pos later, DayCycles.years]
      · omega
      · omega
      · exact yday cycles.remdays _
      · exact wday
    · simp only [if_neg later]
      constructor <;> simp only [if_neg later, DayCycles.years]
      · omega
      · omega
      · exact yday cycles.remdays _
      · exact wday
  · have minutes : 0 ≤ secs / 60 := Int.ediv_nonneg remsecs (by decide)
    constructor
    · exact Int.tdiv_eq_ediv_of_nonneg remsecs
    · show (secs.tdiv 60).tmod 60 = secs / 60 % 60
      rw [Int.tdiv_eq_ediv_of_nonneg remsecs,
        Int.tmod_eq_emod_of_nonneg minutes]
    · exact Int.tmod_eq_emod_of_nonneg remsecs

/-- The fields say the date of the days since March 2000. -/
theorem DateFields.isDate
    {cycles : DayCycles}
    {days months rest : Int}
    {tm : KernelTm}
    (fields : DateFields cycles days months rest tm)
    (split : cycles.Split days)
    (low : 0 ≤ months)
    (high : months ≤ 11)
    (restLow : 0 ≤ rest)
    (isRest : cycles.remdays = daysFromMarch months + rest)
    (restHigh : cycles.remdays < daysFromMarch (months + 1)) :
    IsDate (tm.tmYear + 1900) tm.tmMon tm.tmMday ∧
      dayNumber (tm.tmYear + 1900) tm.tmMon tm.tmMday = 730179 + days ∧
      tm.tmYday =
        daysBeforeMonth (tm.tmYear + 1900) tm.tmMon + tm.tmMday - 1 := by
  have march := split.march
  have bounds := split.remdays
  rw [fields.mday, fields.yday, dayNumber]
  by_cases later : months ≥ 10
  · have year : tm.tmYear + 1900 = cycles.years + 2001 := by
      rw [fields.year, if_pos later]
      ring
    have mon : tm.tmMon = months - 10 := by
      rw [fields.mon, if_pos later]
      ring
    have isLast := split.leap_of_last
    have next := @daysBeforeYear_succ (cycles.years + 2000)
    obtain ⟨before, length⟩ := @fromMarch_nextYear (cycles.years + 2001) _ later high
    have from306 : 306 ≤ daysFromMarch months := by
      rw [daysFromMarch]
      omega
    have one := @leapDay_bounds (cycles.years + 2001)
    rw [year, mon, before, if_pos (by omega)]
    rw [show cycles.years + 2000 + 1 = cycles.years + 2001 by ring] at next
    refine ⟨⟨by omega, by omega, ?_⟩, by omega, by omega⟩
    rw [length]
    split
    case isTrue isTen =>
      rw [isTen, daysFromMarch] at isRest restHigh
      omega
    case isFalse isEleven =>
      have isMonth : months = 11 := by omega
      rw [isMonth, daysFromMarch] at isRest
      by_cases last : cycles.remdays = 365
      · rw [isLast last]
        omega
      · omega
  · have year : tm.tmYear + 1900 = cycles.years + 2000 := by
      rw [fields.year, if_neg later]
      ring
    have mon : tm.tmMon = months + 2 := by
      rw [fields.mon, if_neg later]
      ring
    obtain ⟨before, length⟩ :=
      @fromMarch_month (cycles.years + 2000) _ low (by omega)
    have below : cycles.remdays < 306 := by
      refine restHigh.trans_le ?_
      rw [daysFromMarch]
      omega
    rw [year, mon, before, if_neg (by omega)]
    refine ⟨⟨by omega, by omega, ?_⟩, by omega, by omega⟩
    rw [length]
    omega

/-- The calendar time of a second is its normal form. -/
theorem tmOfSecs_normal
    (t : Int) :
    NormalForm t (tmOfSecs t KernelTm.zero) := by
  obtain ⟨months, rest, ended, date, time, isdst, gmtoff, zone⟩ :=
    tmOfSecs_fields t KernelTm.zero
  have split := dayCycles_split ((t - leapoch) / 86400)
  obtain ⟨months', rest', ended', low, high, restLow, isRest, restHigh⟩ :=
    monthLoop_eq split.remdays.1 split.remdays.2
  obtain ⟨rfl, rfl⟩ := Prod.ext_iff.mp (ended.symm.trans ended')
  obtain ⟨isDate, number, yday⟩ :=
    date.isDate split low high restLow isRest restHigh
  have secsLow := Int.emod_nonneg (t - leapoch) (by decide : (86400 : Int) ≠ 0)
  have secsHigh :=
    Int.emod_lt_of_pos (t - leapoch) (by decide : (0 : Int) < 86400)
  have parts := Int.mul_ediv_add_emod (t - leapoch) 86400
  have start : leapoch = 951868800 := rfl
  have epoch : dayNumber 1970 0 1 = 719162 := by decide
  obtain ⟨monLow, monHigh⟩ := isDate.inYear
  generalize tmOfSecs t KernelTm.zero = tm at *
  exact
    { sec := by rw [time.sec]; omega
      min := by rw [time.min]; omega
      hour := by rw [time.hour]; omega
      date := isDate
      yday := yday
      wday := by rw [date.wday, number, weekday]; omega
      isdst := isdst
      gmtoff := gmtoff
      zone := zone
      seconds := by
        have noCarry : tm.tmMon / 12 = 0 := by omega
        have sameMonth : tm.tmMon % 12 = tm.tmMon := by omega
        rw [KernelTm.seconds, noCarry, sameMonth, Int.add_zero, number, epoch,
          time.hour, time.min, time.sec]
        omega }

end RiscvWorkshop.Klib
