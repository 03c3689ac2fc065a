import Mathlib
import RiscvWorkshop.EpochTimeNormal

namespace RiscvWorkshop.Klib

open Gregorian

/-!
# Where the conversions are right

The seconds of a year are counted in two ways.  The way for the years from 1902
to 2038 rounds a number of leap years toward zero, also when it is negative.
-/

section Years

variable {year month : Int}

/-- The division by four that rounds toward zero. -/
theorem tdiv_four
    (y : Int) :
    (y.tmod 4 = 0 ↔ y % 4 = 0) ∧
      y.tdiv 4 = y / 4 + if 0 ≤ y ∨ y % 4 = 0 then 0 else 1 := by
  have divides : 4 ∣ y ↔ y % 4 = 0 := Int.dvd_iff_emod_eq_zero
  constructor
  · rw [← Int.dvd_iff_tmod_eq_zero, divides]
  · have sign : Int.sign 4 = 1 := rfl
    rw [Int.tdiv_eq_ediv, sign]
    exact congrArg _ (if_congr (or_congr_right divides) rfl rfl)

instance (year : Int) : Decidable (LateYear year) :=
  inferInstanceAs (Decidable (_ ∧ _))

/-- From 1902 to 2038 every fourth year is a leap year. -/
theorem leapDay_near
    (low : 2 ≤ year)
    (high : year ≤ 138) :
    leapDay (year + 1900) = if year % 4 = 0 then 1 else 0 := by
  rw [leapDay_eq]
  exact if_congr (by omega) rfl rfl

/-- The first way counts a leap year too much in the common years before 1968. -/
theorem yearToSecs_near
    (low : 2 ≤ year)
    (high : year ≤ 138) :
    yearToSecs year =
      (86400 * (daysBeforeYear (year + 1900) - 719162) +
          (if LateYear year then 86400 else 0),
        leapDay (year + 1900)) := by
  obtain ⟨isFourth, rounded⟩ := tdiv_four (year - 68)
  have near : (year - 2) % 2 ^ 64 ≤ 136 := by omega
  have perDay : secsPerDay = 86400 := rfl
  have perYear : secsPerYear = 31536000 := rfl
  rw [yearToSecs, if_pos near, leapDay_near low high]
  simp only [rounded, isFourth, perDay, perYear, LateYear, daysBeforeYear]
  by_cases fourth : (year - 68) % 4 = 0
  · have leap : year % 4 = 0 := by omega
    simp only [fourth, leap, or_true, ne_eq, not_true, and_false, if_true,
      if_false]
    rw [Prod.mk.injEq]
    omega
  · have common : year % 4 ≠ 0 := by omega
    simp only [fourth, common, or_false, ne_eq, not_false_eq_true, and_true,
      if_false]
    refine Prod.ext ?_ rfl
    dsimp only
    split <;> split <;> omega

/-- The comparisons that take the centuries apart are a division. -/
theorem centuries_eq
    {rem : Int}
    (low : 0 ≤ rem)
    (high : rem < 400) :
    (if rem ≥ 2 * 100 then
        if rem ≥ 3 * 100 then (3, rem - 3 * 100) else (2, rem - 2 * 100)
      else if rem ≥ 100 then
        (1, rem - 100)
      else
        (0, rem)) =
      (rem / 100, rem % 100) := by
  split
  · split <;> exact Prod.ext (by dsimp only; omega) (by dsimp only; omega)
  · split <;> exact Prod.ext (by dsimp only; omega) (by dsimp only; omega)

/-- The second way. -/
theorem yearToSecs_far
    (outside : year < 2 ∨ 138 < year)
    (low : -2 ^ 62 < year)
    (high : year < 2 ^ 62) :
    yearToSecs year =
      (86400 * (daysBeforeYear (year + 1900) - 719162),
        leapDay (year + 1900)) := by
  have far : ¬ (year - 2) % 2 ^ 64 ≤ 136 := by omega
  have down :
      divideDown (year - 100) 400 = ((year - 100) / 400, (year - 100) % 400) :=
    divideDown_eq (by decide)
  have perDay : secsPerDay = 86400 := rfl
  have perYear : secsPerYear = 31536000 := rfl
  have millennium : millenniumSecs = 946684800 := rfl
  have remLow := Int.emod_nonneg (year - 100) (by decide : (400 : Int) ≠ 0)
  have remHigh :=
    Int.emod_lt_of_pos (year - 100) (by decide : (0 : Int) < 400)
  have parts := Int.mul_ediv_add_emod (year - 100) 400
  rw [yearToSecs, if_neg far]
  simp only [down, perDay, perYear, millennium]
  generalize (year - 100) % 400 = rem at *
  generalize (year - 100) / 400 = cycles at *
  have isYear : year = 400 * cycles + rem + 100 := by omega
  rw [leapDay_eq, daysBeforeYear, isYear]
  by_cases start : rem = 0
  · simp only [start, if_true]
    rw [if_pos (by omega)]
    refine Prod.ext ?_ rfl
    dsimp only
    omega
  · have century := centuries_eq remLow remHigh
    simp only [start, if_false, century]
    have restLow := Int.emod_nonneg rem (by decide : (100 : Int) ≠ 0)
    have restHigh := Int.emod_lt_of_pos rem (by decide : (0 : Int) < 100)
    have isRem : rem = 100 * (rem / 100) + rem % 100 := by omega
    have countLow : 0 ≤ rem / 100 := by omega
    have countHigh : rem / 100 ≤ 3 := by omega
    generalize rem % 100 = rest at *
    generalize rem / 100 = count at *
    subst isRem
    by_cases turn : rest = 0
    · simp only [turn, if_true]
      rw [if_neg (by omega)]
      refine Prod.ext ?_ rfl
      dsimp only
      omega
    · have inFour :
          (400 * cycles + (100 * count + rest) + 100 + 1900 - 1) / 4 =
            100 * cycles + 25 * count + (rest - 1) / 4 + 500 := by
        omega
      have inHundred :
          (400 * cycles + (100 * count + rest) + 100 + 1900 - 1) / 100 =
            4 * cycles + count + 20 := by
        omega
      have inFourHundred :
          (400 * cycles + (100 * count + rest) + 100 + 1900 - 1) / 400 =
            cycles + 5 := by
        omega
      simp only [turn, if_false, inFour, inHundred, inFourHundred]
      by_cases fourth : rest % 4 = 0
      · rw [if_pos fourth, if_pos (by omega)]
        refine Prod.ext ?_ rfl
        dsimp only
        omega
      · rw [if_neg fourth, if_neg (by omega)]
        refine Prod.ext ?_ rfl
        dsimp only
        omega

/-- The seconds before a year, and whether it is a leap year. -/
theorem yearToSecs_eq
    (low : -2 ^ 62 < year)
    (high : year < 2 ^ 62) :
    yearToSecs year =
      (86400 * (daysBeforeYear (year + 1900) - 719162) +
          (if LateYear year then 86400 else 0),
        leapDay (year + 1900)) := by
  by_cases near : 2 ≤ year ∧ year ≤ 138
  · exact yearToSecs_near near.1 near.2
  · have notLate : ¬ LateYear year := fun late => near ⟨late.1, late.2.1.trans (by decide)⟩
    rw [yearToSecs_far (by omega) low high, if_neg notLate, add_zero]

/-- The seconds before a month of a year. -/
theorem monthToSecs_eq
    (low : 0 ≤ month)
    (high : month ≤ 11) :
    monthToSecs month (leapDay year) = 86400 * daysBeforeMonth year month := by
  have leap : leapDay year = 0 ∨ leapDay year = 1 := by
    obtain ⟨some_day, one⟩ := @leapDay_bounds year
    omega
  rcases leap with isLeap | isLeap <;> rw [isLeap, daysBeforeMonth, isLeap] <;>
    interval_cases month <;> rfl

end Years

/-! ## The whole conversions -/

section Times

variable {tm form : KernelTm}
variable {t etp : Int}

/-- A date has no months to carry over. -/
theorem NormalForm.carriedYear
    (normal : NormalForm t form) :
    form.carriedYear = form.tmYear := by
  have inYear := normal.date.inYear
  rw [KernelTm.carriedYear]
  omega

/-- A normal form has small fields apart from the year. -/
theorem NormalForm.ints
    (normal : NormalForm t form)
    (fits : intMin ≤ form.tmYear ∧ form.tmYear ≤ intMax) :
    form.Ints := by
  have inYear := normal.date.inYear
  have inMonth := normal.date.inMonth
  have sec := normal.sec
  have min := normal.min
  have hour := normal.hour
  have length : monthLength (form.tmYear + 1900) form.tmMon ≤ 31 := by
    have one := @leapDay_bounds (form.tmYear + 1900)
    rw [monthLength]
    split
    · omega
    · split <;> omega
  have low : intMin = -2147483648 := rfl
  have high : intMax = 2147483647 := rfl
  constructor <;> omega

/-- The second of a normal form, by the number of its day. -/
theorem NormalForm.seconds_eq
    (normal : NormalForm t form) :
    86400 *
          (dayNumber (form.tmYear + 1900) form.tmMon form.tmMday - 719162) +
        3600 * form.tmHour + 60 * form.tmMin + form.tmSec =
      t := by
  have inYear := normal.date.inYear
  have noCarry : form.tmMon / 12 = 0 := by omega
  have sameMonth : form.tmMon % 12 = form.tmMon := by omega
  have epoch : dayNumber 1970 0 1 = 719162 := by decide
  have isSecond := normal.seconds
  rwa [KernelTm.seconds, noCarry, sameMonth, Int.add_zero, epoch] at isSecond

/-- The second of a normal form lies in its year. -/
theorem NormalForm.inYear
    (normal : NormalForm t form) :
    86400 * (daysBeforeYear (form.tmYear + 1900) - 719162) ≤ t ∧
      t < 86400 * (daysBeforeYear (form.tmYear + 1901) - 719162) := by
  have inDays := normal.date.dayOfYear
  have sec := normal.sec
  have min := normal.min
  have hour := normal.hour
  have isSecond := normal.seconds_eq
  have next := @daysBeforeYear_succ (form.tmYear + 1900)
  rw [dayNumber] at isSecond
  rw [show form.tmYear + 1900 + 1 = form.tmYear + 1901 by ring] at next
  omega

/-- The sum of the seconds, with a day too much in the common years before 1968. -/
theorem tmToSecs_eq
    (ints : tm.Ints) :
    tmToSecs tm =
      if tm.tmMday = intMin then
        none
      else
        some (tm.seconds + if LateYear tm.carriedYear then 86400 else 0) := by
  have low : intMin = -2147483648 := rfl
  have high : intMax = 2147483647 := rfl
  have months :
      (if tm.tmMon ≥ 12 ∨ tm.tmMon < 0 then
          (tm.tmYear + (divideDown tm.tmMon 12).1, (divideDown tm.tmMon 12).2)
        else
          (tm.tmYear, tm.tmMon)) =
        (tm.carriedYear, tm.tmMon % 12) := by
    rw [divideDown_eq (by decide), KernelTm.carriedYear]
    split
    · rfl
    · exact Prod.ext (by dsimp only; omega) (by dsimp only; omega)
  have yearInts := ints.year
  have monInts := ints.mon
  have mdayInts := ints.mday
  have years :
      yearToSecs tm.carriedYear = _ :=
    yearToSecs_eq (by rw [KernelTm.carriedYear]; omega)
      (by rw [KernelTm.carriedYear]; omega)
  have month :=
    @monthToSecs_eq (tm.carriedYear + 1900) (tm.tmMon % 12) (by omega) (by omega)
  have perDay : secsPerDay = 86400 := rfl
  have perHour : secsPerHour = 3600 := rfl
  have perMin : secsPerMin = 60 := rfl
  have epoch : dayNumber 1970 0 1 = 719162 := by decide
  have year :
      tm.tmYear + 1900 + tm.tmMon / 12 = tm.carriedYear + 1900 := by
    rw [KernelTm.carriedYear]
    ring
  simp only [tmToSecs, months, years, month, daysBeforeMday, perDay, perHour,
    perMin]
  by_cases smallest : tm.tmMday = intMin
  · have overflow : tm.tmMday - 1 < intMin := by omega
    rw [if_pos smallest, if_pos overflow, Option.map_none]
  · have inInt : ¬ tm.tmMday - 1 < intMin := by omega
    rw [if_neg smallest, if_neg inInt, Option.map_some, KernelTm.seconds, year,
      dayNumber, epoch]
    refine congrArg some ?_
    ring

/-- A second whose year is an `int` is converted. -/
theorem secsToTm_fits
    (fits : intMin ≤ (tmOfSecs t KernelTm.zero).tmYear ∧
      (tmOfSecs t KernelTm.zero).tmYear ≤ intMax) :
    secsToTm t KernelTm.zero = (0, tmOfSecs t KernelTm.zero) := by
  obtain ⟨first, last⟩ := (tmOfSecs_normal t).inYear
  have low : intMin = -2147483648 := rfl
  have high : intMax = 2147483647 := rfl
  have perYear : secsPerLeapYear = 31622400 := rfl
  have inRange :
      ¬ (t < intMin * secsPerLeapYear ∨ t > intMax * secsPerLeapYear) := by
    rw [daysBeforeYear] at first last
    rw [low, high, perYear]
    omega
  rw [secsToTm, if_neg inRange]
  exact if_neg (by omega)

/-- Another second is refused. -/
theorem secsToTm_refuses
    (large : ¬ (intMin ≤ (tmOfSecs t KernelTm.zero).tmYear ∧
      (tmOfSecs t KernelTm.zero).tmYear ≤ intMax)) :
    (secsToTm t KernelTm.zero).1 < 0 := by
  rw [secsToTm]
  split
  · decide
  · dsimp only
    rw [if_pos (by omega)]
    decide

/-- The conversion of a sum of seconds. -/
theorem clockMkEpochTime_eq
    (isSum : tmToSecs tm = some t) :
    clockMkEpochTime tm etp =
      some
        (if intMin ≤ (tmOfSecs t KernelTm.zero).tmYear ∧
            (tmOfSecs t KernelTm.zero).tmYear ≤ intMax then
          (0, tmOfSecs t KernelTm.zero, t)
        else
          (-erange, tm, etp)) := by
  rw [clockMkEpochTime, isSum, Option.map_some]
  refine congrArg some ?_
  by_cases fits :
      intMin ≤ (tmOfSecs t KernelTm.zero).tmYear ∧
        (tmOfSecs t KernelTm.zero).tmYear ≤ intMax
  · rw [if_pos fits, secsToTm_fits fits]
    exact if_neg (by decide)
  · rw [if_neg fits]
    exact if_pos (secsToTm_refuses fits)

/-- The seconds of the common years before 1968 are converted. -/
theorem late_fits
    (ints : tm.Ints)
    (late : LateYear tm.carriedYear) :
    intMin ≤ (tmOfSecs (tm.seconds + 86400) KernelTm.zero).tmYear ∧
      (tmOfSecs (tm.seconds + 86400) KernelTm.zero).tmYear ≤ intMax := by
  obtain ⟨first, last⟩ := (tmOfSecs_normal (tm.seconds + 86400)).inYear
  generalize tmOfSecs (tm.seconds + 86400) KernelTm.zero = form at *
  obtain ⟨late1, late2, -⟩ := late
  have low : intMin = -2147483648 := rfl
  have high : intMax = 2147483647 := rfl
  have epoch : dayNumber 1970 0 1 = 719162 := by decide
  have year :
      tm.tmYear + 1900 + tm.tmMon / 12 = tm.carriedYear + 1900 := by
    rw [KernelTm.carriedYear]
    ring
  have mday := ints.mday
  have hour := ints.hour
  have min := ints.min
  have sec := ints.sec
  have start :
      0 ≤ daysBeforeMonth (tm.carriedYear + 1900) (tm.tmMon % 12) ∧
        daysBeforeMonth (tm.carriedYear + 1900) (tm.tmMon % 12) ≤ 366 := by
    have one := @leapDay_bounds (tm.carriedYear + 1900)
    rw [daysBeforeMonth_eq (by omega) (by omega)]
    split <;> omega
  rw [KernelTm.seconds, year, dayNumber, epoch] at first last
  rw [daysBeforeYear, daysBeforeYear] at first last
  omega

/-- A second has one normal form. -/
theorem NormalForm.unique
    {other : KernelTm}
    (normal : NormalForm t form)
    (otherNormal : NormalForm t other) :
    form = other := by
  have sec := normal.sec
  have otherSec := otherNormal.sec
  have min := normal.min
  have otherMin := otherNormal.min
  have hour := normal.hour
  have otherHour := otherNormal.hour
  have seconds := normal.seconds_eq
  have otherSeconds := otherNormal.seconds_eq
  have days :
      dayNumber (form.tmYear + 1900) form.tmMon form.tmMday =
        dayNumber (other.tmYear + 1900) other.tmMon other.tmMday := by
    omega
  obtain ⟨sameYear, isMon, isMday⟩ := normal.date.unique otherNormal.date days
  have isYear : form.tmYear = other.tmYear := by omega
  have yday := normal.yday.trans
    (by rw [isYear, isMon, isMday] : _ = _ + other.tmMday - 1)
  have wday := (normal.wday.trans (congrArg weekday days)).trans
    otherNormal.wday.symm
  have isdst := normal.isdst.trans otherNormal.isdst.symm
  have gmtoff := normal.gmtoff.trans otherNormal.gmtoff.symm
  have zone := normal.zone.trans otherNormal.zone.symm
  rw [← otherNormal.yday] at yday
  have isHour : form.tmHour = other.tmHour := by omega
  have isMin : form.tmMin = other.tmMin := by omega
  have isSec : form.tmSec = other.tmSec := by omega
  cases form
  cases other
  rw [KernelTm.mk.injEq]
  exact
    ⟨isSec, isMin, isHour, isMday, isMon, isYear, wday, yday, isdst, gmtoff, zone⟩

/-- The conversion is right unless a subtraction overflows or the year is late. -/
theorem mkRight_iff
    (ints : tm.Ints) :
    MkRight tm etp ↔ tm.tmMday ≠ intMin ∧ ¬ LateYear tm.carriedYear := by
  have sum := tmToSecs_eq ints
  have normal := tmOfSecs_normal tm.seconds
  constructor
  · rintro ⟨form, -, result⟩
    have notSmallest : tm.tmMday ≠ intMin := by
      intro smallest
      rw [if_pos smallest] at sum
      rw [clockMkEpochTime, sum, Option.map_none] at result
      cases result
    refine ⟨notSmallest, fun late => ?_⟩
    rw [if_neg notSmallest, if_pos late] at sum
    rw [clockMkEpochTime_eq sum, if_pos (late_fits ints late),
      Option.some.injEq] at result
    split at result
    · have sameTime := congrArg (fun parts => parts.2.2) result
      dsimp only at sameTime
      omega
    · have sameCode := congrArg Prod.fst result
      exact absurd sameCode (by decide : (0 : Int) ≠ -erange)
  · rintro ⟨notSmallest, notLate⟩
    rw [if_neg notSmallest, if_neg notLate, add_zero] at sum
    exact ⟨_, normal, clockMkEpochTime_eq sum⟩

/--
Every second that is converted gets its normal form.  That is converted back to it,
and other calendar times to the second of Gregorian day arithmetic with its normal
form, if and only if no subtraction overflows and the year is not late.
-/
theorem epochTime_right_iff
    {tm : KernelTm}
    (ints : tm.Ints)
    (etp : Int) :
    (MkRight tm etp ↔ tm.tmMday ≠ intMin ∧ ¬ LateYear tm.carriedYear) ∧
      ∀ t old,
        (clockEpochTimeToTm t old).1 = 0 →
          NormalForm t (clockEpochTimeToTm t old).2 ∧
            (clockMkEpochTime (clockEpochTimeToTm t old).2 etp =
                some (0, (clockEpochTimeToTm t old).2, t) ↔
              ¬ LateYear (clockEpochTimeToTm t old).2.tmYear) := by
  refine ⟨mkRight_iff ints, fun t old converted => ?_⟩
  have normal := tmOfSecs_normal t
  by_cases fits :
      intMin ≤ (tmOfSecs t KernelTm.zero).tmYear ∧
        (tmOfSecs t KernelTm.zero).tmYear ≤ intMax
  · have result : clockEpochTimeToTm t old = (0, tmOfSecs t KernelTm.zero) := by
      rw [clockEpochTimeToTm, secsToTm_fits fits]
      exact if_neg (by decide)
    rw [result]
    dsimp only
    generalize tmOfSecs t KernelTm.zero = form at *
    refine ⟨normal, ?_⟩
    have right := @mkRight_iff form etp (normal.ints fits)
    have mday : form.tmMday ≠ intMin := by
      have inMonth := normal.date.inMonth
      have low : intMin = -2147483648 := rfl
      omega
    rw [normal.carriedYear] at right
    refine Iff.trans ?_ (right.trans (and_iff_right mday))
    rw [MkRight, normal.seconds]
    constructor
    · intro back
      exact ⟨form, normal, by rw [if_pos fits, back]⟩
    · rintro ⟨other, otherNormal, back⟩
      rw [← normal.unique otherNormal, if_pos fits] at back
      exact back
  · have refused := secsToTm_refuses fits
    rw [clockEpochTimeToTm] at converted
    dsimp only at converted
    rw [if_pos refused] at converted
    exact absurd converted (by decide : -erange ≠ 0)

/-- The fifteenth month of 1999 is March 2000, whose first day is converted back. -/
theorem epochTime_right_march2000 :
    MkRight { KernelTm.zero with tmYear := 99, tmMon := 14, tmMday := 1 } 0 ∧
      clockMkEpochTime (clockEpochTimeToTm leapoch KernelTm.zero).2 0 =
        some (0, (clockEpochTimeToTm leapoch KernelTm.zero).2, leapoch) := by
  have ints :
      { KernelTm.zero with
          tmYear := 99, tmMon := 14, tmMday := 1 : KernelTm }.Ints := by
    constructor <;> decide
  obtain ⟨right, back⟩ := epochTime_right_iff ints 0
  exact
    ⟨right.mpr (by decide),
      (back leapoch KernelTm.zero (by decide)).2.mpr (by decide)⟩

/-- The first second of 1967 is converted back to one a day later. -/
theorem epochTime_year1967 :
    ¬ ((∀ tm etp, tm.Ints → MkRight tm etp) ∧
      ∀ t old etp,
        (clockEpochTimeToTm t old).1 = 0 →
          NormalForm t (clockEpochTimeToTm t old).2 ∧
            clockMkEpochTime (clockEpochTimeToTm t old).2 etp =
              some (0, (clockEpochTimeToTm t old).2, t)) := by
  rintro ⟨-, back⟩
  have sameSecond := (back (-94694400) KernelTm.zero 0 (by decide)).2
  revert sameSecond
  decide

end Times

end RiscvWorkshop.Klib
