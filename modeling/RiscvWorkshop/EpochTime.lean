import Mathlib
import RiscvWorkshop.Gregorian

namespace RiscvWorkshop.Klib

open Gregorian

/-!
# Seconds and calendar times

An epoch time counts the seconds from the beginning of 1970.  The kernel turns it
into a calendar time by way of the 1st of March 2000, and back through the year.
The fields of a calendar time are of type `int`; no sum of seconds leaves 64 bits.
-/

/-- `INT_MIN` and `INT_MAX`. -/
def intMin : Int := -2147483648

def intMax : Int := 2147483647

/-- `EINVAL` and `ERANGE`. -/
def einval : Int := 22

def erange : Int := 34

/-- `SECS_PER_MIN` and `SECS_PER_HOUR`. -/
def secsPerMin : Int := 60

def secsPerHour : Int := 60 * secsPerMin

/-- `MINS_PER_HOUR`. -/
def minsPerHour : Int := 60

/-- `SECS_PER_DAY`. -/
def secsPerDay : Int := 24 * secsPerHour

/-- `DAYS_PER_YEAR`, `SECS_PER_YEAR` and `SECS_PER_LEAP_YEAR`. -/
def daysPerYear : Int := 365

def secsPerYear : Int := daysPerYear * secsPerDay

def secsPerLeapYear : Int := 366 * secsPerDay

/-- `DAYS_PER_400Y`, `DAYS_PER_100Y` and `DAYS_PER_4Y`. -/
def daysPer400Y : Int := daysPerYear * 400 + 97

def daysPer100Y : Int := daysPerYear * 100 + 24

def daysPer4Y : Int := daysPerYear * 4 + 1

/-- `MILLENNIUM_SECS`: the beginning of the year 2000. -/
def millenniumSecs : Int := 946684800

/-- `LEAPOCH`: the 1st of March 2000, a Wednesday. -/
def leapoch : Int := millenniumSecs + secsPerDay * (31 + 29)

/-- `LEAPOCH_WDAY`. -/
def leapochWday : Int := 3

/-- `kernel_tm`; the time zone is a pointer. -/
structure KernelTm where
  tmSec : Int
  tmMin : Int
  tmHour : Int
  tmMday : Int
  tmMon : Int
  tmYear : Int
  tmWday : Int
  tmYday : Int
  tmIsdst : Int
  tmGmtoff : Int
  tmZone : Option Nat
  deriving DecidableEq

/-- A structure of zeros. -/
def KernelTm.zero : KernelTm :=
  { tmSec := 0, tmMin := 0, tmHour := 0, tmMday := 0, tmMon := 0, tmYear := 0
    tmWday := 0, tmYday := 0, tmIsdst := 0, tmGmtoff := 0, tmZone := none }

/-- A division, and what follows it when the remainder is negative. -/
def divideDown (number divisor : Int) : Int × Int :=
  let quotient := number.tdiv divisor
  let remainder := number.tmod divisor
  if remainder < 0 then
    (quotient - 1, remainder + divisor)
  else
    (quotient, remainder)

/-! ## From seconds to calendar times -/

/-- `mar2feb_days_in_month`. -/
def mar2febDaysInMonth : List Int :=
  [31, 30, 31, 30, 31, 31, 30, 31, 30, 31, 31, 29]

/-- The loop over the months from March on. -/
def monthLoop : List Int → Int → Int → Int × Int
  | [], months, remdays => (months, remdays)
  | length :: later, months, remdays =>
      if remdays ≥ length then
        monthLoop later (months + 1) (remdays - length)
      else
        (months, remdays)

/-- The cycles of days since March 2000, the years and the days behind them. -/
structure DayCycles where
  qcCycles : Int
  cCycles : Int
  qCycles : Int
  remyears : Int
  remdays : Int

/-- The part of `__secs_to_tm` that takes days apart. -/
def dayCycles (days : Int) : DayCycles :=
  let (qcCycles, remdays) := divideDown days daysPer400Y
  let cCycles := remdays.tdiv daysPer100Y
  let cCycles := if cCycles = 4 then cCycles - 1 else cCycles
  let remdays := remdays - cCycles * daysPer100Y
  let qCycles := remdays.tdiv daysPer4Y
  let qCycles := if qCycles = 25 then qCycles - 1 else qCycles
  let remdays := remdays - qCycles * daysPer4Y
  let remyears := remdays.tdiv daysPerYear
  let remyears := if remyears = 4 then remyears - 1 else remyears
  let remdays := remdays - remyears * daysPerYear
  { qcCycles, cCycles, qCycles, remyears, remdays }

/-- The fields that `__secs_to_tm` computes. -/
def tmOfSecs (t : Int) (tm : KernelTm) : KernelTm :=
  let secs := t - leapoch
  let (days, remsecs) := divideDown secs secsPerDay
  let wday := (divideDown (leapochWday + days) 7).2
  let cycles := dayCycles days
  let leap : Int :=
    if cycles.remyears = 0 ∧ (cycles.qCycles ≠ 0 ∨ cycles.cCycles = 0) then 1
    else 0
  let yday := cycles.remdays + 31 + 28 + leap
  let yday :=
    if yday ≥ daysPerYear + leap then yday - (daysPerYear + leap) else yday
  let years :=
    cycles.remyears + 4 * cycles.qCycles + 100 * cycles.cCycles +
      4 * 100 * cycles.qcCycles
  let (months, remdays) := monthLoop mar2febDaysInMonth 0 cycles.remdays
  let (months, years) :=
    if months ≥ 10 then (months - 12, years + 1) else (months, years)
  { tm with
    tmYear := years + 100
    tmMon := months + 2
    tmMday := remdays + 1
    tmWday := wday
    tmYday := yday
    tmHour := remsecs.tdiv secsPerHour
    tmMin := (remsecs.tdiv secsPerMin).tmod minsPerHour
    tmSec := remsecs.tmod secsPerMin }

/-- `__secs_to_tm`: what it returns, and the structure. -/
def secsToTm (t : Int) (tm : KernelTm) : Int × KernelTm :=
  if t < intMin * secsPerLeapYear ∨ t > intMax * secsPerLeapYear then
    (-einval, tm)
  else
    let new := tmOfSecs t tm
    if new.tmYear > intMax ∨ new.tmYear < intMin then
      (-erange, tm)
    else
      (0, new)

/-! ## From calendar times to seconds -/

/-- `secs_through_month`. -/
def secsThroughMonth : List Int :=
  [0, 31 * secsPerDay, 59 * secsPerDay, 90 * secsPerDay, 120 * secsPerDay,
    151 * secsPerDay, 181 * secsPerDay, 212 * secsPerDay, 243 * secsPerDay,
    273 * secsPerDay, 304 * secsPerDay, 334 * secsPerDay]

/-- `__month_to_secs`, for the months of a year. -/
def monthToSecs (month : Int) (isLeap : Int) : Int :=
  let t := secsThroughMonth.getD month.toNat 0
  if isLeap ≠ 0 ∧ month ≥ 2 then t + secsPerDay else t

/--
`__year_to_secs`: the seconds, and whether the year is a leap year.  The first
comparison is unsigned.
-/
def yearToSecs (year : Int) : Int × Int :=
  if (year - 2) % 2 ^ 64 ≤ 136 then
    let y := year - 68
    let leaps := y.tdiv 4
    let (leaps, isLeap) := if y.tmod 4 = 0 then (leaps - 1, 1) else (leaps, 0)
    (secsPerYear * (year - 70) + secsPerDay * leaps, isLeap)
  else
    let (cycles, rem) := divideDown (year - 100) 400
    let (centuries, leaps, isLeap) : Int × Int × Int :=
      if rem = 0 then
        (0, 0, 1)
      else
        let (centuries, rem) : Int × Int :=
          if rem ≥ 2 * 100 then
            if rem ≥ 3 * 100 then (3, rem - 3 * 100) else (2, rem - 2 * 100)
          else if rem ≥ 100 then
            (1, rem - 100)
          else
            (0, rem)
        if rem = 0 then
          (centuries, 0, 0)
        else
          (centuries, rem / 4, if rem % 4 = 0 then 1 else 0)
    let leaps := leaps + (97 * cycles + 24 * centuries - isLeap)
    ((year - 100) * secsPerYear + leaps * secsPerDay + millenniumSecs +
      secsPerDay, isLeap)

/-- `tm->tm_mday - 1`, a subtraction of type `int` that must not overflow. -/
def daysBeforeMday (tm : KernelTm) : Option Int :=
  if tm.tmMday - 1 < intMin then none else some (tm.tmMday - 1)

/-- `__tm_to_secs`; there is no result when a subtraction overflows. -/
def tmToSecs (tm : KernelTm) : Option Int :=
  let year := tm.tmYear
  let month := tm.tmMon
  let (year, month) :=
    if month ≥ 12 ∨ month < 0 then
      let (adj, month) := divideDown month 12
      (year + adj, month)
    else
      (year, month)
  let (t, isLeap) := yearToSecs year
  let t := t + monthToSecs month isLeap
  (daysBeforeMday tm).map fun days =>
    let t := t + secsPerDay * days
    let t := t + secsPerHour * tm.tmHour
    let t := t + secsPerMin * tm.tmMin
    t + tm.tmSec

/-! ## The two functions of the interface -/

/-- `clock_mk_epoch_time`: what it returns, the normalised structure and the time. -/
def clockMkEpochTime
    (tmv : KernelTm)
    (etp : Int) : Option (Int × KernelTm × Int) :=
  (tmToSecs tmv).map fun t =>
    let (rc, new) := secsToTm t KernelTm.zero
    if rc < 0 then (-erange, tmv, etp) else (0, new, t)

/-- `clock_epoch_time_to_tm`. -/
def clockEpochTimeToTm
    (et : Int)
    (tmv : KernelTm) : Int × KernelTm :=
  let (rc, new) := secsToTm et KernelTm.zero
  if rc < 0 then (-erange, tmv) else (0, new)

end RiscvWorkshop.Klib
