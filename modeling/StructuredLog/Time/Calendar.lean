import StructuredLog.Number.Decimal

/-!
The proleptic Gregorian calendar, counted in days since 1970-01-01, and the texts of dates and
times of day. `daysOfDate` and `dateOfDays` are inverse to each other on valid dates; both count
from the first of March, so that a leap day is the last day of its year.
-/

namespace StructuredLog.Calendar

structure Date where
  year : Int
  month : Nat
  day : Nat
  deriving DecidableEq, Repr

def epochShift : Int := 719468

def cycleDays : Int := 146097

def daysOfDate (d : Date) : Int :=
  let y := if d.month ≤ 2 then d.year - 1 else d.year
  let cycle := y / 400
  let yearOfCycle := y % 400
  let marchMonth : Int := if d.month ≤ 2 then d.month + 9 else d.month - 3
  let dayOfYear := (153 * marchMonth + 2) / 5 + d.day - 1
  cycle * cycleDays + yearOfCycle * 365 + yearOfCycle / 4 - yearOfCycle / 100 + dayOfYear -
    epochShift

def dateOfDays (n : Int) : Date :=
  let shifted := n + epochShift
  let cycle := shifted / cycleDays
  let dayOfCycle := shifted % cycleDays
  let yearOfCycle :=
    (dayOfCycle - dayOfCycle / 1460 + dayOfCycle / 36524 - dayOfCycle / 146096) / 365
  let dayOfYear := dayOfCycle - (365 * yearOfCycle + yearOfCycle / 4 - yearOfCycle / 100)
  let marchMonth := (5 * dayOfYear + 2) / 153
  let day := dayOfYear - (153 * marchMonth + 2) / 5 + 1
  let month := if marchMonth < 10 then marchMonth + 3 else marchMonth - 9
  let year := yearOfCycle + cycle * 400 + (if month ≤ 2 then 1 else 0)
  ⟨year, month.toNat, day.toNat⟩

def Date.text (d : Date) : Text :=
  Decimal.paddedInt 4 d.year ++ [45] ++ Decimal.padded 2 d.month ++ [45] ++ Decimal.padded 2 d.day

def timeText (secondOfDay : Nat) : Text :=
  Decimal.padded 2 (secondOfDay / 3600) ++ [58] ++ Decimal.padded 2 (secondOfDay / 60 % 60)
    ++ [58] ++ Decimal.padded 2 (secondOfDay % 60)

end StructuredLog.Calendar
