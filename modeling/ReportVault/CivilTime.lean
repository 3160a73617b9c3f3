import ReportVault.Text.Decimal

/-!
# ReportVault.CivilTime

Dates and times of day in UTC, in the proleptic Gregorian calendar.
-/

namespace ReportVault

/-- A moment as it stands on a calendar and a clock. -/
structure CivilTime where
  year : Int
  month : Nat
  day : Nat
  hour : Nat
  minute : Nat
  second : Nat
  millisecond : Nat
  deriving DecidableEq, Repr

namespace CivilTime

/-- The year, month and day that lie `days` days after the first of January 1970.  Years are counted
from the first of March, in eras of 400 years, so that a leap day is the last day of its year. -/
def dateOfDays (days : Int) : Int × Nat × Nat :=
  let shifted := days + 719468
  let era := shifted.fdiv 146097
  let dayOfEra := (shifted - era * 146097).toNat
  let yearOfEra := (dayOfEra - dayOfEra / 1460 + dayOfEra / 36524 - dayOfEra / 146096) / 365
  let dayOfYear := dayOfEra - (365 * yearOfEra + yearOfEra / 4 - yearOfEra / 100)
  let fromMarch := (5 * dayOfYear + 2) / 153
  let day := dayOfYear - (153 * fromMarch + 2) / 5 + 1
  let month := if fromMarch < 10 then fromMarch + 3 else fromMarch - 9
  let year : Int := yearOfEra + era * 400
  (if month ≤ 2 then year + 1 else year, month, day)

/-- The years that can be shown. -/
def isShown (year : Int) : Bool := decide (-262143 ≤ year ∧ year ≤ 262142)

/-- The moment `millis` milliseconds after the start of 1970, if its year can be shown. -/
def ofMillis? (millis : Int64) : Option CivilTime :=
  let days := millis.toInt.fdiv 86400000
  let ofDay := (millis.toInt - days * 86400000).toNat
  let (year, month, day) := dateOfDays days
  if isShown year then
    some
      { year, month, day
        hour := ofDay / 3600000
        minute := ofDay / 60000 % 60
        second := ofDay / 1000 % 60
        millisecond := ofDay % 1000 }
  else none

/-- A year: four digits up to 9999, and otherwise a sign and at least four digits. -/
def yearText (year : Int) : String :=
  if 0 ≤ year ∧ year ≤ 9999 then Text.zeroPadded year.natAbs 4
  else (if year < 0 then "-" else "+") ++ Text.zeroPadded year.natAbs 4

/-- The date. -/
def date (t : CivilTime) : String :=
  yearText t.year ++ "-" ++ Text.zeroPadded t.month 2 ++ "-" ++ Text.zeroPadded t.day 2

/-- The time of day to the minute. -/
def toMinute (t : CivilTime) : String :=
  Text.zeroPadded t.hour 2 ++ ":" ++ Text.zeroPadded t.minute 2

/-- The time of day to the second. -/
def toSecond (t : CivilTime) : String := t.toMinute ++ ":" ++ Text.zeroPadded t.second 2

/-- The time of day to the millisecond. -/
def toMillisecond (t : CivilTime) : String :=
  t.toSecond ++ "." ++ Text.zeroPadded t.millisecond 3

/-- A moment in a given form, or the plain number if its year cannot be shown. -/
def formatMillis (millis : Int64) (form : CivilTime → String) : String :=
  match ofMillis? millis with
  | some t => form t
  | none => Text.ofInt millis.toInt

/-- The date and the time to the minute. -/
def dateToMinute (t : CivilTime) : String := t.date ++ " " ++ t.toMinute

/-- The date and the time to the second. -/
def dateToSecond (t : CivilTime) : String := t.date ++ " " ++ t.toSecond

end CivilTime

end ReportVault
