/-
Moments and their written form. A moment counts seconds from the start
of 1970; its date is that of the Gregorian calendar, extended to both
sides, in coordinated universal time.

- `Date.ofDay`: the date of a day counted from 1970-01-01.
- `Moment.text`: `year-month-dayThour:minute:second.millisecondsZ`.
-/
namespace SchemaAtlas

-- ==================================================== dates

/-- A day of the Gregorian calendar. -/
structure Date where
  year : Int
  month : Nat
  day : Nat
  deriving DecidableEq, Repr

/-- The date of a day counted from 1970-01-01. Years are counted from
March inside cycles of 400 years, so that a leap day is the last day of
its year. -/
def Date.ofDay (n : Int) : Date :=
  let fromMarch := n + 719468
  let cycle := fromMarch / 146097
  let dayOfCycle := (fromMarch % 146097).toNat
  let yearOfCycle :=
    (dayOfCycle - dayOfCycle / 1460 + dayOfCycle / 36524 - dayOfCycle / 146096) / 365
  let dayOfYear := dayOfCycle - (365 * yearOfCycle + yearOfCycle / 4 - yearOfCycle / 100)
  let monthOfYear := (5 * dayOfYear + 2) / 153
  let month := if monthOfYear < 10 then monthOfYear + 3 else monthOfYear - 9
  { year := Int.ofNat yearOfCycle + cycle * 400 + if month ≤ 2 then 1 else 0
    month
    day := dayOfYear - (153 * monthOfYear + 2) / 5 + 1 }

-- ==================================================== moments

/-- A moment: whole seconds from the start of 1970, and nanoseconds. A
thousand million nanoseconds and more belong to a leap second that
follows the second named. -/
structure Moment where
  seconds : Int
  nanoseconds : Nat
  deriving DecidableEq, Repr

/-- A number with zeros in front up to the given count of digits. -/
def zeroPadded (digits n : Nat) : String :=
  let text := Nat.repr n
  String.ofList (List.replicate (digits - text.length) '0') ++ text

/-- A year: four digits from 0 to 9999, otherwise signed and at least
four digits. -/
def yearText (year : Int) : String :=
  if 0 ≤ year ∧ year ≤ 9999 then zeroPadded 4 year.toNat
  else (if year < 0 then "-" else "+") ++ zeroPadded 4 year.natAbs

namespace Moment

/-- The moment cut to milliseconds. A leap second is written as second
sixty. -/
def text (m : Moment) : String :=
  let date := Date.ofDay (m.seconds / 86400)
  let ofDay := (m.seconds % 86400).toNat
  let leap := m.nanoseconds / 1000000000
  let milliseconds := m.nanoseconds % 1000000000 / 1000000
  yearText date.year ++ "-" ++ zeroPadded 2 date.month ++ "-" ++ zeroPadded 2 date.day
    ++ "T" ++ zeroPadded 2 (ofDay / 3600) ++ ":" ++ zeroPadded 2 (ofDay / 60 % 60)
    ++ ":" ++ zeroPadded 2 (ofDay % 60 + leap) ++ "." ++ zeroPadded 3 milliseconds ++ "Z"

end Moment

end SchemaAtlas
