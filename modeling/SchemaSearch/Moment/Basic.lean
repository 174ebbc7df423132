import SchemaSearch.Decimal.Integer

/-!
# Moments

A civil date and a wall-clock time with nanoseconds, without a time zone.  Second 60 is a leap second.
Moments are ordered by their parts from the year down, and have two written forms: the JSON form with
as many digits of the fraction as it needs, and the SQL form with exactly six.
-/

namespace SchemaSearch

open Decimal

/-- A point on the civil time line. -/
structure Moment where
  year : Int
  month : Nat
  day : Nat
  hour : Nat
  minute : Nat
  second : Nat
  nanosecond : Nat
  deriving DecidableEq, Repr

namespace Moment

/-! ## Which dates exist -/

/-- Whether a year of the Gregorian calendar has 366 days. -/
def isLeapYear (year : Int) : Bool := (year % 4 == 0 && year % 100 != 0) || year % 400 == 0

/-- The days of a month; months that do not exist have none. -/
def daysInMonth (year : Int) (month : Nat) : Nat :=
  match month with
  | 1 | 3 | 5 | 7 | 8 | 10 | 12 => 31
  | 4 | 6 | 9 | 11 => 30
  | 2 => if isLeapYear year then 29 else 28
  | _ => 0

/-- The first and the last year that can be told. -/
def yearRange : Int × Int := (-262143, 262142)

/-- Whether the parts name a moment. -/
def isValid (m : Moment) : Bool :=
  yearRange.1 ≤ m.year && m.year ≤ yearRange.2
    && 1 ≤ m.day && m.day ≤ daysInMonth m.year m.month
    && m.hour < 24 && m.minute < 60 && m.second ≤ 60 && m.nanosecond < 1000000000

/-! ## Order -/

/-- The parts, the most significant first. -/
def parts (m : Moment) : List Int :=
  [m.year, m.month, m.day, m.hour, m.minute, m.second, m.nanosecond]

/-- Whether one moment comes before another. -/
def before (a b : Moment) : Bool := List.lex a.parts b.parts

/-! ## Text -/

/-- A year in four digits; years outside `0` to `9999` carry a sign. -/
def yearText (year : Int) : String :=
  if 0 ≤ year ∧ year ≤ 9999 then padded 4 year.natAbs
  else (if year < 0 then "-" else "+") ++ padded 4 year.natAbs

/-- The date, as year, month and day. -/
def dateText (m : Moment) : String :=
  yearText m.year ++ "-" ++ padded 2 m.month ++ "-" ++ padded 2 m.day

/-- Hours, minutes and seconds. -/
def clockText (m : Moment) : String :=
  padded 2 m.hour ++ ":" ++ padded 2 m.minute ++ ":" ++ padded 2 m.second

/-- The fraction with three, six or nine digits, whichever is the first that is exact; none at all
when it is zero. -/
def fractionText (m : Moment) : String :=
  if m.nanosecond = 0 then ""
  else if m.nanosecond % 1000000 = 0 then "." ++ padded 3 (m.nanosecond / 1000000)
  else if m.nanosecond % 1000 = 0 then "." ++ padded 6 (m.nanosecond / 1000)
  else "." ++ padded 9 m.nanosecond

/-- The JSON form. -/
def toText (m : Moment) : String := m.dateText ++ "T" ++ m.clockText ++ m.fractionText

/-- The form in which a database column stores a moment. -/
def storedText (m : Moment) : String := m.dateText ++ " " ++ m.clockText ++ m.fractionText

/-- The form of an SQL literal: six digits of the fraction, the rest cut off. -/
def literalText (m : Moment) : String :=
  m.dateText ++ " " ++ m.clockText ++ "." ++ padded 6 (m.nanosecond / 1000)

end Moment

end SchemaSearch
