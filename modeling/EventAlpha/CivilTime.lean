import Mathlib.Data.Int.Basic

/-!
# Civil time

The text of an instant.  An instant is a count of microseconds from the start
of 1970 in UTC, its date is one of the proleptic Gregorian calendar, and
`isoformat` writes both as ISO 8601 does, to the second or the microsecond.

Years are counted from March, so that the leap day is the last of its year,
and grouped into cycles of 400 years, which all have 146097 days.
-/

namespace CivilTime

/-- A date of the Gregorian calendar. -/
structure CivilDate where
  year : Int
  month : Int
  day : Int
  deriving DecidableEq, Repr

/-- The date of a day, counted from the start of 1970. -/
def civilDate (days : Int) : CivilDate :=
  let shifted := days + 719468
  let cycle := shifted / 146097
  let dayOfCycle := shifted % 146097
  let yearOfCycle :=
    (dayOfCycle - dayOfCycle / 1460 + dayOfCycle / 36524 - dayOfCycle / 146096) / 365
  let dayOfYear := dayOfCycle - (365 * yearOfCycle + yearOfCycle / 4 - yearOfCycle / 100)
  let monthFromMarch := (5 * dayOfYear + 2) / 153
  let month := if monthFromMarch < 10 then monthFromMarch + 3 else monthFromMarch - 9
  ⟨yearOfCycle + cycle * 400 + if month ≤ 2 then 1 else 0, month,
    dayOfYear - (153 * monthFromMarch + 2) / 5 + 1⟩

/-- A number in decimal, padded with zeros on the left. -/
def padded (width : ℕ) (n : Int) : List Char :=
  (Nat.toDigits 10 n.natAbs).leftpad width '0'

/-- The text of an instant to the second. -/
def isoSeconds (instant : Int) : List Char :=
  let seconds := instant / 1000000
  let date := civilDate (seconds / 86400)
  let second := seconds % 86400
  padded 4 date.year ++ '-' :: padded 2 date.month ++ '-' :: padded 2 date.day ++
    'T' :: padded 2 (second / 3600) ++ ':' :: padded 2 (second / 60 % 60) ++
    ':' :: padded 2 (second % 60)

/-- The fraction of the second of an instant. -/
def isoFraction (instant : Int) : List Char := '.' :: padded 6 (instant % 1000000)

/-- The offset of UTC. -/
def utcOffset : List Char := ['+', '0', '0', ':', '0', '0']

/-- `isoformat(timespec="microseconds")` of a UTC instant. -/
def isoformatMicroseconds (instant : Int) : String :=
  String.ofList (isoSeconds instant ++ isoFraction instant ++ utcOffset)

/-- `isoformat()` of a UTC instant: a fraction of zero is left out. -/
def isoformat (instant : Int) : String :=
  String.ofList (isoSeconds instant ++
    (if instant % 1000000 = 0 then [] else isoFraction instant) ++ utcOffset)

end CivilTime
