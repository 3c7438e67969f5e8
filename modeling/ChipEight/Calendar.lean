/-
Calendar dates and times of day.

A time is a number of seconds since the start of 1970. Its day is counted in years
that begin in March, so that the leap day is the last one, and in spans of four
hundred years, which all have the same number of days.
-/
import ChipEight.Text.Decimal
import ChipEight.Text.Hex

set_option autoImplicit false

namespace ChipEight

/-- A date and a time of day. -/
structure CalendarTime where
  year : Int
  month : Nat
  day : Nat
  hour : Nat
  minute : Nat
  second : Nat
  deriving DecidableEq

namespace CalendarTime

/-- The days of four hundred years. -/
def daysOfSpan : Int := 146097

/-- The date of a day, counted from the start of 1970. -/
def dateOfDay (days : Int) : Int × Nat × Nat :=
  -- from the first of March of the year 0
  let d := days + 719468
  let span := d / daysOfSpan
  let dayOfSpan := (d % daysOfSpan).toNat
  let yearOfSpan :=
    (dayOfSpan - dayOfSpan / 1460 + dayOfSpan / 36524 - dayOfSpan / 146096) / 365
  let dayOfYear := dayOfSpan - (365 * yearOfSpan + yearOfSpan / 4 - yearOfSpan / 100)
  let fromMarch := (5 * dayOfYear + 2) / 153
  let day := dayOfYear - (153 * fromMarch + 2) / 5 + 1
  let month := if fromMarch < 10 then fromMarch + 3 else fromMarch - 9
  let year := span * 400 + yearOfSpan + (if month ≤ 2 then 1 else 0)
  (year, month, day)

/-- The date and time of a number of seconds. -/
def ofSeconds (seconds : Int) : CalendarTime :=
  let (year, month, day) := dateOfDay (seconds / 86400)
  let rest := (seconds % 86400).toNat
  { year := year, month := month, day := day
    hour := rest / 3600, minute := rest / 60 % 60, second := rest % 60 }

/-- A number with at least two digits. -/
def twoDigits (n : Nat) : String :=
  String.ofList (Text.padStart '0' 2 (Text.digits n))

/-- The date and the time in digits, with a low line between them. -/
def stamp (t : CalendarTime) : String :=
  Text.integer t.year ++ twoDigits t.month ++ twoDigits t.day ++ "_"
    ++ twoDigits t.hour ++ twoDigits t.minute ++ twoDigits t.second

end CalendarTime
end ChipEight
