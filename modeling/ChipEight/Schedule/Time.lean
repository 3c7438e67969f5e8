/-
Times, as far as a schedule needs them.

A schedule adds, subtracts and compares times, and asks how many whole periods a
span holds. It runs on doubles, in seconds; stated over a class it can be studied on
exact times as well. Counting periods can fail on doubles alone: a quotient may be
infinite or no number.
-/
import ChipEight.Error
import ChipEight.Text.Binary64

set_option autoImplicit false

namespace ChipEight

/-- What a schedule does with times and spans of time. -/
class Time (T : Type) where
  add : T → T → T
  sub : T → T → T
  /-- Is the first at least the second? -/
  reached : T → T → Bool
  /-- Is the span longer than none? -/
  lasting : T → Bool
  /-- So many periods. -/
  periods : Int → T → Except Error T
  /-- How many whole periods a span holds, toward zero. -/
  count : T → T → Except Error Int

namespace Time

/-- How many whole periods a span of seconds holds. -/
def countSeconds (span period : Float) : Except Error Int :=
  if period == 0 then .error .divisionByZero
  else
    let quotient := Text.Reading.of (span / period)
    match quotient, quotient.wholePart? with
    | _, some n => .ok n
    | .nan, none => .error .notANumber
    | _, none => .error .numberRange

/-- So many periods in seconds. -/
def periodsInSeconds (n : Int) (period : Float) : Except Error Float :=
  match Text.floatOfInt? n with
  | some x => .ok (x * period)
  | none => .error .numberRange

instance : Time Float where
  add a b := a + b
  sub a b := a - b
  reached a b := decide (b ≤ a)
  lasting a := decide (0 < a)
  periods := periodsInSeconds
  count := countSeconds

/-- Nanoseconds in seconds, rounded once more by the division. -/
def ofNanoseconds (ns : Int) : Except Error Float :=
  match Text.floatOfInt? ns with
  | some x => .ok (x / 1000000000)
  | none => .error .numberRange

end Time
end ChipEight
