/-
Plans: at which rates a run proceeds, and when it ends.

A rate is a number of events in a second, and its period is the time between two
of them. A rate of zero has no period.
-/
import ChipEight.Quantity
import ChipEight.Schedule.Time

set_option autoImplicit false

namespace ChipEight

/-- The rates of the three cadences, in events per second. -/
structure Rates where
  instructions : Quantity
  timers : Quantity
  renders : Quantity

/-- The time between two events of a rate, in seconds. -/
def Quantity.period (q : Quantity) : Except Error Float :=
  match q.toFloat? with
  | none => .error .numberRange
  | some x => if x == 0 then .error .divisionByZero else .ok (1 / x)

/-- The periods of the cadences, the rates as they were given, and how long to sleep
when nothing is due. -/
structure Plan (T : Type) where
  rates : Rates
  instructionPeriod : T
  timerPeriod : T
  renderPeriod : T
  idleSleep : T

/-- The plan for rates. -/
def Plan.ofRates (rates : Rates) (idleSleep : Float) : Except Error (Plan Float) := do
  let instructionPeriod ← rates.instructions.period
  let timerPeriod ← rates.timers.period
  let renderPeriod ← rates.renders.period
  return { rates := rates, instructionPeriod := instructionPeriod, timerPeriod := timerPeriod
           renderPeriod := renderPeriod, idleSleep := idleSleep }

/-- When a run ends by itself. -/
structure Limits (T : Type) where
  instructions : Option Int := none
  time : Option T := none

end ChipEight
