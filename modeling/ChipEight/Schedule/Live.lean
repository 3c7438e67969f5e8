/-
Live surroundings: a run whose clock is read between its turns.

A turn reads the clock once and sleeps at most once, at its end. So the time can be
taken before the turn and put in, and the sleep taken out after it, and the turn in
between needs no clock of its own. Nobody presses keys and nobody sees pictures.
-/
import ChipEight.Schedule.Run

set_option autoImplicit false

namespace ChipEight

/-- The time of a turn, in seconds, and how long to sleep after it. -/
structure Moment where
  now : Float
  wait : Option Float := none

namespace Moment

/-- The surroundings of one turn. -/
def surroundings : Surroundings Float Moment where
  read b := (b.now, b)
  sleep span b := { b with wait := some span }
  poll _ b := ([], b)
  render _ b := b

end Moment

namespace Run

/-- A run before its first turn, at a time. -/
def beginAt (now : Float) (p : Plan Float) (m : Machine) : Run Float Moment :=
  begin Moment.surroundings p m { now := now }

/-- One turn at a time. The trace starts afresh, so that it tells of this turn alone. -/
def turnAt (now : Float) (p : Plan Float) (r : Run Float Moment) :
    Run Float Moment × Option Exit :=
  let fresh : Run Float Moment := { r with outside := { now := now }, trace := [] }
  fresh.turn Moment.surroundings p {}

/-- The end of a run, at a time. -/
def concludeAt (now : Float) (exit : Exit) (r : Run Float Moment) : Outcome Float Moment :=
  let fresh : Run Float Moment := { r with outside := { now := now }, trace := [] }
  fresh.conclude Moment.surroundings exit

end Run
end ChipEight
