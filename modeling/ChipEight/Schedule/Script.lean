/-
Scripted surroundings: a clock and a frontend that follow a script.

The clock goes on by a fixed step at each reading, and by a jump at some of them;
sleep takes exactly the time it is given. The frontend asks at each poll for what
the script says for its number. So a run can be repeated to the last bit.
-/
import ChipEight.Schedule.Run

set_option autoImplicit false

namespace ChipEight

/-- What happens at which reading of the clock and at which poll, counted from one. -/
structure Script where
  /-- The step of the clock at each reading, in seconds. -/
  step : Float
  /-- Further steps at single readings. A later entry for a reading replaces an earlier one. -/
  jumps : List (Int × Float) := []
  polls : List (Int × List Request) := []

/-- How far a script has been followed. -/
structure Playback where
  now : Float := 0
  readings : Nat := 0
  slept : Float := 0
  polls : Nat := 0

namespace Script

/-- The entry for a number, the latest one. -/
def entryFor {α : Type} (entries : List (Int × α)) (number : Nat) : Option α :=
  (entries.reverse.find? fun e => e.1 == (number : Int)).map (·.2)

/-- Reads the scripted clock. -/
def read (s : Script) (b : Playback) : Float × Playback :=
  let readings := b.readings + 1
  let now := b.now + s.step
  let now := match entryFor s.jumps readings with
    | some jump => now + jump
    | none => now
  (now, { b with now := now, readings := readings })

/-- Sleeps by moving the clock. -/
def sleep (span : Float) (b : Playback) : Playback :=
  { b with slept := b.slept + span, now := b.now + span }

/-- The requests of the next poll. -/
def poll (s : Script) (b : Playback) : List Request × Playback :=
  let polls := b.polls + 1
  ((entryFor s.polls polls).getD [], { b with polls := polls })

/-- The surroundings of a script, with its frontend. -/
def surroundings (s : Script) : Surroundings Float Playback where
  read := s.read
  sleep := sleep
  poll _ := s.poll
  render _ b := b

/-- The clock of a script, with a frontend that never asks for anything. -/
def headless (s : Script) : Surroundings Float Playback where
  read := s.read
  sleep := sleep
  poll _ b := ([], b)
  render _ b := b

end Script
end ChipEight
