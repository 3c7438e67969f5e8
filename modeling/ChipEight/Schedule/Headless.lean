/-
Runs without a clock: so many instructions, as fast as they go.

The timers tick after every so many instructions, which keeps the ratio of the two
cadences. The run ends at the first fault, and an instruction that faults is not
counted.
-/
import ChipEight.Schedule.Run

set_option autoImplicit false

namespace ChipEight.Machine

/-- How many instructions there are to a tick, unless said otherwise. -/
def instructionsPerTick : Int := 12

/-- How a headless run stands. -/
structure Headless where
  machine : Machine
  done : Nat := 0
  ticks : Nat := 0
  /-- What was reported, in order. -/
  notices : List Notice := []
  /-- What ended the run early. -/
  stop : Option (Except Error Fault) := none

/-- Does a tick follow the instruction with this number? -/
def ticksAfter (perTick : Int) (number : Nat) : Except Error Bool :=
  if perTick = 0 then .error .divisionByZero else .ok (decide (perTick ∣ (number : Int)))

/-- At most `left` more instructions. -/
def headlessLoop (perTick : Int) : Nat → Headless → Headless
  | 0, h => h
  | left + 1, h =>
    match h.machine.step with
    | (machine, some f, notices) =>
      { h with machine := machine, notices := h.notices ++ notices, stop := some (.ok f) }
    | (machine, none, notices) =>
      let h := { h with machine := machine, notices := h.notices ++ notices }
      match ticksAfter perTick (h.done + 1) with
      | .error e => { h with stop := some (.error e) }
      | .ok true =>
        headlessLoop perTick left
          { h with machine := h.machine.tick, done := h.done + 1, ticks := h.ticks + 1 }
      | .ok false => headlessLoop perTick left { h with done := h.done + 1 }

/-- A headless run of `count` instructions that took `span` seconds. The count is reported
as it was given when it is not positive. -/
def runHeadless (m : Machine) (count : Int) (perTick : Int) (span : Float) :
    Machine × Except Error (Report Float) × List Notice :=
  let h := headlessLoop perTick count.toNat { machine := m }
  let report (instructions : Int) (fault : Option Fault) : Report Float :=
    { instructions := instructions, timerTicks := h.ticks, frames := 0, elapsed := span
      fault := fault, dropped := 0 }
  let result := match h.stop with
    | some (.error e) => .error e
    | some (.ok f) => .ok (report h.done (some f))
    | none => .ok (report (if count ≤ 0 then count else h.done) none)
  (h.machine, result, h.notices)

end ChipEight.Machine
