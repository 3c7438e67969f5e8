/-
The state of the machine, without the bookkeeping of a run.

Everything has the width of the hardware: bytes in memory and registers, sixteen
bits in the program counter and the index. Only the program may change most of
it; the timers also count down on their own, and the keypad follows the keys.
-/
import ChipEight.Memory
import ChipEight.CallStack
import ChipEight.Keypad
import ChipEight.Display.Grid
import ChipEight.Random

set_option autoImplicit false

namespace ChipEight

/-- `FaultLatch.note` for numbers that come from outside and have to fit a lane. -/
def FaultLatch.noteLane (l : FaultLatch) (condition : Bool) (code start length : Int) :
    Except Error FaultLatch :=
  if fitsLane code && fitsLane start && fitsLane length then
    .ok (l.note condition code start length)
  else .error .numberRange

/-- The state of the machine. -/
structure State where
  rng : RandomKey
  memory : Memory
  /-- The address of the next word. -/
  pc : UInt16
  display : Grid
  /-- Has the display been written since it was last taken? -/
  displayChanged : Bool
  stack : CallStack
  delayTimer : UInt8
  soundTimer : UInt8
  keypad : Keypad
  /-- The registers V0 to VF. -/
  V : Vector UInt8 16
  /-- The index register. -/
  I : UInt16
  /-- What the current cycle has noted; empty between cycles. -/
  latch : FaultLatch
  deriving DecidableEq

namespace State

/-- The state before the first cycle. -/
def fresh (rng : RandomKey) : State where
  rng := rng
  memory := Memory.fresh
  pc := 0x200
  display := Grid.blank
  displayChanged := false
  stack := CallStack.empty
  delayTimer := 0
  soundTimer := 0
  keypad := Keypad.released
  V := Vector.replicate 16 0
  I := 0
  latch := {}

/-- The value of a register. -/
def reg (s : State) (r : Fin 16) : UInt8 :=
  s.V[r]

/-- Writes a register. -/
def setReg (s : State) (r : Fin 16) (value : UInt8) : State :=
  { s with V := s.V.set r value }

/-- Notes a fault where `condition` holds, unless one is noted already. -/
def note (s : State) (condition : Bool) (code start length : Int) : State :=
  { s with latch := s.latch.note condition code start length }

/-- Both timers count down by one and stop at zero. -/
def tick (s : State) : State :=
  { s with
    delayTimer := if 0 < s.delayTimer then s.delayTimer - 1 else 0
    soundTimer := if 0 < s.soundTimer then s.soundTimer - 1 else 0 }

/-- Copies a program into the memory. -/
def loadProgram (s : State) (program : List UInt8) : Except Error State := do
  let memory ← s.memory.loadProgram program
  return { s with memory := memory }

end State
end ChipEight
