/-
The call stack: sixteen slots and a pointer to the next free one.

Both operations always write one slot and move the pointer by a choice, so that a
push on a full stack and a pop on an empty one write back what was there. They
report what happened instead of failing. A pointer outside 0 to 16 cannot arise
by pushing and popping, but a stack may be given with one: a negative place
counts from the end once, and past that a read takes the nearest slot and a write
is dropped.
-/
import ChipEight.Lane
import ChipEight.Error

set_option autoImplicit false

namespace ChipEight

/-- Return addresses, and the place of the next one. -/
structure CallStack where
  slots : Vector UInt16 16
  pointer : Int
  deriving DecidableEq

namespace CallStack

/-- No return addresses. -/
def empty : CallStack :=
  ⟨Vector.replicate 16 0, 0⟩

/-- A place, where a negative one counts from the end. -/
def place (i : Int) : Int :=
  if i < 0 then i + 16 else i

/-- The slot at a place, or the nearest one. -/
def slotAt (s : CallStack) (i : Int) : UInt16 :=
  s.slots.toArray.getD (clampInt 0 15 (place i)).toNat 0

/-- Writes the slot at a place, if there is one. -/
def setSlot (s : CallStack) (i : Int) (value : UInt16) : CallStack :=
  if place i < 0 then s
  else { s with slots := s.slots.setIfInBounds (place i).toNat value }

/-- Pushes the low sixteen bits of an address; reports whether the stack was full. -/
def push (s : CallStack) (address : Int) : CallStack × Bool :=
  let overflow := decide ((stackCapacity : Int) ≤ s.pointer)
  let slot := min s.pointer 15
  let value := if overflow then s.slotAt slot else wordOfInt address
  let pointer := if overflow then s.pointer else wrapLane (s.pointer + 1)
  ({ s.setSlot slot value with pointer := pointer }, overflow)

/-- Pops the last address and clears its slot; reports whether the stack was empty. -/
def pop (s : CallStack) : CallStack × UInt16 × Bool :=
  let underflow := decide (s.pointer ≤ 0)
  let pointer := max (wrapLane (s.pointer - 1)) 0
  let address := s.slotAt pointer
  let value := if underflow then address else 0
  ({ s.setSlot pointer value with pointer := pointer }, address, underflow)

/-- `push` for an address that comes from outside and has to fit a lane. -/
def pushLane (s : CallStack) (address : Int) : Except Error (CallStack × Bool) :=
  if fitsLane address then .ok (s.push address) else .error .numberRange

end CallStack
end ChipEight
