/-
The arithmetic and logic of the words 8XYN.

Each operation maps two bytes to a result and a flag, or to a result alone. They
are computed on integers, where nothing wraps, and the result is cut to a byte.
Adding and shifting left flag a carry, subtracting flags the absence of a borrow,
and shifting right flags the bit shifted out.
-/
import ChipEight.Instruction.Operation

set_option autoImplicit false

namespace ChipEight.Arithmetic

/-- A result, and the flag if the operation has one. -/
structure Result where
  value : Int
  flag : Option Int

/-- A condition as a flag. -/
def flagOf (condition : Bool) : Int :=
  if condition then 1 else 0

/-- The first operand is replaced by the second. -/
def copy (_vx vy : Int) : Result :=
  ⟨vy, none⟩

/-- A bitwise operation on two bytes. -/
def bitwise (f : UInt8 → UInt8 → UInt8) (vx vy : Int) : Result :=
  ⟨(f (UInt8.ofNat vx.toNat) (UInt8.ofNat vy.toNat)).toNat, none⟩

/-- The sum, with the carry. -/
def add (vx vy : Int) : Result :=
  ⟨(vx + vy) % 256, some (flagOf (decide (255 < vx + vy)))⟩

/-- The first operand less the second; the flag is clear on a borrow. -/
def subtract (vx vy : Int) : Result :=
  ⟨(vx - vy) % 256, some (flagOf (decide (vy ≤ vx)))⟩

/-- The second operand less the first; the flag is clear on a borrow. -/
def reverseSubtract (vx vy : Int) : Result :=
  ⟨(vy - vx) % 256, some (flagOf (decide (vx ≤ vy)))⟩

/-- Half of the first operand, with the low bit. -/
def shiftRight (vx _vy : Int) : Result :=
  ⟨vx / 2, some (vx % 2)⟩

/-- Twice the first operand, with the high bit. -/
def shiftLeft (vx _vy : Int) : Result :=
  ⟨(2 * vx) % 256, some (vx / 128 % 2)⟩

end ChipEight.Arithmetic
