/-
The keypad: sixteen keys, each held or not, and the latest press.

The latest press is the last key pressed, for as long as it is held. Releasing it
leaves no latest press: it never falls back to a key pressed earlier that is still
held.
-/
import ChipEight.Error

set_option autoImplicit false

namespace ChipEight

/-- Which keys are held, and the latest press, `-1` when there is none. -/
structure Keypad where
  held : Vector Bool 16
  lastPressed : Int
  deriving DecidableEq

namespace Keypad

/-- No key held. -/
def released : Keypad :=
  ⟨Vector.replicate 16 false, -1⟩

/-- A number as one of the sixteen keys. -/
def checkKey (key : Int) : Except Error Nat :=
  if 0 ≤ key ∧ key < 16 then .ok key.toNat else .error (.keyOutOfRange key)

/-- The key is held from now on, and is the latest press. -/
def press (k : Keypad) (key : Int) : Except Error Keypad := do
  let i ← checkKey key
  return { held := k.held.setIfInBounds i true, lastPressed := key }

/-- The key is no longer held. -/
def release (k : Keypad) (key : Int) : Except Error Keypad := do
  let i ← checkKey key
  return { held := k.held.setIfInBounds i false
           lastPressed := if k.lastPressed = key then -1 else k.lastPressed }

/-- Is the key named by the low digit of a number held? -/
def isHeld (k : Keypad) (key : Int) : Bool :=
  k.held.toArray.getD (key % 16).toNat false

/-- The latest press, if there is one. -/
def latest? (k : Keypad) : Option Int :=
  if k.lastPressed < 0 then none else some k.lastPressed

/-- The held keys, ascending. -/
def heldKeys (k : Keypad) : List Nat :=
  (List.range 16).filter fun (i : Nat) => k.isHeld i

end Keypad
end ChipEight
