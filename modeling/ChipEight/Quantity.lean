/-
Quantities: settings that are whole numbers by default but may be given as
fractions, such as a rate of two and a half instructions per second.
-/
import ChipEight.Text.Decimal

set_option autoImplicit false

namespace ChipEight

/-- A whole number of any size, or a double. -/
inductive Quantity where
  | whole (n : Int)
  | real (x : Float)

namespace Quantity

/-- A whole number in decimal, a double in the shortest form. -/
def text : Quantity → String
  | whole n => Text.integer n
  | real x => Text.shortest x

/-- Zero or less. A double that is no number is neither, as it compares with nothing. -/
def notPositive : Quantity → Bool
  | whole n => decide (n ≤ 0)
  | real x => x ≤ 0

/-- The nearest double, if there is one in range. -/
def toFloat? : Quantity → Option Float
  | whole n => Text.floatOfInt? n
  | real x => some x

end Quantity
end ChipEight
