/-
Colours, and the schemes that name a pair of them.

A scheme gives the colour of the pixels that are on and of those that are off. The
schemes are listed in the order in which they are offered.
-/
import ChipEight.Error
import ChipEight.Text.Hex

set_option autoImplicit false

namespace ChipEight

/-- A colour of three components. -/
structure Color where
  red : UInt8
  green : UInt8
  blue : UInt8
  deriving DecidableEq

namespace Color

/-- The six hexadecimal digits of a colour. -/
def text (c : Color) : String :=
  Text.bytesHex [c.red, c.green, c.blue]

/-- A component, if a byte can hold it. -/
def component (n : Int) : Except Error UInt8 :=
  if 0 ≤ n ∧ n < 256 then .ok (UInt8.ofNat n.toNat) else .error .numberRange

/-- A colour from its components; a single one stands for all three. -/
def ofComponents (ns : List Int) : Except Error Color := do
  match ← ns.mapM component with
  | [r, g, b] => return ⟨r, g, b⟩
  | [n] => return ⟨n, n, n⟩
  | _ => throw .colorShape

end Color

/-- The colours of the pixels. -/
structure ColorScheme where
  on : Color
  off : Color
  deriving DecidableEq

namespace ColorScheme

/-- Every scheme with its name. -/
def all : List (String × ColorScheme) :=
  [("octet", ⟨⟨179, 102, 184⟩, ⟨45, 25, 61⟩⟩),
    ("classic", ⟨⟨0, 255, 0⟩, ⟨0, 0, 0⟩⟩),
    ("amber", ⟨⟨255, 176, 0⟩, ⟨0, 0, 0⟩⟩),
    ("white", ⟨⟨255, 255, 255⟩, ⟨0, 0, 0⟩⟩),
    ("blue", ⟨⟨0, 255, 255⟩, ⟨0, 0, 64⟩⟩),
    ("retro", ⟨⟨255, 255, 0⟩, ⟨64, 0, 64⟩⟩)]

/-- The names of the schemes. -/
def names : List String := all.map (·.1)

/-- The scheme of a name. -/
def named (name : String) : Except Error ColorScheme :=
  match all.find? fun s => s.1 == name with
  | some s => .ok s.2
  | none => .error (.unknownColorScheme name names)

end ColorScheme
end ChipEight
