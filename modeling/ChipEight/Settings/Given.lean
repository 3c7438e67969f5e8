/-
Values as a source of settings gives them, before their type is known.

A source is a file, a command line or a caller; what it gives may be of any type,
also of one that no setting has. Each setting takes the values of its own kind, and
some that can be read as one: a numeral for a number, a number for a text.
-/
import ChipEight.Error
import ChipEight.Text.Numeral
import ChipEight.Text.Decimal

set_option autoImplicit false

namespace ChipEight

/-- A value from a source of settings. -/
inductive Given where
  | absent
  | flag (b : Bool)
  | whole (n : Int)
  | real (x : Double)
  | text (s : String)
  | list (items : List Given)
  | record (members : List (String × Given))
  deriving Inhabited

namespace Given

/-- Is there nothing in the value: no number but zero, no characters, no entries? -/
def isEmpty : Given → Bool
  | absent => true
  | flag b => !b
  | whole n => n == 0
  | real x => x.toFloat == 0
  | text s => s.isEmpty
  | list items => items.isEmpty
  | record members => members.isEmpty

/-- The text of a single value. Lists and records have none. -/
def text? : Given → Option String
  | absent => some "None"
  | flag b => some (if b then "True" else "False")
  | whole n => some (Text.integer n)
  | real x => some (Text.shortest x.toFloat)
  | text s => some s
  | list _ => none
  | record _ => none

mutual

/-- Every text in a value, at any depth. -/
def texts : Given → List String
  | text s => [s]
  | list items => textsOfItems items
  | record members => textsOfMembers members
  | absent => []
  | flag _ => []
  | whole _ => []
  | real _ => []

def textsOfItems : List Given → List String
  | [] => []
  | v :: vs => v.texts ++ textsOfItems vs

def textsOfMembers : List (String × Given) → List String
  | [] => []
  | (_, v) :: ms => v.texts ++ textsOfMembers ms

end

/-! ## Kinds -/

/-- The value as a whole number: one, or a text that reads as one. -/
def toWhole : Given → Except Error Given
  | whole n => .ok (whole n)
  | text s =>
    match Text.readInteger s with
    | some n => .ok (whole n)
    | none => .error .settingType
  | _ => .error .settingType

/-- The value as a double: a number, or a text that reads as one. -/
def toReal : Given → Except Error Given
  | real x => .ok (real x)
  | whole n =>
    match Text.floatOfInt? n with
    | some x => .ok (real (.ofFloat x))
    | none => .error .numberRange
  | text s =>
    match Text.readFloat s with
    | some x => .ok (real x)
    | none => .error .settingType
  | _ => .error .settingType

/-- The value as a text; none at all only where that is allowed. -/
def toText (optional : Bool) : Given → Except Error Given
  | absent => if optional then .ok absent else .error .settingType
  | v =>
    match v.text? with
    | some s => .ok (text s)
    | none => .error .settingType

end Given
end ChipEight
