/-
The console: which messages are printed, and how a line looks.

A message is sent under a label. Five labels, in any case, are levels of urgency;
every other label ranks as `info`. What ranks below the console's own level is
not printed. A line holds the seconds since the console was made, the label as it
was given, the name of the console and the message, and a message of several lines
is printed as several.
-/
import ChipEight.Text.Decimal
import ChipEight.Text.Hex

set_option autoImplicit false

namespace ChipEight

/-! ## Levels -/

/-- How urgent a message is, the least urgent first. -/
inductive Level where
  | debug
  | info
  | warning
  | error
  | critical
  deriving DecidableEq

namespace Level

/-- Every level, in order. -/
def all : List Level := [debug, info, warning, error, critical]

def name : Level → String
  | debug => "DEBUG"
  | info => "INFO"
  | warning => "WARNING"
  | error => "ERROR"
  | critical => "CRITICAL"

/-- The place in the order. -/
def rank : Level → Nat
  | debug => 0
  | info => 1
  | warning => 2
  | error => 3
  | critical => 4

/-- The number that selects the colour on a terminal. -/
def color : Level → String
  | debug => "36"
  | info => "32"
  | warning => "33"
  | error => "31"
  | critical => "35"

/-- A letter in upper case, as far as an upper-case ASCII letter can come out: besides
the ASCII letters only the dotless i and the long s have one. -/
def upper (c : Char) : Char :=
  if c.toNat = 0x131 then 'I' else if c.toNat = 0x17F then 'S' else c.toUpper

/-- The level that a label names, in any case. -/
def ofLabel? (label : String) : Option Level :=
  all.find? fun l => l.name.toList == label.toList.map upper

/-- The level at which a label ranks. -/
def ofLabel (label : String) : Level :=
  (ofLabel? label).getD info

end Level

/-! ## The console -/

/-- How a console prints, and since when. -/
structure Console where
  name : String := "Octet"
  /-- What ranks below is not printed. -/
  level : Level := .info
  colored : Bool := false
  timestamps : Bool := true
  /-- The time at which the console was made, in seconds. -/
  start : Float := 0

namespace Console

/-- A console that prints from a level on, known by its label. -/
def atLabel (label : String) : Console :=
  { level := Level.ofLabel label }

/-- Is a message under this label printed? -/
def admits (c : Console) (label : String) : Bool :=
  decide (c.level.rank ≤ (Level.ofLabel label).rank)

/-- The sequence that makes a terminal change its colour. -/
def escape (code : String) : String :=
  "\x1b[" ++ code ++ "m"

/-- A label between brackets, to the right of eight columns. -/
def labelField (c : Console) (label : String) : String :=
  let field := "[" ++ String.ofList (Text.padStart ' ' 8 label.toList) ++ "]"
  if c.colored then
    (((Level.ofLabel? label).map fun l => escape l.color).getD "") ++ field ++ escape "0"
  else field

/-- Seconds between brackets, with two places in eight columns. -/
def timeField (c : Console) (now : Float) : String :=
  if c.timestamps then
    "[" ++ String.ofList (Text.padStart ' ' 8 (Text.fixed 2 (now - c.start)).toList) ++ "s]"
  else ""

/-- A message with everything that stands in front of it. -/
def line (c : Console) (now : Float) (label message : String) : String :=
  c.timeField now ++ c.labelField label ++ "[" ++ c.name ++ "] " ++ message

/-- The lines that are printed for a message sent at a time. -/
def log (c : Console) (now : Float) (label message : String) : List String :=
  if c.admits label then (c.line now label message).splitOn "\n" else []

end Console
end ChipEight
