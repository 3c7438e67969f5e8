/-
Settings: what a run of the program can be told.

There are nine settings, each with a name and a default. The rates and the scale
are whole numbers when they come from a source; a caller may give fractions.
`Settings.validate` refuses values that no run can use, the settings checked in a
fixed order.
-/
import ChipEight.Picture.Scheme
import ChipEight.Schedule.Plan
import ChipEight.Settings.Given

set_option autoImplicit false

namespace ChipEight

/-- The settings of a run. -/
structure Settings where
  /-- The path of the program. -/
  rom : Option String := none
  /-- Instructions, timer ticks and polls of the frontend in a second. -/
  rates : Rates := ⟨.whole 700, .whole 60, .whole 60⟩
  /-- How wide a pixel of the display is in the window. -/
  scale : Quantity := .whole 8
  colorScheme : String := "classic"
  logLevel : String := "INFO"
  /-- The seed of the random bytes. -/
  seed : Int := 0
  /-- How long to sleep when nothing is due, in seconds. -/
  idleSleep : Double := .ofFloat 0.001

/-! ## Settings by name -/

/-- A setting. -/
inductive Setting where
  | rom
  | instructionFrequency
  | timerFrequency
  | renderFrequency
  | scale
  | colorScheme
  | logLevel
  | seed
  | idleSleep
  deriving DecidableEq

namespace Setting

/-- Every setting, in order. -/
def all : List Setting :=
  [rom, instructionFrequency, timerFrequency, renderFrequency, scale, colorScheme, logLevel,
    seed, idleSleep]

def name : Setting → String
  | rom => "rom"
  | instructionFrequency => "instruction_frequency"
  | timerFrequency => "timer_frequency"
  | renderFrequency => "render_frequency"
  | scale => "scale"
  | colorScheme => "color_scheme"
  | logLevel => "log_level"
  | seed => "seed"
  | idleSleep => "idle_sleep"

/-- The setting of a name. -/
def ofName? (n : String) : Option Setting :=
  all.find? fun s => s.name == n

/-- A given value as one of the setting's own kind. -/
def convert : Setting → Given → Except Error Given
  | rom, v => v.toText true
  | colorScheme, v => v.toText false
  | logLevel, v => v.toText false
  | idleSleep, v => v.toReal
  | _, v => v.toWhole

end Setting

namespace Settings

/-- A number that is given. -/
def quantityOf : Given → Quantity
  | .real x => .real x.toFloat
  | .whole n => .whole n
  | .flag b => .whole (if b then 1 else 0)
  | _ => .whole 0

/-- A given number as a value. -/
def givenOf : Quantity → Given
  | .whole n => .whole n
  | .real x => .real (.ofFloat x)

/-- Sets one setting to a value of its kind. -/
def put (c : Settings) : Setting → Given → Settings
  | .rom, .text s => { c with rom := some s }
  | .rom, _ => { c with rom := none }
  | .instructionFrequency, v => { c with rates.instructions := quantityOf v }
  | .timerFrequency, v => { c with rates.timers := quantityOf v }
  | .renderFrequency, v => { c with rates.renders := quantityOf v }
  | .scale, v => { c with scale := quantityOf v }
  | .colorScheme, v => { c with colorScheme := v.text?.getD "" }
  | .logLevel, v => { c with logLevel := v.text?.getD "" }
  | .seed, .whole n => { c with seed := n }
  | .seed, _ => c
  | .idleSleep, .real x => { c with idleSleep := x }
  | .idleSleep, _ => c

/-- The value of one setting. -/
def value (c : Settings) : Setting → Given
  | .rom => (c.rom.map .text).getD .absent
  | .instructionFrequency => givenOf c.rates.instructions
  | .timerFrequency => givenOf c.rates.timers
  | .renderFrequency => givenOf c.rates.renders
  | .scale => givenOf c.scale
  | .colorScheme => .text c.colorScheme
  | .logLevel => .text c.logLevel
  | .seed => .whole c.seed
  | .idleSleep => .real c.idleSleep

/-- Settings from a caller, who gives values of the right kinds. -/
def ofFields (fields : List (String × Given)) : Except Error Settings :=
  fields.foldlM
    (fun c (name, v) =>
      match Setting.ofName? name with
      | some s => .ok (c.put s v)
      | none => .error .settingsArgument)
    {}

/-! ## Validation -/

/-- The settings that have to be positive, in the order in which they are checked. -/
def positives (c : Settings) : List (Setting × Quantity) :=
  [(.instructionFrequency, c.rates.instructions), (.timerFrequency, c.rates.timers),
    (.renderFrequency, c.rates.renders), (.scale, c.scale)]

/-- The settings, if a run can use them. -/
def validate (c : Settings) : Except Error Settings := do
  match c.positives.find? fun p => p.2.notPositive with
  | some (s, v) => throw (.notPositive s.name v)
  | none => pure ()
  if c.idleSleep.toFloat < 0 then throw (.negativeSleep c.idleSleep.toFloat)
  let _ ← ColorScheme.named c.colorScheme
  return c

/-- The plan of a run with these settings. -/
def plan (c : Settings) : Except Error (Plan Float) :=
  Plan.ofRates c.rates c.idleSleep.toFloat

end Settings
end ChipEight
