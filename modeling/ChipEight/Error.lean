/-
Errors: every way a request to this library can be refused.

Faults end a cycle of the machine and have a module of their own; the rest are
refused requests, from a key that does not exist to a setting of the wrong type.
Only some have a wording of their own, `Error.message?`; the others are told by
their kind alone.
-/
import ChipEight.Fault
import ChipEight.Quantity

set_option autoImplicit false

namespace ChipEight

/-- The most bytes a program may have: the memory behind the start address. -/
def maxProgramSize : Nat := 3584

/-- Why a request is refused. -/
inductive Error where
  /-- A cycle or a memory access faulted. -/
  | fault (f : Fault)
  /-- A number does not fit the width it has to be held in. -/
  | numberRange
  /-- A program larger than the memory behind the start address. -/
  | programTooLarge (size : Nat)
  /-- A key outside the sixteen. -/
  | keyOutOfRange (key : Int)
  | divisionByZero
  /-- A time that is not a number cannot be counted in periods. -/
  | notANumber
  | fileMissing
  | fileIsDirectory
  /-- A path leads through a file. -/
  | fileNotDirectory
  /-- The ending of a picture's file name stands for no format. -/
  | pictureFormat
  /-- A colour is not given by three components. -/
  | colorShape
  | unknownColorScheme (name : String) (available : List String)
  /-- A rate or a scale that has to be positive. -/
  | notPositive (setting : String) (value : Quantity)
  | negativeSleep (seconds : Float)
  /-- Settings given by a name they do not have, or by a value of no use. -/
  | settingsArgument
  /-- A source of settings names a setting that does not exist. -/
  | unknownSetting
  /-- A source of settings gives a value of the wrong type. -/
  | settingType
  /-- A reference between settings resolves to a value of the wrong type. -/
  | referenceType
  /-- A reference to a setting that does not exist. -/
  | unknownReference
  /-- References that lead back to themselves. -/
  | circularReference
  /-- A value that starts a reference and does not finish it. -/
  | malformedReference
  /-- A reference to something else than a setting. -/
  | unsupportedReference
  /-- A list where settings by name are expected. -/
  | settingsList
  /-- A single value where settings by name are expected. -/
  | settingsScalar
  /-- A command-line override that cannot be read. -/
  | malformedOverride
  /-- A command-line override that does not fit the settings there are. -/
  | misplacedOverride

/-- The wording of the errors that have one. -/
def Error.message? : Error → Option String
  | .fault f => some f.message
  | .programTooLarge size =>
    some s!"Program is {size} bytes, at most {maxProgramSize} fit in memory"
  | .keyOutOfRange key => some s!"Logical key must be in 0x0-0xF, got {key}"
  | .unknownColorScheme name available =>
    some ("Unknown color scheme '" ++ name ++ "'. Available: ["
      ++ ", ".intercalate (available.map fun n => "'" ++ n ++ "'") ++ "]")
  | .notPositive setting value =>
    some (setting ++ " must be positive, got " ++ value.text)
  | .negativeSleep seconds =>
    some ("idle_sleep must not be negative, got " ++ Text.shortest seconds)
  | _ => none

end ChipEight
