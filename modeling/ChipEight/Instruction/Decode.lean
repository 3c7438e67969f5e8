/-
Classification and decoding of instruction words.

`Operation.ofWord?` classifies a word in layers: two words are taken whole, most
are settled by their first digit, and the first digits 8, E and F look at the
last digit or the last byte. `decode` takes an integer of any size and sign,
keeps sixteen bits of it, and refuses a word of no class.

`decodeLane` is the second decoder. It works on one 32-bit lane with masks and
arithmetic shifts, and answers with the place of the operation in the list, `-1`
for a word of no class, so it never fails on a lane.
-/
import ChipEight.Instruction.Word
import ChipEight.Fault
import ChipEight.Lane

set_option autoImplicit false

namespace ChipEight

/-! ## Classes -/

/-- Words 8XYN, by their last digit. -/
def Operation.ofArithmeticDigit? (n : Fin 16) : Option Operation :=
  match n with
  | 0x0 => some .copyRegister
  | 0x1 => some .bitwiseOr
  | 0x2 => some .bitwiseAnd
  | 0x3 => some .bitwiseXor
  | 0x4 => some .add
  | 0x5 => some .subtract
  | 0x6 => some .shiftRight
  | 0x7 => some .reverseSubtract
  | 0xE => some .shiftLeft
  | _ => none

/-- Words EXNN, by their last byte. -/
def Operation.ofKeyByte? (nn : UInt8) : Option Operation :=
  if nn = 0x9E then some .skipIfKey
  else if nn = 0xA1 then some .skipIfNotKey
  else none

/-- Words FXNN, by their last byte. -/
def Operation.ofDeviceByte? (nn : UInt8) : Option Operation :=
  if nn = 0x07 then some .getDelayTimer
  else if nn = 0x0A then some .waitForKey
  else if nn = 0x15 then some .setDelayTimer
  else if nn = 0x18 then some .setSoundTimer
  else if nn = 0x1E then some .addToIndex
  else if nn = 0x29 then some .fontCharacter
  else if nn = 0x33 then some .binaryCodedDecimal
  else if nn = 0x55 then some .storeRegisters
  else if nn = 0x65 then some .loadRegisters
  else none

/-- Words outside the family 0, by their first digit and what it looks at next. -/
def Operation.ofOperands? (f : Operands) : Option Operation :=
  match f.opcode with
  | 0x1 => some .jump
  | 0x2 => some .call
  | 0x3 => some .skipIfEqualImmediate
  | 0x4 => some .skipIfNotEqualImmediate
  | 0x5 => some .skipIfEqualRegister
  | 0x6 => some .setRegister
  | 0x7 => some .addImmediate
  | 0x8 => Operation.ofArithmeticDigit? f.n
  | 0x9 => some .skipIfNotEqualRegister
  | 0xA => some .setIndex
  | 0xB => some .jumpWithOffset
  | 0xC => some .random
  | 0xD => some .draw
  | 0xE => Operation.ofKeyByte? f.nn
  | 0xF => Operation.ofDeviceByte? f.nn
  | _ => none

/-- The class of a word, if it has one. -/
def Operation.ofWord? (w : UInt16) : Option Operation :=
  if w = 0x00E0 then some .clear
  else if w = 0x00EE then some .returnFromCall
  else Operation.ofOperands? (Operands.ofWord w)

/-- The place in the list of the class of a word, `-1` for a word of no class. -/
def Operation.indexOfWord (w : UInt16) : Int :=
  match Operation.ofWord? w with
  | some o => o.index
  | none => -1

/-- The classes of the words from `start` up to `stop`, in order. -/
def Operation.table (start stop : Nat) : List (Option Operation) :=
  (List.range' start (min stop 0x10000 - start)).map fun w =>
    Operation.ofWord? (UInt16.ofNat w)

/-! ## Decoding an integer -/

/-- A word with its operand fields and its class. -/
structure Instruction where
  operands : Operands
  operation : Operation
  deriving DecidableEq

/-- The instruction in the low sixteen bits of an integer. -/
def decode (w : Int) : Except Fault Instruction :=
  let word := wordOfInt w
  match Operation.ofWord? word with
  | some o => .ok ⟨Operands.ofWord word, o⟩
  | none => .error ⟨.invalidOpcode, some word.toNat, none⟩

/-- The word and the name of its class. -/
def Instruction.text (i : Instruction) : String :=
  Text.hex 4 i.operands.raw.toNat ++ " " ++ i.operation.name

/-! ## Decoding a lane -/

/-- The fields of a word as signed 32-bit numbers. -/
structure LaneFields where
  raw : Int
  /-- The place of the class in the list of operations, `-1` for none. -/
  tag : Int
  opcode : Int
  x : Int
  y : Int
  n : Int
  nn : Int
  nnn : Int
  deriving DecidableEq

/-- One 32-bit lane taken apart with masks and arithmetic shifts. -/
def LaneFields.ofLane (lane : BitVec 32) : LaneFields :=
  let v := lane &&& 0xFFFF#32
  { raw := v.toInt
    tag := Operation.indexOfWord (UInt16.ofNat v.toNat)
    opcode := ((v &&& 0xF000#32).sshiftRight 12).toInt
    x := ((v &&& 0x0F00#32).sshiftRight 8).toInt
    y := ((v &&& 0x00F0#32).sshiftRight 4).toInt
    n := (v &&& 0x000F#32).toInt
    nn := (v &&& 0x00FF#32).toInt
    nnn := (v &&& 0x0FFF#32).toInt }

/-- The fields of an integer in a lane; nothing for an integer no lane can hold. -/
def decodeLane (w : Int) : Option LaneFields :=
  if fitsLane w then some (LaneFields.ofLane (BitVec.ofInt 32 w)) else none

end ChipEight
