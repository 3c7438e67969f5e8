/-
The operations of the instruction set.

There are thirty-four. Each has a name, a place in the list, and a shape: the
four hexadecimal digits of its words, where `X`, `Y` and `N` stand for operand
digits. Whether a word has a shape is settled digit by digit, without reference to
how words are classified.
-/
set_option autoImplicit false

namespace ChipEight

/-- What an instruction word asks for. The order is the order of the list `all`. -/
inductive Operation where
  | clear
  | returnFromCall
  | jump
  | call
  | skipIfEqualImmediate
  | skipIfNotEqualImmediate
  | skipIfEqualRegister
  | setRegister
  | addImmediate
  | copyRegister
  | bitwiseOr
  | bitwiseAnd
  | bitwiseXor
  | add
  | subtract
  | shiftRight
  | reverseSubtract
  | shiftLeft
  | skipIfNotEqualRegister
  | setIndex
  | jumpWithOffset
  | random
  | draw
  | skipIfKey
  | skipIfNotKey
  | getDelayTimer
  | waitForKey
  | setDelayTimer
  | setSoundTimer
  | addToIndex
  | fontCharacter
  | binaryCodedDecimal
  | storeRegisters
  | loadRegisters
  deriving DecidableEq, Inhabited

namespace Operation

/-- Every operation, once. -/
def all : List Operation :=
  [clear, returnFromCall, jump, call, skipIfEqualImmediate, skipIfNotEqualImmediate,
    skipIfEqualRegister, setRegister, addImmediate, copyRegister, bitwiseOr, bitwiseAnd,
    bitwiseXor, add, subtract, shiftRight, reverseSubtract, shiftLeft,
    skipIfNotEqualRegister, setIndex, jumpWithOffset, random, draw, skipIfKey,
    skipIfNotKey, getDelayTimer, waitForKey, setDelayTimer, setSoundTimer, addToIndex,
    fontCharacter, binaryCodedDecimal, storeRegisters, loadRegisters]

/-- The place of an operation in `all`. -/
def index (o : Operation) : Nat :=
  all.idxOf o

/-- The operation at a place, if there is one; `-1` is the place of none. -/
def ofIndex? (i : Int) : Option Operation :=
  if i < 0 then none else all[i.toNat]?

theorem ofIndex?_index (o : Operation) : ofIndex? o.index = some o := by
  cases o <;> rfl

/-- The name under which an operation is listed. -/
def name : Operation → String
  | clear => "CLEAR"
  | returnFromCall => "RETURN"
  | jump => "JUMP"
  | call => "CALL"
  | skipIfEqualImmediate => "SKIP_IF_EQUAL_IMMEDIATE"
  | skipIfNotEqualImmediate => "SKIP_IF_NOT_EQUAL_IMMEDIATE"
  | skipIfEqualRegister => "SKIP_IF_EQUAL_REGISTER"
  | setRegister => "SET_REGISTER"
  | addImmediate => "ADD_IMMEDIATE"
  | copyRegister => "COPY_REGISTER"
  | bitwiseOr => "OR"
  | bitwiseAnd => "AND"
  | bitwiseXor => "XOR"
  | add => "ADD"
  | subtract => "SUBTRACT"
  | shiftRight => "SHIFT_RIGHT"
  | reverseSubtract => "REVERSE_SUBTRACT"
  | shiftLeft => "SHIFT_LEFT"
  | skipIfNotEqualRegister => "SKIP_IF_NOT_EQUAL_REGISTER"
  | setIndex => "SET_INDEX"
  | jumpWithOffset => "JUMP_WITH_OFFSET"
  | random => "RANDOM"
  | draw => "DRAW"
  | skipIfKey => "SKIP_IF_KEY"
  | skipIfNotKey => "SKIP_IF_NOT_KEY"
  | getDelayTimer => "GET_DELAY_TIMER"
  | waitForKey => "WAIT_FOR_KEY"
  | setDelayTimer => "SET_DELAY_TIMER"
  | setSoundTimer => "SET_SOUND_TIMER"
  | addToIndex => "ADD_TO_INDEX"
  | fontCharacter => "FONT_CHARACTER"
  | binaryCodedDecimal => "BCD"
  | storeRegisters => "STORE_REGISTERS"
  | loadRegisters => "LOAD_REGISTERS"

/-- The four digits of an operation's words, as the instruction set documents them. -/
def shape : Operation → String
  | clear => "00E0"
  | returnFromCall => "00EE"
  | jump => "1NNN"
  | call => "2NNN"
  | skipIfEqualImmediate => "3XNN"
  | skipIfNotEqualImmediate => "4XNN"
  | skipIfEqualRegister => "5XY0"
  | setRegister => "6XNN"
  | addImmediate => "7XNN"
  | copyRegister => "8XY0"
  | bitwiseOr => "8XY1"
  | bitwiseAnd => "8XY2"
  | bitwiseXor => "8XY3"
  | add => "8XY4"
  | subtract => "8XY5"
  | shiftRight => "8XY6"
  | reverseSubtract => "8XY7"
  | shiftLeft => "8XYE"
  | skipIfNotEqualRegister => "9XY0"
  | setIndex => "ANNN"
  | jumpWithOffset => "BNNN"
  | random => "CXNN"
  | draw => "DXYN"
  | skipIfKey => "EX9E"
  | skipIfNotKey => "EXA1"
  | getDelayTimer => "FX07"
  | waitForKey => "FX0A"
  | setDelayTimer => "FX15"
  | setSoundTimer => "FX18"
  | addToIndex => "FX1E"
  | fontCharacter => "FX29"
  | binaryCodedDecimal => "FX33"
  | storeRegisters => "FX55"
  | loadRegisters => "FX65"

end Operation
end ChipEight
