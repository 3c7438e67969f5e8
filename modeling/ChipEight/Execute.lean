/-
What each operation does to the state.

An operation is a total function on states. It never stops: where it cannot be
carried out it notes a fault and goes on with what it can compute, and the cycle
throws that state away. Arithmetic writes its result to VX first and the flag to
VF second, so with X = F the flag wins; a drawing reads both registers before it
writes the flag.
-/
import ChipEight.State
import ChipEight.Arithmetic
import ChipEight.Display.Sprite
import ChipEight.Instruction.Decode

set_option autoImplicit false

namespace ChipEight

/-- The register that takes the flags. -/
def flagRegister : Fin 16 := ⟨15, by decide⟩

namespace State

/-! ## Display and flow -/

/-- 00E0: every pixel off. -/
def clear (s : State) : State :=
  { s with display := Grid.blank, displayChanged := true }

/-- 00EE: on at the last return address. -/
def returnFromCall (s : State) : State :=
  let (stack, address, underflow) := s.stack.pop
  let s := s.note underflow Cause.stackUnderflow.code 0 0
  { s with stack := stack, pc := address }

/-- 1NNN: on at NNN. -/
def jump (s : State) (f : Operands) : State :=
  { s with pc := UInt16.ofNat f.nnn }

/-- 2NNN: keep the address of the next word, and on at NNN. -/
def call (s : State) (f : Operands) : State :=
  let (stack, overflow) := s.stack.push s.pc.toNat
  ({ s with stack := stack }.note overflow Cause.stackOverflow.code 0 0).jump f

/-- The skips: over one word where `condition` holds. -/
def skipIf (s : State) (condition : Bool) : State :=
  if condition then { s with pc := s.pc + 2 } else s

/-- BNNN: on at NNN + V0, which may lie past the last address. -/
def jumpWithOffset (s : State) (f : Operands) : State :=
  { s with pc := UInt16.ofNat (f.nnn + (s.reg ⟨0, by decide⟩).toNat) }

/-! ## Registers -/

/-- Writes a result to VX and then its flag, if it has one, to VF. -/
def setResult (s : State) (x : Fin 16) (r : Arithmetic.Result) : State :=
  let s := s.setReg x (UInt8.ofNat r.value.toNat)
  match r.flag with
  | some flag => s.setReg flagRegister (UInt8.ofNat flag.toNat)
  | none => s

/-- 8XYN: an arithmetic operation on VX and VY. -/
def arithmetic (s : State) (f : Operands) (op : Int → Int → Arithmetic.Result) : State :=
  s.setResult f.x (op (s.reg f.x).toNat (s.reg f.y).toNat)

/-- 7XNN: VX and NN added, without a flag. -/
def addImmediate (s : State) (f : Operands) : State :=
  s.setReg f.x (UInt8.ofNat (((s.reg f.x).toNat + f.nn.toNat) % 256))

/-- CXNN: a random byte, masked by NN. Every execution takes the next key. -/
def random (s : State) (f : Operands) : State :=
  { s.setReg f.x (s.rng.byte &&& f.nn) with rng := s.rng.next }

/-- FX1E: VX added to the index within twelve bits; VF is set when the sum leaves
them, and left alone otherwise. -/
def addToIndex (s : State) (f : Operands) : State :=
  let sum := s.I.toNat + (s.reg f.x).toNat
  let flag := if 0xFFF < sum then 1 else s.reg flagRegister
  { s.setReg flagRegister flag with I := UInt16.ofNat (sum % 0x1000) }

/-- FX29: the index at the glyph of the low digit of VX. -/
def fontCharacter (s : State) (f : Operands) : State :=
  { s with I := UInt16.ofNat (fontStart + (s.reg f.x).toNat % 16 * glyphSize) }

/-- FX0A: take the latest press, or come back to this word in the next cycle. -/
def waitForKey (s : State) (f : Operands) : State :=
  let waiting := decide (s.keypad.lastPressed < 0)
  let value := if waiting then s.reg f.x else UInt8.ofNat (s.keypad.lastPressed % 256).toNat
  { s.setReg f.x value with pc := if waiting then s.pc - 2 else s.pc }

/-! ## Memory -/

/-- Notes a fault when the `length` bytes at the index leave the memory. -/
def noteRange (s : State) (length : Nat) : State :=
  s.note (!Memory.inRange s.I.toNat length) (Cause.memoryRange 0 0).code s.I.toNat length

/-- DXYN: a sprite of N rows from the index, at column VX and row VY, both taken
modulo the size of the display. -/
def draw (s : State) (f : Operands) : State :=
  let x := (s.reg f.x).toNat % 64
  let y := (s.reg f.y).toNat % 32
  let rows := s.memory.gather s.I.toNat maxSpriteHeight
  let drawing := Sprite.draw s.display rows x y f.n.val
  let s := s.noteRange f.n.val
  { s.setReg flagRegister (if drawing.collision then 1 else 0) with
    display := drawing.display
    displayChanged := s.displayChanged || drawing.toggled }

/-- FX33: the hundreds, tens and units of VX at the index. -/
def binaryCodedDecimal (s : State) (f : Operands) : State :=
  let value := (s.reg f.x).toNat
  let bytes := [value / 100, value / 10 % 10, value % 10].map UInt8.ofNat
  { s.noteRange 3 with memory := s.memory.store s.I.toNat bytes }

/-- FX55: V0 to VX at the index. Sixteen bytes are written; those past VX are written
back as they were. -/
def storeRegisters (s : State) (f : Operands) : State :=
  let old := s.memory.gather s.I.toNat 16
  let bytes := (s.V.toList.zip old).mapIdx fun (i : Nat) p =>
    if i < f.x.val + 1 then p.1 else p.2
  { s.noteRange (f.x.val + 1) with memory := s.memory.store s.I.toNat bytes }

/-- FX65: V0 to VX from the index. -/
def loadRegisters (s : State) (f : Operands) : State :=
  let values := s.memory.gather s.I.toNat 16
  { s.noteRange (f.x.val + 1) with
    V := Vector.ofFn fun (i : Fin 16) =>
      if i.val < f.x.val + 1 then values.getD i.val 0 else s.reg i }

end State

/-! ## Every operation -/

/-- The effect of an operation with the operand fields of its word. -/
def Operation.run (o : Operation) (s : State) (f : Operands) : State :=
  match o with
  | .clear => s.clear
  | .returnFromCall => s.returnFromCall
  | .jump => s.jump f
  | .call => s.call f
  | .skipIfEqualImmediate => s.skipIf (s.reg f.x == f.nn)
  | .skipIfNotEqualImmediate => s.skipIf (s.reg f.x != f.nn)
  | .skipIfEqualRegister => s.skipIf (s.reg f.x == s.reg f.y)
  | .setRegister => s.setReg f.x f.nn
  | .addImmediate => s.addImmediate f
  | .copyRegister => s.arithmetic f Arithmetic.copy
  | .bitwiseOr => s.arithmetic f (Arithmetic.bitwise (· ||| ·))
  | .bitwiseAnd => s.arithmetic f (Arithmetic.bitwise (· &&& ·))
  | .bitwiseXor => s.arithmetic f (Arithmetic.bitwise (· ^^^ ·))
  | .add => s.arithmetic f Arithmetic.add
  | .subtract => s.arithmetic f Arithmetic.subtract
  | .shiftRight => s.arithmetic f Arithmetic.shiftRight
  | .reverseSubtract => s.arithmetic f Arithmetic.reverseSubtract
  | .shiftLeft => s.arithmetic f Arithmetic.shiftLeft
  | .skipIfNotEqualRegister => s.skipIf (s.reg f.x != s.reg f.y)
  | .setIndex => { s with I := UInt16.ofNat f.nnn }
  | .jumpWithOffset => s.jumpWithOffset f
  | .random => s.random f
  | .draw => s.draw f
  | .skipIfKey => s.skipIf (s.keypad.isHeld (s.reg f.x).toNat)
  | .skipIfNotKey => s.skipIf (!s.keypad.isHeld (s.reg f.x).toNat)
  | .getDelayTimer => s.setReg f.x s.delayTimer
  | .waitForKey => s.waitForKey f
  | .setDelayTimer => { s with delayTimer := s.reg f.x }
  | .setSoundTimer => { s with soundTimer := s.reg f.x }
  | .addToIndex => s.addToIndex f
  | .fontCharacter => s.fontCharacter f
  | .binaryCodedDecimal => s.binaryCodedDecimal f
  | .storeRegisters => s.storeRegisters f
  | .loadRegisters => s.loadRegisters f

/-- The effect of a word; a word of no class notes a fault and does nothing else. -/
def State.dispatch (s : State) (w : UInt16) : State :=
  match Operation.ofWord? w with
  | some o => o.run s (Operands.ofWord w)
  | none => s.note true Cause.invalidOpcode.code 0 0

end ChipEight
