/-
Instruction words and their operand fields.

A word is sixteen bits, read as four digits. The operand fields overlap: `n` is
the low digit of `nn`, `nn` the low byte of `nnn`. Registers are named by a
digit, so the fields `x` and `y` are typed as digits and never index past the
register file.
-/
import ChipEight.Instruction.Operation
import ChipEight.Text.Hex

set_option autoImplicit false

namespace ChipEight

/-- The fields of an instruction word. -/
structure Operands where
  raw : UInt16
  /-- The first digit. -/
  opcode : Fin 16
  /-- The second digit, a register. -/
  x : Fin 16
  /-- The third digit, a register. -/
  y : Fin 16
  /-- The fourth digit. -/
  n : Fin 16
  /-- The last byte. -/
  nn : UInt8
  /-- The last three digits, an address. -/
  nnn : Fin 4096
  deriving DecidableEq

/-- The fields of a word, by division: every field is a run of digits. -/
def Operands.ofWord (w : UInt16) : Operands where
  raw := w
  opcode := ⟨w.toNat / 4096, by have := w.toNat_lt; omega⟩
  x := ⟨w.toNat / 256 % 16, Nat.mod_lt _ (by decide)⟩
  y := ⟨w.toNat / 16 % 16, Nat.mod_lt _ (by decide)⟩
  n := ⟨w.toNat % 16, Nat.mod_lt _ (by decide)⟩
  nn := UInt8.ofNat w.toNat
  nnn := ⟨w.toNat % 4096, Nat.mod_lt _ (by decide)⟩

/-- The four digits of a word, most significant first. -/
def Operands.digits (f : Operands) : List (Fin 16) :=
  [f.opcode, f.x, f.y, f.n]

/-- A character of a shape admits a digit: `X`, `Y` and `N` admit every digit, a
hexadecimal digit admits itself. -/
def shapeAdmits (c : Char) (d : Fin 16) : Bool :=
  c == 'X' || c == 'Y' || c == 'N' || c == Text.hexDigit d

/-- A word fits an operation when each digit is admitted by the operation's shape. -/
def Operation.fits (o : Operation) (w : UInt16) : Bool :=
  (o.shape.toList.zip (Operands.ofWord w).digits).all fun p => shapeAdmits p.1 p.2

end ChipEight
