/-
The memory: 4096 bytes, and the ways into it.

There are two families of accessors. The checked ones, `read` and `write`, refuse
a range that leaves the memory. The total ones never fail: `byteAt` gives 0 for
an address outside, `gather` reads a run of addresses that way, and `store` drops
what would fall behind the end. The cycle uses the total ones and notes the fault
separately; a program is loaded with the checked ones.
-/
import ChipEight.Error
import ChipEight.Lane

set_option autoImplicit false

namespace ChipEight

/-- The 4096 bytes of the machine. -/
abbrev Memory := Vector UInt8 4096

/-- Where programs are loaded and started. -/
def programStart : Nat := 0x200

/-- Where the glyphs of the sixteen digits are. -/
def fontStart : Nat := 0x50

/-- How many rows, one byte each, a glyph has. -/
def glyphSize : Nat := 5

/-- The glyphs of the digits 0 to F. -/
def fontData : List UInt8 :=
  [0xF0, 0x90, 0x90, 0x90, 0xF0,
    0x20, 0x60, 0x20, 0x20, 0x70,
    0xF0, 0x10, 0xF0, 0x80, 0xF0,
    0xF0, 0x10, 0xF0, 0x10, 0xF0,
    0x90, 0x90, 0xF0, 0x10, 0x10,
    0xF0, 0x80, 0xF0, 0x10, 0xF0,
    0xF0, 0x80, 0xF0, 0x90, 0xF0,
    0xF0, 0x10, 0x20, 0x40, 0x40,
    0xF0, 0x90, 0xF0, 0x90, 0xF0,
    0xF0, 0x90, 0xF0, 0x10, 0xF0,
    0xF0, 0x90, 0xF0, 0x90, 0x90,
    0xE0, 0x90, 0xE0, 0x90, 0xE0,
    0xF0, 0x80, 0x80, 0x80, 0xF0,
    0xE0, 0x90, 0x90, 0x90, 0xE0,
    0xF0, 0x80, 0xF0, 0x80, 0xF0,
    0xF0, 0x80, 0xF0, 0x80, 0x80]

namespace Memory

/-! ## Total access -/

/-- The byte at an address. An address from -4096 to -1 counts from the end; any
other address outside the memory reads as 0. -/
def byteAt (m : Memory) (a : Int) : UInt8 :=
  let place := if a < 0 then a + 4096 else a
  if place < 0 then 0 else m.toArray.getD place.toNat 0

/-- The bytes at `length` addresses from `start`. -/
def gather (m : Memory) (start : Int) (length : Nat) : List UInt8 :=
  (List.range length).map fun (k : Nat) => m.byteAt (start + k)

/-- The word at an address, its high byte first. -/
def word (m : Memory) (a : Int) : UInt16 :=
  ((m.byteAt a).toUInt16 <<< 8) ||| (m.byteAt (a + 1)).toUInt16

/-- Writes bytes from an address on and drops those behind the end. -/
def store (m : Memory) (a : Nat) : List UInt8 → Memory
  | [] => m
  | b :: bs => store (m.setIfInBounds a b) (a + 1) bs

/-- `gather` for a start that comes from outside and has to fit a lane. -/
def gatherLane (m : Memory) (start : Int) (length : Int) : Except Error (List UInt8) :=
  if fitsLane start then .ok (m.gather start length.toNat) else .error .numberRange

/-- `word` for an address that comes from outside and has to fit a lane. -/
def wordLane (m : Memory) (a : Int) : Except Error UInt16 :=
  if fitsLane a then .ok (m.word a) else .error .numberRange

/-! ## Checked access -/

/-- Does `[start, start + length)` end inside the memory and not begin before it? -/
def inRange (start length : Int) : Bool :=
  decide (0 ≤ start) && decide (start + length ≤ 4096)

/-- Refuses a range that leaves the memory, or has a negative length. -/
def check (start length : Int) : Except Error Unit :=
  if start < 0 ∨ length < 0 ∨ 4096 < start + length then
    .error (.fault ⟨.memoryRange start length, none, none⟩)
  else .ok ()

/-- The bytes of a range. -/
def read (m : Memory) (start length : Int) : Except Error (List UInt8) := do
  check start length
  return (m.toList.drop start.toNat).take length.toNat

/-- A list of numbers as bytes, if each of them is one. -/
def bytesOf (values : List Int) : Except Error (List UInt8) :=
  if values.all fun v => decide (0 ≤ v) && decide (v < 256) then
    .ok (values.map fun v => UInt8.ofNat v.toNat)
  else .error .numberRange

/-- Writes bytes into a range that holds them. -/
def write (m : Memory) (start : Int) (bytes : List UInt8) : Except Error Memory := do
  check start bytes.length
  return m.store start.toNat bytes

/-! ## What the memory starts with -/

/-- Zeros but for the font. -/
def fresh : Memory :=
  store (Vector.replicate 4096 0) fontStart fontData

/-- Copies a program in at the start address; a program that is too large is refused,
and an empty one changes nothing. -/
def loadProgram (m : Memory) (program : List UInt8) : Except Error Memory :=
  if maxProgramSize < program.length then .error (.programTooLarge program.length)
  else if program.isEmpty then .ok m
  else m.write programStart program

end Memory
end ChipEight
