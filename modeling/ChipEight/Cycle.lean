/-
The cycle: fetch a word, decode it, carry it out.

`State.step` runs the whole cycle in one piece. A fetch past the end of the memory
is noted, and the cycle goes on with what it read; then whatever was noted first
decides, and a noted fault discards the cycle. `State.fetch` and `State.execute`
are the two halves for a caller that takes them one at a time: a fetch is refused
before anything is read, and an executed word comes from outside and may be any
integer.
-/
import ChipEight.Execute

set_option autoImplicit false

namespace ChipEight.State

/-- A finished cycle, or the fault that the cycle noted with what is known of its word. -/
def commit (s : State) (instruction address : Option Int) : Except Fault State :=
  match s.latch.cause? with
  | none => .ok s
  | some cause => .error ⟨cause, instruction, address⟩

/-- Carries out the low sixteen bits of an integer. -/
def execute (s : State) (w : Int) : Except Fault State :=
  let word := wordOfInt w
  (s.dispatch word).commit (some word.toNat) none

/-- Carries out an instruction that is decoded already. -/
def executeDecoded (s : State) (i : Instruction) : Except Fault State :=
  s.execute i.operands.raw.toNat

/-- Reads the next word and moves the program counter past it. -/
def fetch (s : State) : Except Error (State × UInt16) := do
  Memory.check s.pc.toNat 2
  return ({ s with pc := s.pc + 2 }, s.memory.word s.pc.toNat)

/-- The whole cycle with whatever it notes, and the word it read. -/
def cycle (s : State) : State × UInt16 :=
  let address : Int := s.pc.toNat
  let word := s.memory.word address
  let s := s.note (!Memory.inRange address 2) (Cause.memoryRange 0 0).code address 2
  ({ s with pc := s.pc + 2 }.dispatch word, word)

/-- One cycle. A fault tells the address of its word, and the word unless the fetch
itself faulted. -/
def step (s : State) : Except Fault State :=
  let (next, word) := s.cycle
  let address : Int := s.pc.toNat
  next.commit (if Memory.inRange address 2 then some word.toNat else none) (some address)

end ChipEight.State
