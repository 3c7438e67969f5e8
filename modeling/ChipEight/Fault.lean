/-
Faults: the conditions that end a cycle.

A fault has a cause, and carries the instruction word and the address it was
fetched from when they are known. While a cycle runs, a condition is only noted
in a latch of three numbers, a code and the range of the access; what is noted
first stays. `Cause.ofCode` reads the latch back.
-/
import ChipEight.Text.Hex

set_option autoImplicit false

namespace ChipEight

/-- How many return addresses the call stack holds. -/
def stackCapacity : Nat := 16

/-! ## Causes and their wording -/

/-- Why a cycle cannot be completed. -/
inductive Cause where
  /-- The word has no class. -/
  | invalidOpcode
  /-- A call with a full call stack. -/
  | stackOverflow
  /-- A return with an empty call stack. -/
  | stackUnderflow
  /-- An access to `length` bytes from `start` that leaves the memory. -/
  | memoryRange (start length : Int)
  /-- A code that stands for no cause. -/
  | unknownCode (code : Int)
  deriving DecidableEq

/-- A cause with the word that met it and the place of the word, when known. -/
structure Fault where
  cause : Cause
  instruction : Option Int
  address : Option Int
  deriving DecidableEq

/-- The name of the kind of fault. -/
def Cause.name : Cause → String
  | .invalidOpcode => "InvalidOpcode"
  | .stackOverflow => "StackOverflow"
  | .stackUnderflow => "StackUnderflow"
  | .memoryRange _ _ => "MemoryFault"
  | .unknownCode _ => "ValueError"

/-- The wording of a cause. -/
def Cause.message : Cause → String
  | .invalidOpcode => "Invalid opcode"
  | .stackOverflow => s!"Call stack full ({stackCapacity} frames)"
  | .stackUnderflow => "Return with empty call stack"
  | .memoryRange start length =>
    "Memory access out of range [0x" ++ Text.hex 0 start ++ ", 0x"
      ++ Text.hex 0 (start + length) ++ ")"
  | .unknownCode code => s!"Unknown fault code {code}"

/-- The word and the address of a fault, as far as they are known. -/
def Fault.place (f : Fault) : List String :=
  (f.instruction.map fun w => "instruction=0x" ++ Text.hex 4 w).toList
    ++ (f.address.map fun a => "address=0x" ++ Text.hex 3 a).toList

/-- The wording of a fault: its cause, then its place. A code of no cause is told alone. -/
def Fault.message (f : Fault) : String :=
  match f.cause with
  | .unknownCode _ => f.cause.message
  | _ => " ".intercalate (f.cause.message :: f.place)

/-- The kind and the wording of the cause, as one term: `Kind('wording')`. No
wording holds a quote, so none is escaped. -/
def Fault.term (f : Fault) : String :=
  f.cause.name ++ "('" ++ f.cause.message ++ "')"

/-! ## Codes and the latch -/

/-- The code of no fault. -/
def noFault : Int := 0

/-- The number under which a cause is latched. -/
def Cause.code : Cause → Int
  | .invalidOpcode => 1
  | .stackOverflow => 2
  | .stackUnderflow => 3
  | .memoryRange _ _ => 4
  | .unknownCode code => code

/-- The cause that a code and a range stand for; the range matters to memory only. -/
def Cause.ofCode (code start length : Int) : Cause :=
  if code = 1 then .invalidOpcode
  else if code = 2 then .stackOverflow
  else if code = 3 then .stackUnderflow
  else if code = 4 then .memoryRange start length
  else .unknownCode code

/-- What the current cycle has noted: a code and a range. -/
structure FaultLatch where
  code : Int := noFault
  start : Int := 0
  length : Int := 0
  deriving DecidableEq

/-- Notes a fault where `condition` holds, unless a code is there already. -/
def FaultLatch.note (l : FaultLatch) (condition : Bool) (code start length : Int) :
    FaultLatch :=
  let raised := condition && decide (l.code = noFault)
  { code := if raised then code else l.code
    start := if raised then start else l.start
    length := if raised then length else l.length }

/-- The cause in the latch, if a code is there. -/
def FaultLatch.cause? (l : FaultLatch) : Option Cause :=
  if l.code = noFault then none else some (Cause.ofCode l.code l.start l.length)

end ChipEight
