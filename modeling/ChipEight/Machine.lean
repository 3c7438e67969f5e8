/-
The machine: a state with a program, and the bookkeeping of a run.

A machine starts from a seed, holds the program loaded last, counts its cycles and
keeps the first fault. A fault halts it: until a program is loaded, every further
cycle is refused with the same fault and reports nothing. Loading is all or
nothing; a program that is too large leaves the machine as it was.

`Action` names the operations and `Machine.perform` carries one out, so that a
history is a list.
-/
import ChipEight.Cycle
import ChipEight.Notice

set_option autoImplicit false

namespace ChipEight

/-- A machine with one program loaded. -/
structure Machine where
  seed : Int
  /-- The random key of the seed. -/
  key : RandomKey
  program : List UInt8
  state : State
  /-- The fault that halted the machine. -/
  fault : Option Fault
  /-- How many cycles were completed since the program was loaded. -/
  cycles : Nat

namespace Machine

/-! ## Programs -/

/-- Starts over with a program. -/
def load (m : Machine) (program : List UInt8) (source : String) :
    Except Error (Machine × List Notice) := do
  let state ← (State.fresh m.key).loadProgram program
  return ({ m with program := program, state := state, fault := none, cycles := 0 },
    [.loaded source program.length])

/-- Starts over with the same program. -/
def reset (m : Machine) : Except Error (Machine × List Notice) :=
  m.load m.program "reset"

/-- A machine without a program. -/
def ofSeed (seed : Int) : Except Error Machine := do
  let key ← RandomKey.ofSeed seed
  return { seed := seed, key := key, program := [], state := State.fresh key
           fault := none, cycles := 0 }

/-- A machine with a program; an empty one is not loaded, and not reported. -/
def create (program : List UInt8) (seed : Int) : Except Error (Machine × List Notice) := do
  let m ← ofSeed seed
  if program.isEmpty then return (m, []) else m.load program "program"

/-- A machine with the contents of a file, if it can be read. -/
def ofFile (name : String) (contents : Except Error (List UInt8)) (seed : Int) :
    Except Error (Machine × List Notice) := do
  let program ← contents
  (← ofSeed seed).load program name

/-! ## Cycles and timers -/

/-- Is the machine halted by a fault? -/
def halted (m : Machine) : Bool := m.fault.isSome

/-- One cycle, or the fault that stands in its way. A fault is reported with the
registers when it occurs, and not again. -/
def step (m : Machine) : Machine × Option Fault × List Notice :=
  match m.fault with
  | some f => (m, some f, [])
  | none =>
    match m.state.step with
    | .ok s => ({ m with state := s, cycles := m.cycles + 1 }, none, [])
    | .error f =>
      ({ m with fault := some f }, some f, [.faulted f, .registers "ERROR" m.state])

/-- Both timers count down. -/
def tick (m : Machine) : Machine :=
  { m with state := m.state.tick }

/-! ## Keys, display and memory -/

/-- The machine with another keypad. -/
def withKeypad (m : Machine) (k : Keypad) : Machine :=
  { m with state := { m.state with keypad := k } }

def press (m : Machine) (key : Int) : Except Error Machine :=
  (m.state.keypad.press key).map m.withKeypad

def release (m : Machine) (key : Int) : Except Error Machine :=
  (m.state.keypad.release key).map m.withKeypad

def releaseAll (m : Machine) : Machine :=
  m.withKeypad Keypad.released

/-- The display, if it was written since it was last taken. -/
def consumeDisplay (m : Machine) : Machine × Option Grid :=
  if m.state.displayChanged then
    ({ m with state := { m.state with displayChanged := false } }, some m.state.display)
  else (m, none)

/-- The bytes of a range of the memory. -/
def readMemory (m : Machine) (start length : Int) : Except Error (List UInt8) :=
  m.state.memory.read start length

/-- Does the machine sound? -/
def soundActive (m : Machine) : Bool := decide (0 < m.state.soundTimer)

end Machine

/-! ## Histories -/

/-- An operation on a machine. -/
inductive Action where
  | load (program : List UInt8) (source : String)
  | reset
  | step
  | tick
  | press (key : Int)
  | release (key : Int)
  | releaseAll
  | consumeDisplay
  | readMemory (start length : Int)

/-- What an operation gives back besides the machine. -/
inductive Answer where
  | done
  | display (picture : Option Grid)
  | bytes (bs : List UInt8)

/-- A machine after an operation, with its answer and what it reports. -/
structure Reply where
  machine : Machine
  answer : Except Error Answer
  notices : List Notice := []

namespace Machine

/-- The reply of an operation that is carried out whole or refused. -/
def replyOf (m : Machine) : Except Error (Machine × List Notice) → Reply
  | .ok (next, notices) => ⟨next, .ok .done, notices⟩
  | .error e => ⟨m, .error e, []⟩

/-- Carries out an operation. -/
def perform (m : Machine) : Action → Reply
  | .load program source => m.replyOf (m.load program source)
  | .reset => m.replyOf m.reset
  | .step =>
    let (next, fault, notices) := m.step
    ⟨next, match fault with
      | none => .ok .done
      | some f => .error (.fault f), notices⟩
  | .tick => ⟨m.tick, .ok .done, []⟩
  | .press key => m.replyOf ((m.press key).map fun n => (n, []))
  | .release key => m.replyOf ((m.release key).map fun n => (n, []))
  | .releaseAll => ⟨m.releaseAll, .ok .done, []⟩
  | .consumeDisplay =>
    let (next, picture) := m.consumeDisplay
    ⟨next, .ok (.display picture), []⟩
  | .readMemory start length => ⟨m, (m.readMemory start length).map .bytes, []⟩

/-- The machine after operations in turn, whether each is carried out or refused. -/
def after (m : Machine) (actions : List Action) : Machine :=
  actions.foldl (fun m a => (m.perform a).machine) m

/-- Cycles until `count` are done or one is refused: the machine, how many were done,
the fault, and what was reported. -/
def steps (m : Machine) : Nat → Machine × Nat × Option Fault × List Notice
  | 0 => (m, 0, none, [])
  | count + 1 =>
    match m.step with
    | (next, some f, notices) => (next, 0, some f, notices)
    | (next, none, notices) =>
      let (last, done, fault, more) := next.steps count
      (last, done + 1, fault, notices ++ more)

end Machine
end ChipEight
