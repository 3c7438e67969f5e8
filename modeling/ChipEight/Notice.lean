/-
Notices: what the library reports while it works, each with its wording.

An operation that has something to report returns notices as values; a console
turns them into lines. So what is reported can be stated without a console, and
the wording stands in one place.
-/
import ChipEight.Console
import ChipEight.State
import ChipEight.Quantity

set_option autoImplicit false

namespace ChipEight

/-- A value in the report of a run. -/
inductive Entry where
  | absent
  | flag (b : Bool)
  | count (n : Int)
  /-- A time or another fraction, told with two places. -/
  | seconds (x : Float)
  | label (s : String)

/-- The wording of a value. -/
def Entry.text : Entry → String
  | absent => "None"
  | flag b => if b then "True" else "False"
  | count n => Text.integer n
  | seconds x => Text.fixed 2 x
  | label s => s

/-- Something to report. -/
inductive Notice where
  /-- A message of its own, under a label. -/
  | message (label text : String)
  /-- A program was loaded. -/
  | loaded (source : String) (size : Int)
  /-- A cycle faulted for the first time. -/
  | faulted (f : Fault)
  /-- The registers of a state, under a label. -/
  | registers (label : String) (s : State)
  /-- A run starts at these rates. -/
  | running (instructions timers renders : Quantity)
  /-- The frontend asked for the end of the run. -/
  | quitRequested
  /-- A run drops due instructions for the first time. -/
  | fallingBehind (rate : Quantity) (dropped : Int)
  /-- The report at the end of a run. -/
  | summary (entries : List (String × Entry))
  /-- There is no program to run. -/
  | noProgram
  /-- A picture was written on request. -/
  | pictureSaved (file : String)

namespace Notice

/-- Four registers, from the given one on. -/
def registerLine (s : State) (start : Nat) : String :=
  "  " ++ " ".intercalate ((List.range 4).map fun k =>
    let r := start + k
    "V" ++ Text.hex 1 r ++ ":" ++ Text.hex 2 (s.V.toArray.getD r 0).toNat)

/-- The counters, the timers and the registers. -/
def registerLines (s : State) : List String :=
  ("PC: 0x" ++ Text.hex 3 s.pc.toNat ++ " I: 0x" ++ Text.hex 3 s.I.toNat
    ++ " DT: " ++ Text.integer s.delayTimer.toNat ++ " ST: " ++ Text.integer s.soundTimer.toNat
    ++ " SP: " ++ Text.integer s.stack.pointer)
  :: [0, 4, 8, 12].map (registerLine s)

/-- The line above and below a report. -/
def rule : String := String.ofList (List.replicate 60 '=')

/-- The messages of a notice, each with its label. `elapsed` is the time since the
console was made, in seconds. -/
def messages (elapsed : Float) : Notice → List (String × String)
  | message label text => [(label, text)]
  | loaded source size =>
    [("INFO", "Loaded " ++ source ++ " (" ++ Text.integer size ++ " bytes)")]
  | faulted f => [("ERROR", f.cause.name ++ ": " ++ f.message)]
  | registers label s => (registerLines s).map fun m => (label, m)
  | running instructions timers renders =>
    [("INFO", "Running at " ++ instructions.text ++ " Hz, timers " ++ timers.text
      ++ " Hz, render " ++ renders.text ++ " Hz")]
  | quitRequested => [("INFO", "Quit requested")]
  | fallingBehind rate dropped =>
    [("WARNING", "Falling behind " ++ rate.text ++ " Hz, dropping " ++ Text.integer dropped
      ++ " due instructions")]
  | summary entries =>
    ([rule, "Run finished after " ++ Text.fixed 1 elapsed ++ "s"]
      ++ (entries.map fun e => "  " ++ e.1 ++ ": " ++ e.2.text) ++ [rule]).map
      fun m => ("INFO", m)
  | noProgram => [("ERROR", "No program given, pass rom=<path>")]
  | pictureSaved file => [("INFO", "Screenshot saved: " ++ file)]

end Notice

/-- The lines that a console prints for a notice at a time. -/
def Console.report (c : Console) (now : Float) (n : Notice) : List String :=
  (n.messages (now - c.start)).flatMap fun m => c.log now m.1 m.2

/-- The lines of several notices at one time. -/
def Console.reportAll (c : Console) (now : Float) (ns : List Notice) : List String :=
  ns.flatMap (c.report now)

end ChipEight
