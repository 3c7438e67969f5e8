/-
The command line: runs a program until it faults, with its settings as arguments.

    rom=games/pong.ch8 instruction_frequency=600 log_level=DEBUG

The exit status is 1 without a program or when something is refused, and 2 after a
fault. Everything but the clock, the files and the printing is in the library.
-/
import ChipEight.Schedule.Live
import ChipEight.Session
import ChipEight.Settings.Override

set_option autoImplicit false

open ChipEight

/-- The time of the clock, in seconds. -/
def clockSeconds : IO Float := do
  return (← IO.monoNanosNow).toFloat / 1000000000

/-- Prints notices. -/
def printNotices (c : Console) (ns : List Notice) : IO Unit := do
  let now ← clockSeconds
  for l in c.reportAll now ns do
    IO.println l

/-- Prints why something is refused. -/
def printError (e : Error) : IO Unit :=
  match e, e.message? with
  | _, some m => IO.eprintln m
  | .fileMissing, none => IO.eprintln "No such program"
  | .fileIsDirectory, none => IO.eprintln "The program is a directory"
  | .fileNotDirectory, none => IO.eprintln "The path of the program leads through a file"
  | _, none => IO.eprintln "The settings cannot be used"

/-- Reads a file. -/
def readContents (path : String) : IO (Except Error (List UInt8)) := do
  try
    return .ok (← IO.FS.readBinFile path).toList
  catch _ =>
    return .error .fileMissing

/-- Turns until the run is over. -/
partial def runTurns (c : Console) (p : Plan Float) (r : Run Float Moment) :
    IO (Run Float Moment × Exit) := do
  let (r, exit) := r.turnAt (← clockSeconds) p
  printNotices c r.notices
  match exit with
  | some exit => return (r, exit)
  | none =>
    if let some span := r.outside.wait then
      IO.sleep (span * 1000).toUInt32
    runTurns c p r

/-- Runs a machine and gives the exit status. -/
def runMachine (c : Console) (p : Plan Float) (m : Machine) : IO UInt32 := do
  let r := Run.beginAt (← clockSeconds) p m
  printNotices c r.notices
  let (r, exit) ← runTurns c p r
  let outcome := r.concludeAt (← clockSeconds) exit
  printNotices c outcome.notices
  match outcome.report with
  | some (.ok report) => return UInt32.ofNat (Session.statusOf report)
  | some (.error e) =>
    printError e
    return 1
  | none => return 1

def main (arguments : List String) : IO UInt32 := do
  match Settings.ofArguments arguments with
  | .error e =>
    printError e
    return 1
  | .ok settings =>
    let console := { Console.atLabel settings.logLevel with start := ← clockSeconds }
    let contents ← match settings.rom with
      | some path => readContents path
      | none => pure (.error .fileMissing)
    match Session.begin (fun _ => contents) settings with
    | .over session =>
      printNotices console session.notices
      match session.status with
      | .ok status => return UInt32.ofNat status
      | .error e =>
        printError e
        return 1
    | .ready m p loaded =>
      printNotices console loaded
      runMachine console p m
