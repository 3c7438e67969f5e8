/-
Sessions: the whole program, from the settings to the exit status.

A session loads the program that the settings name, opens a window, runs the
schedule until it ends and closes the window. Without a program it ends with status
1, after a fault with status 2, else with status 0.
-/
import ChipEight.Schedule.Run
import ChipEight.Settings.Basic

set_option autoImplicit false

namespace ChipEight

/-! ## Files -/

/-- The files there are, by path. -/
abbrev Files := List (String × List UInt8)

namespace Files

/-- The parts of a path; empty ones and single points lead nowhere. -/
def parts (path : List Char) : List (List Char) :=
  let rec go (current : List Char) : List Char → List (List Char)
    | [] => [current.reverse]
    | c :: cs => if c == '/' then current.reverse :: go [] cs else go (c :: current) cs
  (go [] path).filter fun p => !(p.isEmpty || p == ['.'])

/-- Does a path start at the root, and not where the program is? -/
def fromRoot (path : String) : Bool := path.toList.head? == some '/'

/-- A path without the parts that lead nowhere. -/
def normalize (path : String) : String :=
  (if fromRoot path then "/" else "")
    ++ "/".intercalate ((parts path.toList).map String.ofList)

/-- Do two paths lead to one file? -/
def samePlace (p q : String) : Bool :=
  fromRoot p == fromRoot q && parts p.toList == parts q.toList

/-- Does the second path lead to something in the directory of the first? -/
def holds (directory file : String) : Bool :=
  let ps := parts directory.toList
  let qs := parts file.toList
  fromRoot directory == fromRoot file && ps.length < qs.length && qs.take ps.length == ps

/-- Is the path a directory: one that files are in, or one on the way from where the
program is up to the root? -/
def isDirectory (fs : Files) (path : String) : Bool :=
  (parts path.toList).all (· == ['.', '.']) || fs.any fun f => holds path f.1

/-- The contents of a file. Nothing is in a file as if it were a directory. -/
def read (fs : Files) (path : String) : Except Error (List UInt8) :=
  match fs.find? fun f => samePlace f.1 path with
  | some f => .ok f.2
  | none =>
    if fs.isDirectory path then .error .fileIsDirectory
    else if fs.any fun f => holds f.1 path then .error .fileNotDirectory
    else .error .fileMissing

end Files

/-! ## Sessions -/

/-- How the window of a session was opened and used. -/
structure WindowUse where
  scale : Quantity
  scheme : String
  polls : Nat := 0
  frames : Nat := 0

/-- A session that is over: its exit status or the error that ended it, what it
reported, and its window if it opened one. -/
structure Session where
  status : Except Error Nat
  notices : List Notice := []
  window : Option WindowUse := none

/-- How many polls a run made. -/
def Run.polls {T ε : Type} (r : Run T ε) : Nat :=
  r.trace.countP fun d =>
    match d with
    | .poll => true
    | _ => false

namespace Session

/-- The exit status of a run. -/
def statusOf (r : Report Float) : Nat :=
  if r.fault.isSome then 2 else 0

/-- A session at its start: over already, or ready to run. -/
inductive Opening where
  | over (s : Session)
  | ready (m : Machine) (plan : Plan Float) (loaded : List Notice)

/-- The window that a session opens. -/
def windowOf (c : Settings) : WindowUse :=
  { scale := c.scale, scheme := c.colorScheme }

/-- Loads the program and plans the run. `contents` reads a file. -/
def begin (contents : String → Except Error (List UInt8)) (c : Settings) : Opening :=
  match c.rom with
  | none => .over { status := .ok 1, notices := [.noProgram] }
  | some path =>
    match Machine.ofFile (Files.normalize path) (contents path) c.seed with
    | .error e => .over { status := .error e }
    | .ok (m, loaded) =>
      match c.plan with
      | .error e =>
        .over { status := .error e, notices := loaded, window := some (windowOf c) }
      | .ok plan => .ready m plan loaded

/-- A whole session in given surroundings, with at most `turns` turns of the loop. -/
def run {ε : Type} (o : Surroundings Float ε) (turns : Nat) (fs : Files) (c : Settings)
    (outside : ε) : Session :=
  match begin fs.read c with
  | .over s => s
  | .ready m plan loaded =>
    let outcome := Run.whole o plan {} turns m outside
    { status := match outcome.report with
        | some r => r.map statusOf
        | none => .ok 0
      notices := loaded ++ outcome.notices
      window := some
        { windowOf c with polls := outcome.run.polls, frames := outcome.run.frames } }

end Session
end ChipEight
