/-
The run: one loop for three cadences.

Each turn of the loop reads the clock once. Then, as far as they are due, the
frontend is polled and a changed display shown, the timers tick, and a batch of
instructions is carried out; when nothing was due, the loop sleeps. Each cadence
has its own mark in time and moves it by itself, so none can hold up another.

After a stall there may be more to do than one turn takes: at most four ticks, the
rest of which is forgotten, and at most sixty-four instructions, the rest of which
is dropped and counted.

`Run.turn` is one turn, built from a function for each phase, and `Run.loop` repeats
it within a given number of turns. What the run does is kept in a trace.
-/
import ChipEight.Schedule.Frontend
import ChipEight.Schedule.Plan

set_option autoImplicit false

namespace ChipEight

/-- The most instructions of one turn. -/
def maxBatch : Int := 64

/-- The most timer ticks of one turn. -/
def maxTicks : Nat := 4

/-! ## What a run does -/

/-- A single deed of a run, as the outside sees it. -/
inductive Deed (T : Type) where
  | read (now : T)
  | poll
  | render (picture : Grid)
  | tick
  /-- A batch of so many instructions was begun, and so many were completed. -/
  | batch (size : Int) (done : Nat) (fault : Option Fault)
  | sleep (span : T)
  | report (notice : Notice)

/-- Why a run is over. -/
inductive Exit where
  | timeUp
  | quit
  | stopped
  | instructionLimit
  | fault (f : Fault)
  | failed (e : Error)

/-- A run between two turns. -/
structure Run (T ε : Type) where
  machine : Machine
  outside : ε
  /-- The time of the first reading. -/
  start : T
  /-- Up to where the timers have been served. -/
  lastTimer : T
  lastInstruction : T
  /-- When the frontend was last polled. -/
  lastRender : T
  instructions : Nat := 0
  timerTicks : Nat := 0
  frames : Nat := 0
  dropped : Int := 0
  stopped : Bool := false
  /-- What the run did, the latest first. -/
  trace : List (Deed T) := []

namespace Run

variable {T ε : Type} [Time T]

/-- Adds deeds to the trace, given in order. -/
def log (r : Run T ε) (deeds : List (Deed T)) : Run T ε :=
  { r with trace := deeds.foldl (fun (t : List (Deed T)) d => d :: t) r.trace }

/-- The reports of a run, in order. -/
def notices (r : Run T ε) : List Notice :=
  r.trace.reverse.filterMap fun d =>
    match d with
    | .report n => some n
    | _ => none

/-! ## The phases of a turn -/

/-- Reads the clock. -/
def readClock (o : Surroundings T ε) (r : Run T ε) : T × Run T ε :=
  let (now, outside) := o.read r.outside
  (now, { r with outside := outside }.log [.read now])

/-- Polls the frontend and, if it goes on, shows the display if it changed. -/
def pollAndRender (o : Surroundings T ε) (now : T) (r : Run T ε) : Run T ε × Option Exit :=
  let (requests, outside) := o.poll r.machine r.outside
  let polled := r.machine.serve r.stopped requests
  let r := { r with machine := polled.machine, outside := outside, stopped := polled.stop
                    lastRender := now }.log [.poll]
  match polled.verdict with
  | .failed e => (r, some (.failed e))
  | .quit => (r.log [.report .quitRequested], some .quit)
  | .goOn =>
    match r.machine.consumeDisplay with
    | (_, none) => (r, none)
    | (machine, some picture) =>
      ({ r with machine := machine, outside := o.render picture r.outside
                frames := r.frames + 1 }.log [.render picture], none)

/-- The render phase: whether it was due, and whether it ends the run. -/
def renderPhase (o : Surroundings T ε) (p : Plan T) (now : T) (r : Run T ε) :
    Run T ε × Bool × Option Exit :=
  if Time.reached (Time.sub now r.lastRender) p.renderPeriod then
    let (r, exit) := r.pollAndRender o now
    (r, true, exit)
  else (r, false, none)

/-- How many ticks are due, at most `most`, and the mark moved by as many periods. -/
def dueTicks (period now last : T) : Nat → Nat × T
  | 0 => (0, last)
  | most + 1 =>
    if Time.reached (Time.sub now last) period then
      let (ticks, mark) := dueTicks period now (Time.add last period) most
      (ticks + 1, mark)
    else (0, last)

/-- So many ticks of the timers. -/
def tickTimes (m : Machine) : Nat → Machine
  | 0 => m
  | n + 1 => tickTimes m.tick n

/-- The timer phase, and how many ticks it made. A full catch-up moves the mark to now. -/
def timerPhase (p : Plan T) (now : T) (r : Run T ε) : Run T ε × Nat :=
  let (ticks, mark) := dueTicks p.timerPeriod now r.lastTimer maxTicks
  ({ r with machine := tickTimes r.machine ticks
            lastTimer := if ticks = maxTicks then now else mark
            timerTicks := r.timerTicks + ticks }.log (List.replicate ticks .tick), ticks)

/-- How many of the due instructions one turn takes. -/
def batchSize (limit : Option Int) (done : Nat) (due : Int) : Int :=
  match limit with
  | none => min due maxBatch
  | some m => min (min due maxBatch) (m - done)

/-- Moves the mark of the instructions after a batch: to now, when more were due than
one turn takes, and those left are dropped; else by the periods of the batch. -/
def settle (p : Plan T) (now : T) (due batch : Int) (r : Run T ε) :
    Except Error (Run T ε) :=
  if maxBatch < due then
    let r :=
      if r.dropped = 0 then
        r.log [.report (.fallingBehind p.rates.instructions (due - batch))]
      else r
    .ok { r with dropped := r.dropped + (due - batch), lastInstruction := now }
  else do
    let span ← Time.periods batch p.instructionPeriod
    return { r with lastInstruction := Time.add r.lastInstruction span }

/-- Carries out the instructions that are due. -/
def carryOut (p : Plan T) (l : Limits T) (now : T) (due : Int) (r : Run T ε) :
    Run T ε × Option Exit :=
  let batch := batchSize l.instructions r.instructions due
  let (machine, done, fault, notices) := r.machine.steps batch.toNat
  let r := { r with machine := machine, instructions := r.instructions + done }.log
    (.batch batch done fault :: notices.map .report)
  match fault with
  | some f => (r, some (.fault f))
  | none =>
    match r.settle p now due batch with
    | .error e => (r, some (.failed e))
    | .ok r =>
      match l.instructions with
      | some m => if m ≤ r.instructions then (r, some .instructionLimit) else (r, none)
      | none => (r, none)

/-- Sleeps, if the plan has a time for it. -/
def rest (o : Surroundings T ε) (p : Plan T) (r : Run T ε) : Run T ε :=
  if Time.lasting p.idleSleep then
    { r with outside := o.sleep p.idleSleep r.outside }.log [.sleep p.idleSleep]
  else r

/-- The instruction phase, and the sleep when nothing at all was due. -/
def instructionPhase (o : Surroundings T ε) (p : Plan T) (l : Limits T) (now : T) (busy : Bool)
    (r : Run T ε) : Run T ε × Option Exit :=
  match Time.count (Time.sub now r.lastInstruction) p.instructionPeriod with
  | .error e => (r, some (.failed e))
  | .ok due =>
    if 0 < due then r.carryOut p l now due
    else if busy then (r, none)
    else (r.rest o p, none)

/-- Is the time of the run over? -/
def timeUp (l : Limits T) (now : T) (r : Run T ε) : Bool :=
  match l.time with
  | some t => Time.reached (Time.sub now r.start) t
  | none => false

/-- One turn of the loop. -/
def turn (o : Surroundings T ε) (p : Plan T) (l : Limits T) (r : Run T ε) :
    Run T ε × Option Exit :=
  let (now, r) := r.readClock o
  if r.timeUp l now then (r, some .timeUp)
  else
    match r.renderPhase o p now with
    | (r, _, some exit) => (r, some exit)
    | (r, drew, none) =>
      let (r, ticks) := r.timerPhase p now
      r.instructionPhase o p l now (drew || decide (0 < ticks))

/-- Turns until the run is over, at most `turns` of them. -/
def loop (o : Surroundings T ε) (p : Plan T) (l : Limits T) :
    Nat → Run T ε → Run T ε × Option Exit
  | 0, r => (r, none)
  | turns + 1, r =>
    if r.stopped then (r, some .stopped)
    else
      match r.turn o p l with
      | (r, some exit) => (r, some exit)
      | (r, none) => loop o p l turns r

/-- A run before its first turn. -/
def begin (o : Surroundings T ε) (p : Plan T) (m : Machine) (outside : ε) : Run T ε :=
  let (now, outside) := o.read outside
  { machine := m, outside := outside, start := now, lastTimer := now
    lastInstruction := now, lastRender := now
    trace := [.report (.running p.rates.instructions p.rates.timers p.rates.renders),
      .read now] }

end Run

/-! ## The report -/

/-- What a run has done, as it is reported at the end. -/
structure Report (T : Type) where
  instructions : Int
  timerTicks : Nat
  frames : Nat
  elapsed : T
  fault : Option Fault
  dropped : Int

/-- A run that is over: its report, or the error that ended it. Without either, the
turns ran out. -/
structure Outcome (T ε : Type) where
  run : Run T ε
  report : Option (Except Error (Report T))

namespace Run

variable {T ε : Type} [Time T]

/-- The fault that ended a run. -/
def faultOf : Exit → Option Fault
  | .fault f => some f
  | _ => none

/-- Reads the clock once more and reports. -/
def conclude (o : Surroundings T ε) (exit : Exit) (r : Run T ε) : Outcome T ε :=
  match exit with
  | .failed e => ⟨r, some (.error e)⟩
  | _ =>
    let (now, r) := r.readClock o
    ⟨r, some (.ok
      { instructions := r.instructions, timerTicks := r.timerTicks, frames := r.frames
        elapsed := Time.sub now r.start, fault := faultOf exit, dropped := r.dropped })⟩

/-- A whole run of at most `turns` turns. -/
def whole (o : Surroundings T ε) (p : Plan T) (l : Limits T) (turns : Nat) (m : Machine)
    (outside : ε) : Outcome T ε :=
  match (begin o p m outside).loop o p l turns with
  | (r, some exit) => r.conclude o exit
  | (r, none) => ⟨r, none⟩

end Run

/-- The report as a notice. -/
def Report.notice (r : Report Float) : Notice :=
  .summary [("instructions", .count r.instructions), ("timer_ticks", .count r.timerTicks),
    ("frames", .count r.frames), ("elapsed_s", .seconds r.elapsed),
    ("fault", (r.fault.map fun f => Entry.label f.term).getD .absent),
    ("dropped", .count r.dropped)]

/-- What is reported in the course of a run, the report itself last. -/
def Outcome.notices {ε : Type} (o : Outcome Float ε) : List Notice :=
  o.run.notices ++
    match o.report with
    | some (.ok r) => [r.notice]
    | _ => []

end ChipEight
