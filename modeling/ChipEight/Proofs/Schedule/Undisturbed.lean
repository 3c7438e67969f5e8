/-
What the program has no part in.

Two machines are run by the same plan in the same environment: the clock answers by the
readings and sleeps so far, the frontend by the number of the poll. Then both runs do the
same at the same times, but for the pictures they show, whatever the programs do. The one
thing that separates them is a fault.

Two runs are `Alike` when they agree on everything but the machine, the surroundings and
the frames. Each phase of a turn keeps this or ends in a fault on one side, and so does
the loop.
-/
import ChipEight.Proofs.Schedule.ExactTime
import ChipEight.Proofs.Schedule.Polls
import ChipEight.Proofs.Schedule.Replay

set_option autoImplicit false

namespace ChipEight

variable {T ε δ : Type}

/-! ## Environments -/

/-- What a clock goes by. -/
inductive Beat (T : Type) where
  | reading (now : T)
  | sleep (span : T)

/-- The beat of the clock, if the deed is one. -/
def Deed.beat? : Deed T → Option (Beat T)
  | .read now => some (.reading now)
  | .sleep span => some (.sleep span)
  | _ => none

/-- What a machine is run in: the next reading of the clock, given the readings and sleeps
so far, the latest first, and the answer to a poll, given the number of polls before it. -/
structure Environment (T : Type) where
  clock : List (Beat T) → T
  answers : Nat → Bool × Verdict

/-- Surroundings that go by an environment, whatever is done from here on. -/
def Environment.Governs (E : Environment T) (o : Surroundings T ε) (x : Machine × ε) : Prop :=
  ∀ trace y, Replay o x trace y →
    (o.read y.2).1 = E.clock (trace.filterMap Deed.beat?) ∧
      Request.answer (o.poll y.1 y.2).1 = E.answers (trace.countP Deed.isPoll)

/-- Surroundings that remember what their clock and their frontend go by. -/
def Surroundings.remembering (clock : List (Beat T) → T) (requests : Nat → List Request) :
    Surroundings T (List (Beat T) × Nat) where
  read h := (clock h.1, .reading (clock h.1) :: h.1, h.2)
  sleep span h := (.sleep span :: h.1, h.2)
  poll _ h := (requests h.2, h.1, h.2 + 1)
  render _ h := h

/-- Every environment is that of some surroundings. -/
theorem governs_remembering (clock : List (Beat T) → T) (requests : Nat → List Request)
    (m : Machine) :
    Environment.Governs ⟨clock, fun n => Request.answer (requests n)⟩
      (Surroundings.remembering clock requests) (m, [], 0) := by
  intro trace y h
  have hmemory : y.2 = (trace.filterMap Deed.beat?, trace.countP Deed.isPoll) := by
    induction h with
    | nil => rfl
    | cons _ hlast ih =>
      cases hlast with
      | _ =>
        subst ih
        simp [Surroundings.remembering, List.filterMap_cons, List.countP_cons, Deed.beat?,
          Deed.isPoll]
  rw [hmemory]
  exact ⟨rfl, rfl⟩

/-! ## Runs that are alike -/

namespace Run

/-- What a run did, but for the pictures it showed. -/
def cadence (r : Run T ε) : List (Deed T) := r.trace.filter fun d => !d.isRender

/-- Two runs that differ in the machine, the surroundings and the frames at most. -/
structure Alike (r : Run T ε) (q : Run T δ) : Prop where
  start : r.start = q.start
  lastTimer : r.lastTimer = q.lastTimer
  lastInstruction : r.lastInstruction = q.lastInstruction
  lastRender : r.lastRender = q.lastRender
  instructions : r.instructions = q.instructions
  timerTicks : r.timerTicks = q.timerTicks
  dropped : r.dropped = q.dropped
  stopped : r.stopped = q.stopped
  cadence : r.cadence = q.cadence

theorem cadence_log (r : Run T ε) (deeds : List (Deed T)) :
    (r.log deeds).cadence = (deeds.reverse.filter fun d => !d.isRender) ++ r.cadence := by
  rw [cadence, trace_log, List.filter_append, cadence]

theorem beats_cadence (r : Run T ε) :
    r.cadence.filterMap Deed.beat? = r.trace.filterMap Deed.beat? := by
  rw [cadence, List.filterMap_filter]
  congr 1
  funext d
  cases d with
  | _ => rfl

theorem polls_cadence (r : Run T ε) :
    r.cadence.countP Deed.isPoll = r.trace.countP Deed.isPoll := by
  rw [cadence, List.countP_filter]
  congr 1
  funext d
  cases d with
  | _ => rfl

variable {o : Surroundings T ε} {o' : Surroundings T δ} {p : Plan T} {l : Limits T}
  {r : Run T ε} {q : Run T δ} {x : Machine × ε} {y : Machine × δ} {E : Environment T}

namespace Alike

theorem log (h : Alike r q) (deeds : List (Deed T)) : Alike (r.log deeds) (q.log deeds) := by
  refine ⟨h.start, h.lastTimer, h.lastInstruction, h.lastRender, h.instructions, h.timerTicks,
    h.dropped, h.stopped, ?_⟩
  rw [cadence_log, cadence_log, h.cadence]

theorem begin {m n : Machine} {outside : ε} {outside' : δ} (hx : E.Governs o (m, outside))
    (hy : E.Governs o' (n, outside')) :
    Alike (Run.begin o p m outside) (Run.begin o' p n outside') := by
  have hread : (o.read outside).1 = (o'.read outside').1 := by
    rw [(hx _ _ .nil).1, (hy _ _ .nil).1]
  have hcadence : (Run.begin o p m outside).cadence = (Run.begin o' p n outside').cadence := by
    have htrace : [Deed.report (.running p.rates.instructions p.rates.timers p.rates.renders),
        .read (o.read outside).1] =
        [.report (.running p.rates.instructions p.rates.timers p.rates.renders),
          .read (o'.read outside').1] := by
      rw [hread]
    exact htrace
  exact ⟨hread, hread, hread, hread, rfl, rfl, rfl, rfl, hcadence⟩

/-- The clock tells runs that are alike the same time. -/
theorem reading (h : Alike r q) (hx : E.Governs o x) (hy : E.Governs o' y)
    (hr : Replayed o x r) (hq : Replayed o' y q) :
    (o.read r.outside).1 = (o'.read q.outside).1 := by
  rw [(hx _ _ hr).1, (hy _ _ hq).1, ← r.beats_cadence, ← q.beats_cadence, h.cadence]

/-- The frontend gives runs that are alike the same answer. -/
theorem answer (h : Alike r q) (hx : E.Governs o x) (hy : E.Governs o' y)
    (hr : Replayed o x r) (hq : Replayed o' y q) :
    (r.served o).stop = (q.served o').stop ∧ (r.served o).verdict = (q.served o').verdict := by
  have hanswer : Request.answer (o.poll r.machine r.outside).1 =
      Request.answer (o'.poll q.machine q.outside).1 := by
    rw [(hx _ _ hr).2, (hy _ _ hq).2, ← r.polls_cadence, ← q.polls_cadence, h.cadence]
  rw [served, served, Machine.serve_stop, Machine.serve_stop, Machine.serve_verdict,
    Machine.serve_verdict, hanswer, h.stopped]
  exact ⟨rfl, rfl⟩

theorem readClock (h : Alike r q) (hread : (o.read r.outside).1 = (o'.read q.outside).1) :
    Alike (r.readClock o).2 (q.readClock o').2 := by
  have hcadence : Deed.read (o.read r.outside).1 :: r.cadence =
      Deed.read (o'.read q.outside).1 :: q.cadence := by
    rw [hread, h.cadence]
  exact ⟨h.start, h.lastTimer, h.lastInstruction, h.lastRender, h.instructions, h.timerTicks,
    h.dropped, h.stopped, hcadence⟩

theorem polled {now : T} (h : Alike r q) (hstop : (r.served o).stop = (q.served o').stop) :
    Alike (r.polled o now) (q.polled o' now) := by
  refine ⟨h.start, h.lastTimer, h.lastInstruction, rfl, h.instructions, h.timerTicks,
    h.dropped, hstop, ?_⟩
  exact congrArg (Deed.poll :: ·) h.cadence

/-- A picture more makes no difference. -/
theorem shown_left (h : Alike r q) : Alike (r.shown o) q :=
  ⟨h.start, h.lastTimer, h.lastInstruction, h.lastRender, h.instructions, h.timerTicks,
    h.dropped, h.stopped, h.cadence⟩

theorem shown_right (h : Alike r q) : Alike r (q.shown o') :=
  ⟨h.start, h.lastTimer, h.lastInstruction, h.lastRender, h.instructions, h.timerTicks,
    h.dropped, h.stopped, h.cadence⟩

theorem batched (h : Alike r q) (size : Int) (m n : Machine) (done : Nat) :
    Alike (r.batched size m done none []) (q.batched size n done none []) := by
  refine ⟨h.start, h.lastTimer, h.lastInstruction, h.lastRender, ?_, h.timerTicks,
    h.dropped, h.stopped, ?_⟩
  · exact congrArg (· + done) h.instructions
  · exact congrArg (Deed.batch size done none :: ·) h.cadence

theorem warned (h : Alike r q) (rest : Int) : Alike (r.warned p rest) (q.warned p rest) := by
  unfold Run.warned
  rw [h.dropped]
  split
  · exact h.log _
  · exact h

theorem slept (h : Alike r q) (span : T) :
    Alike ({ r with outside := o.sleep span r.outside }.log [.sleep span])
      ({ q with outside := o'.sleep span q.outside }.log [.sleep span]) :=
  ⟨h.start, h.lastTimer, h.lastInstruction, h.lastRender, h.instructions, h.timerTicks,
    h.dropped, h.stopped, congrArg (Deed.sleep span :: ·) h.cadence⟩

variable [Time T] (now : T)

theorem rest (h : Alike r q) : Alike (r.rest o p) (q.rest o' p) := by
  unfold Run.rest
  split
  · exact h.slept p.idleSleep
  · exact h

theorem timerPhase (p : Plan T) (h : Alike r q) :
    Alike (r.timerPhase p now).1 (q.timerPhase p now).1 ∧
      (r.timerPhase p now).2 = (q.timerPhase p now).2 := by
  unfold Run.timerPhase
  rw [h.lastTimer]
  generalize dueTicks p.timerPeriod now q.lastTimer maxTicks = due
  refine ⟨⟨h.start, rfl, h.lastInstruction, h.lastRender, h.instructions, ?_, h.dropped,
    h.stopped, ?_⟩, rfl⟩
  · exact congrArg (· + due.1) h.timerTicks
  · rw [cadence_log, cadence_log]
    exact congrArg (_ ++ ·) h.cadence

/-- Runs that are alike poll at the same time and with the same end. -/
theorem renderPhase (p : Plan T) (h : Alike r q) (hstop : (r.served o).stop = (q.served o').stop)
    (hverdict : (r.served o).verdict = (q.served o').verdict) :
    Alike (r.renderPhase o p now).1 (q.renderPhase o' p now).1 ∧
      (r.renderPhase o p now).2 = (q.renderPhase o' p now).2 := by
  have hpolled : Alike (r.polled o now) (q.polled o' now) := h.polled hstop
  unfold Run.renderPhase
  rw [h.lastRender]
  split
  · rw [pollAndRender_eq, pollAndRender_eq, hverdict]
    rcases (q.served o').verdict with _ | _ | e
    · -- The display decides whether a picture is shown, and nothing else.
      dsimp only
      split
      · split
        · exact ⟨hpolled.shown_left.shown_right, rfl⟩
        · exact ⟨hpolled.shown_left, rfl⟩
      · split
        · exact ⟨hpolled.shown_right, rfl⟩
        · exact ⟨hpolled, rfl⟩
    · exact ⟨hpolled.log _, rfl⟩
    · exact ⟨hpolled, rfl⟩
  · exact ⟨h, rfl⟩

/-- The mark of the instructions is moved alike, or cannot be moved on either side. -/
theorem settle (p : Plan T) (h : Alike r q) (due size : Int) :
    (∃ e, r.settle p now due size = .error e ∧ q.settle p now due size = .error e) ∨
      ∃ s t, r.settle p now due size = .ok s ∧ q.settle p now due size = .ok t ∧ Alike s t := by
  unfold Run.settle
  split
  · have hwarned := h.warned (p := p) (due - size)
    refine .inr ⟨_, _, rfl, rfl, hwarned.start, hwarned.lastTimer, rfl, hwarned.lastRender,
      hwarned.instructions, hwarned.timerTicks, ?_, hwarned.stopped, hwarned.cadence⟩
    exact congrArg (· + (due - size)) hwarned.dropped
  · rcases Time.periods size p.instructionPeriod with e | span
    · exact .inl ⟨e, rfl, rfl⟩
    · refine .inr ⟨_, _, rfl, rfl, h.start, h.lastTimer, ?_, h.lastRender, h.instructions,
        h.timerTicks, h.dropped, h.stopped, h.cadence⟩
      exact congrArg (Time.add · span) h.lastInstruction

end Alike

/-! ## A turn of both -/

/-- What two runs come to that were alike: they still are and end alike, unless a fault
ended one of them. -/
inductive Abreast : Run T ε × Option Exit → Run T δ × Option Exit → Prop where
  | first {r : Run T ε} {f : Fault} {y : Run T δ × Option Exit} :
      Abreast (r, some (.fault f)) y
  | second {x : Run T ε × Option Exit} {q : Run T δ} {f : Fault} :
      Abreast x (q, some (.fault f))
  | alike {r : Run T ε} {q : Run T δ} {exit : Option Exit} :
      Alike r q → Abreast (r, exit) (q, exit)

variable [Time T] {now : T}

theorem Alike.carryOut (h : Alike r q) (due : Int) :
    Abreast (r.carryOut p l now due) (q.carryOut p l now due) := by
  have hshare : r.share l due = q.share l due := by
    rw [share, share, h.instructions]
  rcases hr : r.machine.steps (r.share l due).toNat with ⟨m, done, _ | f, notices⟩
  · rcases hq : q.machine.steps (q.share l due).toNat with ⟨n, done', _ | f, notices'⟩
    · -- Both batches are complete, so they are of the same size.
      obtain ⟨rfl, rfl⟩ := (Machine.batched_of_steps hr).complete rfl
      obtain ⟨rfl, rfl⟩ := (Machine.batched_of_steps hq).complete rfl
      rw [carryOut_of_completed (.mk hr), carryOut_of_completed (.mk hq), ← hshare]
      have hbatched := h.batched (r.share l due) m n (r.share l due).toNat
      rcases hbatched.settle now p due (r.share l due) with
        ⟨e, hs, ht⟩ | ⟨s, t, hs, ht, halike⟩
      · rw [hs, ht]
        exact .alike hbatched
      · rw [hs, ht]
        dsimp only
        rcases l.instructions with _ | k
        · exact .alike halike
        · dsimp only
          rw [halike.instructions]
          split
          · exact .alike halike
          · exact .alike halike
    · rw [carryOut_of_fault hq]
      exact .second
  · rw [carryOut_of_fault hr]
    exact .first

theorem Alike.instructionPhase (h : Alike r q) (busy : Bool) :
    Abreast (r.instructionPhase o p l now busy) (q.instructionPhase o' p l now busy) := by
  unfold Run.instructionPhase
  rw [h.lastInstruction]
  rcases Time.count (Time.sub now q.lastInstruction) p.instructionPeriod with e | due
  · exact .alike h
  · dsimp only
    split
    · exact h.carryOut due
    · split
      · exact .alike h
      · exact .alike h.rest

theorem Alike.turn (h : Alike r q) (hx : E.Governs o x) (hy : E.Governs o' y)
    (hr : Replayed o x r) (hq : Replayed o' y q) :
    Abreast (r.turn o p l) (q.turn o' p l) := by
  have hreading : (r.readClock o).1 = (q.readClock o').1 := h.reading hx hy hr hq
  have hread : Alike (r.readClock o).2 (q.readClock o').2 := h.readClock hreading
  obtain ⟨hstop, hverdict⟩ :=
    hread.answer hx hy (replayed_readClock hr) (replayed_readClock hq)
  unfold Run.turn
  dsimp only
  rw [hreading]
  have hup : (r.readClock o).2.timeUp l (q.readClock o').1 =
      (q.readClock o').2.timeUp l (q.readClock o').1 := by
    rw [timeUp, timeUp, hread.start]
  rw [hup]
  split
  · exact .alike hread
  · obtain ⟨hrun, hend⟩ := hread.renderPhase (q.readClock o').1 p hstop hverdict
    rcases hs : Run.renderPhase o p (q.readClock o').1 (r.readClock o).2 with ⟨s, drew, exit⟩
    rcases ht : Run.renderPhase o' p (q.readClock o').1 (q.readClock o').2 with ⟨t, drew', exit'⟩
    rw [hs, ht] at hrun hend
    obtain ⟨rfl, rfl⟩ := Prod.mk.inj hend
    rcases exit with _ | exit
    · obtain ⟨htimers, hticks⟩ := hrun.timerPhase (q.readClock o').1 p
      dsimp only
      rw [hticks]
      exact htimers.instructionPhase _
    · exact .alike hrun

/-- **Turn by turn** the runs stay alike, as long as neither ends in a fault. -/
theorem Alike.loop (h : Alike r q) (hx : E.Governs o x) (hy : E.Governs o' y)
    (hr : Replayed o x r) (hq : Replayed o' y q) (turns : Nat) :
    Abreast (r.loop o p l turns) (q.loop o' p l turns) := by
  -- Both runs are carried along with their traces, since it is by the deeds so far that the
  -- environment answers the next turn.
  induction turns generalizing r q with
  | zero => exact .alike h
  | succ turns ih =>
    rw [Run.loop, Run.loop, h.stopped]
    split
    · exact .alike h
    · have hturn := h.turn (p := p) (l := l) hx hy hr hq
      rcases hs : r.turn o p l with ⟨s, _ | exit⟩
      · rcases ht : q.turn o' p l with ⟨t, _ | exit'⟩
        · rw [hs, ht] at hturn
          cases hturn with
          | alike halike =>
            exact ih halike ((turning_of_turn hs).replayed hr) ((turning_of_turn ht).replayed hq)
        · rw [hs, ht] at hturn
          cases hturn with
          | second => exact .second
      · rcases ht : q.turn o' p l with ⟨t, _ | exit'⟩
        · rw [hs, ht] at hturn
          cases hturn with
          | first => exact .first
        · rw [hs, ht] at hturn
          exact hturn

/-! ## The run of both -/

/-- A report but for the number of pictures. -/
def unframed (report : Report T) : Report T := { report with frames := 0 }

/-- Runs that are alike and end alike are reported alike. -/
theorem Alike.conclude (h : Alike r q) (hread : (o.read r.outside).1 = (o'.read q.outside).1)
    (exit : Exit) :
    (r.conclude o exit).run.cadence = (q.conclude o' exit).run.cadence ∧
      (r.conclude o exit).report.map (Except.map unframed) =
        (q.conclude o' exit).report.map (Except.map unframed) := by
  have hconcluded : ∀ fault : Option Fault,
      unframed { instructions := r.instructions, timerTicks := r.timerTicks, frames := r.frames
                 elapsed := Time.sub (r.readClock o).1 r.start, fault := fault
                 dropped := r.dropped } =
        unframed { instructions := q.instructions, timerTicks := q.timerTicks, frames := q.frames
                   elapsed := Time.sub (q.readClock o').1 q.start, fault := fault
                   dropped := q.dropped } := by
    intro fault
    have hreading : (r.readClock o).1 = (q.readClock o').1 := hread
    rw [unframed, unframed, h.instructions, h.timerTicks, h.start, h.dropped, hreading]
  cases exit with
  | failed e => exact ⟨h.cadence, rfl⟩
  | timeUp | quit | stopped | instructionLimit | fault =>
    refine ⟨(h.readClock hread).cadence, ?_⟩
    exact congrArg (fun report => some (Except.ok report)) (hconcluded _)

/-- **The program cannot disturb the cadences.** Two machines are run by the same plan and
with the same limits in the same environment, and neither faults. Then the runs make the
same readings, polls, ticks, batches, sleeps and reports in the same order, and end with
the same report; only the pictures and their number may differ. -/
theorem cadences_undisturbed {m n : Machine} {outside : ε} {outside' : δ} {turns : Nat}
    (hx : E.Governs o (m, outside)) (hy : E.Governs o' (n, outside'))
    (hm : ∀ report, (whole o p l turns m outside).report = some (.ok report) →
      report.fault = none)
    (hn : ∀ report, (whole o' p l turns n outside').report = some (.ok report) →
      report.fault = none) :
    (whole o p l turns m outside).run.cadence = (whole o' p l turns n outside').run.cadence ∧
      (whole o p l turns m outside).report.map (Except.map unframed) =
        (whole o' p l turns n outside').report.map (Except.map unframed) := by
  have hloop := (Alike.begin (p := p) hx hy).loop (p := p) (l := l) hx hy
    (replayed_begin m outside) (replayed_begin n outside') turns
  unfold whole at hm hn ⊢
  rcases hr : (begin o p m outside).loop o p l turns with ⟨r, exit⟩
  rcases hq : (begin o' p n outside').loop o' p l turns with ⟨q, exit'⟩
  rw [hr] at hm
  rw [hq] at hn
  rw [hr, hq] at hloop
  have hreplayed := replayed_loop hr
  have hreplayed' := replayed_loop hq
  cases hloop with
  | first => exact absurd (hm _ rfl) (Option.some_ne_none _)
  | second => exact absurd (hn _ rfl) (Option.some_ne_none _)
  | alike halike =>
    rcases exit with _ | exit
    · exact ⟨halike.cadence, rfl⟩
    · exact halike.conclude (halike.reading hx hy hreplayed hreplayed') exit

/-- A machine that waits for a key, at the first address. -/
def waiting : Machine :=
  { Machine.circling with
    state := { Machine.circling.state with
      memory := ((Vector.replicate 4096 0).setIfInBounds 0 0xF0).setIfInBounds 1 0x0A } }

/-- Timers twice as fast as the display, and instructions in between. -/
def leisurely : Plan ℚ where
  rates := ⟨.whole 1, .whole 1, .whole 1⟩
  instructionPeriod := 3
  timerPeriod := 2
  renderPeriod := 4
  idleSleep := 1

/-- A clock that goes on by one with every reading and sleep, and a frontend that quits at
its third poll. -/
def patient : Surroundings ℚ (List (Beat ℚ) × Nat) :=
  .remembering (fun beats => beats.length) fun n => if n < 2 then [] else [.quit]

/-- A program that never gets past its wait for a key is run with the ticks, the polls and
the end of one that goes round in a circle. -/
theorem wait_delays_nothing :
    (whole patient leisurely {} 20 waiting ([], 0)).run.machine.state.pc = 0 ∧
      (whole patient leisurely {} 20 waiting ([], 0)).run.timerTicks = 5 ∧
      (whole patient leisurely {} 20 waiting ([], 0)).run.cadence =
        (whole patient leisurely {} 20 .circling ([], 0)).run.cadence := by
  have hfault : ∀ m : Machine,
      ((whole patient leisurely {} 20 m ([], 0)).report.bind Except.toOption).map (·.fault) =
        some none →
      ∀ report, (whole patient leisurely {} 20 m ([], 0)).report = some (.ok report) →
        report.fault = none := by
    intro m hm report hreport
    rw [hreport] at hm
    exact Option.some.inj hm
  have hcadence : (whole patient leisurely {} 20 waiting ([], 0)).run.cadence =
      (whole patient leisurely {} 20 .circling ([], 0)).run.cadence :=
    (cadences_undisturbed (governs_remembering _ _ waiting) (governs_remembering _ _ .circling)
      (hfault waiting (by decide +kernel)) (hfault .circling (by decide +kernel))).1
  refine ⟨?_, ?_, hcadence⟩
  · decide +kernel
  · decide +kernel

end Run
end ChipEight
