/-
What a turn can come to.

A turn branches on the clock, on the frontend, on the display and on the machine, and
it can be left in several places. Here every way through it is listed once: `Rendering`
for the render phase, `Executing` for the instruction phase, `Turning` for the whole
turn and `Looping` for the loop. Each case says what is known on its way and which run it
leaves, so a statement about turns is proved by going through the list, and the phases
themselves are not opened again.

`Run.stages` are the runs in front of the turns that a loop makes. What is to hold in
every turn, or in one of them, is stated over this list.
-/
import ChipEight.Proofs.Batches
import ChipEight.Proofs.Success
import ChipEight.Schedule.Run

set_option autoImplicit false

namespace ChipEight.Run

variable {T ε : Type}

/-! ## The render phase -/

/-- What serving the pending requests of the frontend comes to. -/
def served (o : Surroundings T ε) (r : Run T ε) : Polled :=
  r.machine.serve r.stopped (o.poll r.machine r.outside).1

/-- The run after a poll. -/
def polled (o : Surroundings T ε) (now : T) (r : Run T ε) : Run T ε :=
  { r with
    machine := (r.served o).machine
    outside := (o.poll r.machine r.outside).2
    stopped := (r.served o).stop
    lastRender := now }.log [.poll]

/-- The run after its display was taken and shown. -/
def shown (o : Surroundings T ε) (r : Run T ε) : Run T ε :=
  { r with
    machine := { r.machine with state := { r.machine.state with displayChanged := false } }
    outside := o.render r.machine.state.display r.outside
    frames := r.frames + 1 }.log [.render r.machine.state.display]

variable [Time T]

/-- Is a poll due? -/
def pollDue (p : Plan T) (now : T) (r : Run T ε) : Bool :=
  Time.reached (Time.sub now r.lastRender) p.renderPeriod

variable (o : Surroundings T ε) (p : Plan T) (l : Limits T) (now : T)

/-- The render phase: the run it leaves, whether it polled, and whether it ends the run. -/
inductive Rendering (r : Run T ε) : Run T ε → Bool → Option Exit → Prop where
  | early : r.pollDue p now = false → Rendering r r false none
  | failed {e : Error} : r.pollDue p now = true → (r.served o).verdict = .failed e →
      Rendering r (r.polled o now) true (some (.failed e))
  | quit : r.pollDue p now = true → (r.served o).verdict = .quit →
      Rendering r ((r.polled o now).log [.report .quitRequested]) true (some .quit)
  | unchanged : r.pollDue p now = true → (r.served o).verdict = .goOn →
      (r.served o).machine.state.displayChanged = false →
      Rendering r (r.polled o now) true none
  | drawn : r.pollDue p now = true → (r.served o).verdict = .goOn →
      (r.served o).machine.state.displayChanged = true →
      Rendering r ((r.polled o now).shown o) true none

omit [Time T] in
theorem pollAndRender_eq (r : Run T ε) : r.pollAndRender o now =
    match (r.served o).verdict with
    | .failed e => (r.polled o now, some (.failed e))
    | .quit => ((r.polled o now).log [.report .quitRequested], some .quit)
    | .goOn =>
      if (r.served o).machine.state.displayChanged then ((r.polled o now).shown o, none)
      else (r.polled o now, none) := by
  unfold pollAndRender
  dsimp only
  rw [show r.machine.serve r.stopped (o.poll r.machine r.outside).1 = r.served o from rfl]
  rcases (r.served o).verdict with _ | _ | e
  · dsimp only
    rw [Machine.consumeDisplay]
    split
    · rename_i hnone
      split at hnone
      · cases hnone
      · rename_i hflag
        exact (if_neg hflag).symm
    · rename_i hsome
      split at hsome
      · rename_i hflag
        cases hsome
        exact (if_pos hflag).symm
      · cases hsome
  · rfl
  · rfl

theorem rendering_renderPhase (r : Run T ε) :
    Rendering o p now r (r.renderPhase o p now).1 (r.renderPhase o p now).2.1
      (r.renderPhase o p now).2.2 := by
  rcases hdue : r.pollDue p now
  · have hphase : r.renderPhase o p now = (r, false, none) := if_neg (Bool.eq_false_iff.mp hdue)
    rw [hphase]
    exact .early hdue
  · have hphase : r.renderPhase o p now =
        ((r.pollAndRender o now).1, true, (r.pollAndRender o now).2) := if_pos hdue
    rw [hphase, pollAndRender_eq]
    rcases hverdict : (r.served o).verdict with _ | _ | e
    · rcases hflag : (r.served o).machine.state.displayChanged
      · exact .unchanged hdue hverdict hflag
      · exact .drawn hdue hverdict hflag
    · exact .quit hdue hverdict
    · exact .failed hdue hverdict

/-- The list is complete: each of its cases is what the phase does. -/
theorem Rendering.eq {o : Surroundings T ε} {p : Plan T} {now : T} {r s : Run T ε} {drew : Bool}
    {exit : Option Exit} (h : Rendering o p now r s drew exit) :
    r.renderPhase o p now = (s, drew, exit) := by
  have hpolls : ∀ hdue : r.pollDue p now = true, r.renderPhase o p now =
      ((r.pollAndRender o now).1, true, (r.pollAndRender o now).2) := fun hdue => if_pos hdue
  cases h with
  | early hdue => exact if_neg (Bool.eq_false_iff.mp hdue)
  | failed hdue hverdict | quit hdue hverdict =>
    rw [hpolls hdue, pollAndRender_eq, hverdict]
  | unchanged hdue hverdict hflag =>
    rw [hpolls hdue, pollAndRender_eq, hverdict]
    dsimp only
    rw [hflag, if_neg Bool.false_ne_true]
  | drawn hdue hverdict hflag =>
    rw [hpolls hdue, pollAndRender_eq, hverdict]
    dsimp only
    rw [hflag, if_pos rfl]

/-! ## The instruction phase -/

/-- How many of the due instructions the run takes. -/
def share (due : Int) (r : Run T ε) : Int :=
  batchSize l.instructions r.instructions due

omit [Time T] in
/-- What a limit leaves over bounds the share. -/
theorem share_le {k : Int} (due : Int) (r : Run T ε) (h : l.instructions = some k) :
    r.share l due ≤ k - r.instructions := by
  rw [share, h]
  exact Int.min_le_right _ _

omit [Time T] in
theorem share_le_maxBatch (due : Int) (r : Run T ε) : r.share l due ≤ maxBatch := by
  unfold share batchSize
  split
  · exact Int.min_le_right _ _
  · exact Int.le_trans (Int.min_le_left _ _) (Int.min_le_right _ _)

/-- The run after a batch. -/
def batched (size : Int) (n : Machine) (done : Nat) (fault : Option Fault)
    (notices : List Notice) (r : Run T ε) : Run T ε :=
  { r with machine := n, instructions := r.instructions + done }.log
    (.batch size done fault :: notices.map .report)

/-- The run after the report that it falls behind, which is made before anything else was
dropped. -/
def warned (rest : Int) (r : Run T ε) : Run T ε :=
  if r.dropped = 0 then r.log [.report (.fallingBehind p.rates.instructions rest)] else r

/-- How the mark of the instructions is moved: to the reading, and the rest is dropped, or
by the periods of the batch. -/
inductive Settled (due size : Int) (r : Run T ε) : Run T ε → Prop where
  | dropped : maxBatch < due →
      Settled due size r { r.warned p (due - size) with
        dropped := (r.warned p (due - size)).dropped + (due - size)
        lastInstruction := now }
  | advanced {span : T} : due ≤ maxBatch → Time.periods size p.instructionPeriod = .ok span →
      Settled due size r { r with lastInstruction := Time.add r.lastInstruction span }

/-- A batch of which every cycle was completed. -/
inductive Completed (size : Int) (r : Run T ε) : Run T ε → Prop where
  | mk {n : Machine} : r.machine.steps size.toNat = (n, size.toNat, none, []) →
      Completed size r (r.batched size n size.toNat none [])

/-- The instruction phase: the run it leaves, and whether it ends the run. -/
inductive Executing (busy : Bool) (r : Run T ε) : Run T ε → Option Exit → Prop where
  | uncounted {e : Error} :
      Time.count (Time.sub now r.lastInstruction) p.instructionPeriod = .error e →
      Executing busy r r (some (.failed e))
  | nothing {due : Int} :
      Time.count (Time.sub now r.lastInstruction) p.instructionPeriod = .ok due → due ≤ 0 →
      busy = true → Executing busy r r none
  | rested {due : Int} :
      Time.count (Time.sub now r.lastInstruction) p.instructionPeriod = .ok due → due ≤ 0 →
      busy = false → Executing busy r (r.rest o p) none
  | fault {due : Int} {n : Machine} {done : Nat} {f : Fault} {notices : List Notice} :
      Time.count (Time.sub now r.lastInstruction) p.instructionPeriod = .ok due → 0 < due →
      r.machine.steps (r.share l due).toNat = (n, done, some f, notices) →
      Executing busy r (r.batched (r.share l due) n done (some f) notices) (some (.fault f))
  | unsettled {due : Int} {q : Run T ε} {e : Error} :
      Time.count (Time.sub now r.lastInstruction) p.instructionPeriod = .ok due → 0 < due →
      Completed (r.share l due) r q → q.settle p now due (r.share l due) = .error e →
      Executing busy r q (some (.failed e))
  | limit {due k : Int} {q s : Run T ε} :
      Time.count (Time.sub now r.lastInstruction) p.instructionPeriod = .ok due → 0 < due →
      Completed (r.share l due) r q → Settled p now due (r.share l due) q s →
      l.instructions = some k → k ≤ s.instructions →
      Executing busy r s (some .instructionLimit)
  | goesOn {due : Int} {q s : Run T ε} :
      Time.count (Time.sub now r.lastInstruction) p.instructionPeriod = .ok due → 0 < due →
      Completed (r.share l due) r q → Settled p now due (r.share l due) q s →
      (∀ k, l.instructions = some k → s.instructions < k) →
      Executing busy r s none

variable {o p l now}

omit [Time T] in
/-- The report is all that it adds. -/
theorem warned_eq_log (r : Run T ε) (rest : Int) : ∃ deeds, r.warned p rest = r.log deeds := by
  unfold warned
  split
  · exact ⟨_, rfl⟩
  · exact ⟨[], rfl⟩

theorem Settled.machine {due size : Int} {r s : Run T ε} (h : Settled p now due size r s) :
    s.machine = r.machine := by
  cases h with
  | dropped =>
    obtain ⟨deeds, hwarned⟩ := warned_eq_log (p := p) r (due - size)
    rw [hwarned]
    rfl
  | advanced => rfl

theorem Settled.instructions {due size : Int} {r s : Run T ε}
    (h : Settled p now due size r s) : s.instructions = r.instructions := by
  cases h with
  | dropped =>
    obtain ⟨deeds, hwarned⟩ := warned_eq_log (p := p) r (due - size)
    rw [hwarned]
    rfl
  | advanced => rfl

theorem settled_of_settle {due size : Int} {r s : Run T ε}
    (h : r.settle p now due size = .ok s) : Settled p now due size r s := by
  unfold settle at h
  split at h
  · rename_i hdue
    cases h
    exact .dropped hdue
  · rename_i hdue
    obtain ⟨span, hspan, hs⟩ := bind_eq_ok_iff.mp h
    cases hs
    exact .advanced (Int.not_lt.mp hdue) hspan

/-- A batch that faults ends the run. -/
theorem carryOut_of_fault {r : Run T ε} {due : Int} {n : Machine} {done : Nat} {f : Fault}
    {notices : List Notice}
    (h : r.machine.steps (r.share l due).toNat = (n, done, some f, notices)) :
    r.carryOut p l now due =
      (r.batched (r.share l due) n done (some f) notices, some (.fault f)) := by
  have hsteps : r.machine.steps (batchSize l.instructions r.instructions due).toNat = _ := h
  unfold carryOut
  dsimp only
  rw [hsteps]
  rfl

/-- Behind a complete batch the mark is moved, and then the limit decides. -/
theorem carryOut_of_completed {r q : Run T ε} {due : Int} (h : Completed (r.share l due) r q) :
    r.carryOut p l now due =
      match q.settle p now due (r.share l due) with
      | .error e => (q, some (.failed e))
      | .ok s =>
        match l.instructions with
        | some k => if k ≤ s.instructions then (s, some .instructionLimit) else (s, none)
        | none => (s, none) := by
  obtain ⟨h⟩ := h
  have hsteps : r.machine.steps (batchSize l.instructions r.instructions due).toNat = _ := h
  unfold carryOut
  dsimp only
  rw [hsteps]
  rfl

theorem executing_carryOut {due : Int} {busy : Bool} {r : Run T ε}
    (hcount : Time.count (Time.sub now r.lastInstruction) p.instructionPeriod = .ok due)
    (hdue : 0 < due) :
    Executing o p l now busy r (r.carryOut p l now due).1 (r.carryOut p l now due).2 := by
  rcases hsteps : r.machine.steps (r.share l due).toNat with ⟨n, done, _ | f, notices⟩
  · obtain ⟨rfl, rfl⟩ := (Machine.batched_of_steps hsteps).complete rfl
    have hbatch : Completed (r.share l due) r _ := .mk hsteps
    rw [carryOut_of_completed hbatch]
    generalize r.batched (r.share l due) n _ none [] = q at hbatch
    rcases hsettle : q.settle p now due (r.share l due) with e | s
    · exact .unsettled hcount hdue hbatch hsettle
    · have hsettled := settled_of_settle hsettle
      rcases hlimit : l.instructions with _ | k
      · refine .goesOn hcount hdue hbatch hsettled ?_
        intro k hk
        rw [hlimit] at hk
        cases hk
      · dsimp only
        by_cases hk : k ≤ s.instructions
        · rw [if_pos hk]
          exact .limit hcount hdue hbatch hsettled hlimit hk
        · rw [if_neg hk]
          refine .goesOn hcount hdue hbatch hsettled ?_
          intro j hj
          rw [hlimit] at hj
          cases hj
          exact Int.not_le.mp hk
  · rw [carryOut_of_fault hsteps]
    exact .fault hcount hdue hsteps

theorem executing_instructionPhase (busy : Bool) (r : Run T ε) :
    Executing o p l now busy r (r.instructionPhase o p l now busy).1
      (r.instructionPhase o p l now busy).2 := by
  unfold instructionPhase
  rcases hcount : Time.count (Time.sub now r.lastInstruction) p.instructionPeriod with e | due
  · exact .uncounted hcount
  · dsimp only
    by_cases hdue : 0 < due
    · rw [if_pos hdue]
      exact executing_carryOut hcount hdue
    · rw [if_neg hdue]
      rcases busy
      · exact .rested hcount (Int.not_lt.mp hdue) rfl
      · exact .nothing hcount (Int.not_lt.mp hdue) rfl

/-! ## The turn -/

variable (o p l)

/-- A turn: the run it leaves, and whether it ends the run. -/
inductive Turning (r : Run T ε) : Run T ε → Option Exit → Prop where
  | timeUp : (r.readClock o).2.timeUp l (r.readClock o).1 = true →
      Turning r (r.readClock o).2 (some .timeUp)
  | left {q : Run T ε} {drew : Bool} {exit : Exit} :
      (r.readClock o).2.timeUp l (r.readClock o).1 = false →
      Rendering o p (r.readClock o).1 (r.readClock o).2 q drew (some exit) →
      Turning r q (some exit)
  | through {q s : Run T ε} {drew : Bool} {exit : Option Exit} :
      (r.readClock o).2.timeUp l (r.readClock o).1 = false →
      Rendering o p (r.readClock o).1 (r.readClock o).2 q drew none →
      Executing o p l (r.readClock o).1
        (drew || decide (0 < (q.timerPhase p (r.readClock o).1).2))
        (q.timerPhase p (r.readClock o).1).1 s exit →
      Turning r s exit

theorem turning_turn (r : Run T ε) : Turning o p l r (r.turn o p l).1 (r.turn o p l).2 := by
  unfold turn
  dsimp only
  rcases hup : (r.readClock o).2.timeUp l (r.readClock o).1
  · have hrender := rendering_renderPhase o p (r.readClock o).1 (r.readClock o).2
    rcases hphase : renderPhase o p (r.readClock o).1 (r.readClock o).2 with ⟨q, drew, _ | exit⟩
    · rw [hphase] at hrender
      exact .through hup hrender (executing_instructionPhase _ _)
    · rw [hphase] at hrender
      exact .left hup hrender
  · exact .timeUp hup

/-! ## The loop -/

/-- The runs in front of the turns that a loop makes. -/
def stages : Nat → Run T ε → List (Run T ε)
  | 0, _ => []
  | turns + 1, r =>
    if r.stopped then []
    else r :: match r.turn o p l with
      | (_, some _) => []
      | (s, none) => stages turns s

/-- A loop: the turns it may make, the runs in front of those it makes, the run it leaves
and how it ends. -/
inductive Looping : Nat → Run T ε → List (Run T ε) → Run T ε → Option Exit → Prop where
  | spent {r : Run T ε} : Looping 0 r [] r none
  | stopped {turns : Nat} {r : Run T ε} : r.stopped = true →
      Looping (turns + 1) r [] r (some .stopped)
  | last {turns : Nat} {r s : Run T ε} {exit : Exit} : r.stopped = false →
      r.turn o p l = (s, some exit) → Looping (turns + 1) r [r] s (some exit)
  | next {turns : Nat} {r s t : Run T ε} {before : List (Run T ε)} {exit : Option Exit} :
      r.stopped = false → r.turn o p l = (s, none) → Looping turns s before t exit →
      Looping (turns + 1) r (r :: before) t exit

theorem looping_loop (turns : Nat) (r : Run T ε) :
    Looping o p l turns r (r.stages o p l turns) (r.loop o p l turns).1
      (r.loop o p l turns).2 := by
  induction turns generalizing r with
  | zero => exact .spent
  | succ turns ih =>
    rcases hstopped : r.stopped
    · have hgo : ¬ r.stopped = true := Bool.eq_false_iff.mp hstopped
      rcases hturn : r.turn o p l with ⟨s, _ | exit⟩
      · have hstages : r.stages o p l (turns + 1) = r :: s.stages o p l turns := by
          rw [stages, if_neg hgo, hturn]
        have hloop : r.loop o p l (turns + 1) = s.loop o p l turns := by
          rw [loop, if_neg hgo, hturn]
        rw [hstages, hloop]
        exact .next hstopped hturn (ih s)
      · have hstages : r.stages o p l (turns + 1) = [r] := by
          rw [stages, if_neg hgo, hturn]
        have hloop : r.loop o p l (turns + 1) = (s, some exit) := by
          rw [loop, if_neg hgo, hturn]
        rw [hstages, hloop]
        exact .last hstopped hturn
    · have hstages : r.stages o p l (turns + 1) = [] := by
        rw [stages, if_pos hstopped]
      have hloop : r.loop o p l (turns + 1) = (r, some .stopped) := by
        rw [loop, if_pos hstopped]
      rw [hstages, hloop]
      exact .stopped hstopped

variable {o p l}

theorem turning_of_turn {r s : Run T ε} {exit : Option Exit} (h : r.turn o p l = (s, exit)) :
    Turning o p l r s exit := by
  have hturn := turning_turn o p l r
  rw [h] at hturn
  exact hturn

theorem looping_of_loop {turns : Nat} {r s : Run T ε} {exit : Option Exit}
    (h : r.loop o p l turns = (s, exit)) :
    Looping o p l turns r (r.stages o p l turns) s exit := by
  have hloop := looping_loop o p l turns r
  rw [h] at hloop
  exact hloop

/-- What every turn keeps holds in front of every turn of a loop and behind the last. -/
theorem Looping.invariant {P : Run T ε → Prop}
    (hturn : ∀ r s exit, P r → Turning o p l r s exit → P s) {turns : Nat} {r s : Run T ε}
    {before : List (Run T ε)} {exit : Option Exit} (h : Looping o p l turns r before s exit)
    (hr : P r) : (∀ q ∈ before, P q) ∧ P s := by
  induction h with
  | spent => exact ⟨List.forall_mem_nil _, hr⟩
  | stopped => exact ⟨List.forall_mem_nil _, hr⟩
  | last hgo hlast =>
    refine ⟨?_, hturn _ _ _ hr (turning_of_turn hlast)⟩
    intro q hq
    rw [List.mem_singleton.mp hq]
    exact hr
  | next hgo hnext hrest ih =>
    obtain ⟨hbefore, hend⟩ := ih (hturn _ _ _ hr (turning_of_turn hnext))
    exact ⟨List.forall_mem_cons.mpr ⟨hr, hbefore⟩, hend⟩

/-! ## The report -/

/-- A run that ended so and reports: it reads the clock once more, and the report has its
counts. -/
structure Concluded (o : Surroundings T ε) (s : Run T ε) (exit : Exit) (r : Run T ε)
    (report : Report T) : Prop where
  run_eq : r = (s.readClock o).2
  report_eq : report =
    { instructions := s.instructions, timerTicks := s.timerTicks, frames := s.frames
      elapsed := Time.sub (s.readClock o).1 s.start, fault := faultOf exit
      dropped := s.dropped }
  not_failed : ∀ e, exit ≠ .failed e

theorem concluded_of_conclude {s r : Run T ε} {exit : Exit} {report : Report T}
    (h : s.conclude o exit = ⟨r, some (.ok report)⟩) : Concluded o s exit r report := by
  cases exit with
  | failed e => cases h
  | timeUp | quit | stopped | instructionLimit | fault =>
    cases h
    exact ⟨rfl, rfl, nofun⟩

theorem concluded_of_whole {turns : Nat} {m : Machine} {outside : ε} {r : Run T ε}
    {report : Report T} (h : whole o p l turns m outside = ⟨r, some (.ok report)⟩) :
    ∃ s exit, (begin o p m outside).loop o p l turns = (s, some exit) ∧
      Concluded o s exit r report := by
  unfold whole at h
  rcases hloop : (begin o p m outside).loop o p l turns with ⟨s, _ | exit⟩
  · rw [hloop] at h
    cases h
  · rw [hloop] at h
    exact ⟨s, exit, rfl, concluded_of_conclude h⟩

end ChipEight.Run
