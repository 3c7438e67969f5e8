/-
What becomes of the time for instructions.

A turn finds some periods since the mark of the instructions. It carries out the whole
ones and moves the mark over them, so the part of a period is there for the next turn.
Only a turn that finds more than sixty-four gives a part up: it drops and counts the
whole periods that it does not carry out, and moves the mark to the reading.

So the periods since the start are the instructions carried out, those dropped, the
parts given up and the part that is left. None is counted twice and no whole one is
missing from the counts.
-/
import ChipEight.Proofs.Schedule.ExactTime
import ChipEight.Proofs.Schedule.Phases
import Mathlib.Algebra.Order.BigOperators.Group.List
import Mathlib.Algebra.Order.Floor.Ring
import Mathlib.Tactic.FieldSimp
import Mathlib.Tactic.Linarith
import Mathlib.Tactic.Ring

set_option autoImplicit false

namespace ChipEight.Run

variable {ε : Type} {o : Surroundings ℚ ε} {p : Plan ℚ} {l : Limits ℚ}

/-! ## What a turn finds -/

/-- The periods since the mark of the instructions, as the next turn finds them. -/
def found (o : Surroundings ℚ ε) (p : Plan ℚ) (r : Run ℚ ε) : ℚ :=
  ((r.readClock o).1 - r.lastInstruction) / p.instructionPeriod

/-- What a turn gives up that finds so many periods: the part of a period, and that only
if the whole ones are more than it carries out. -/
def forfeit (x : ℚ) : List ℚ :=
  if maxBatch < ⌊x⌋ then [Int.fract x] else []

/-- What the turns give up that begin with these runs. -/
def forgone (o : Surroundings ℚ ε) (p : Plan ℚ) (before : List (Run ℚ ε)) : List ℚ :=
  before.flatMap fun r => forfeit (r.found o p)

theorem mem_forfeit {x y : ℚ} (h : y ∈ forfeit x) : 0 ≤ y ∧ y < 1 := by
  unfold forfeit at h
  by_cases hx : maxBatch < ⌊x⌋
  · rw [if_pos hx, List.mem_singleton] at h
    rw [h]
    exact ⟨Int.fract_nonneg x, Int.fract_lt_one x⟩
  · rw [if_neg hx] at h
    simp at h

theorem mem_forgone {before : List (Run ℚ ε)} {y : ℚ} (h : y ∈ forgone o p before) :
    0 ≤ y ∧ y < 1 := by
  obtain ⟨r, -, hr⟩ := List.mem_flatMap.mp h
  exact mem_forfeit hr

theorem forgone_eq_nil {before : List (Run ℚ ε)} (h : ∀ r ∈ before, ⌊r.found o p⌋ ≤ maxBatch) :
    forgone o p before = [] := by
  apply List.flatMap_eq_nil_iff.mpr
  intro r hr
  exact if_neg (not_lt.mpr (h r hr))

/-! ## A batch that the limit does not cut -/

theorem share_eq_min {r : Run ℚ ε} {due : Int}
    (h : ∀ k, l.instructions = some k →
      ((r.instructions + (r.share l due).toNat : Nat) : Int) < k) :
    r.share l due = min due maxBatch := by
  unfold share batchSize at h ⊢
  rcases hlimit : l.instructions with _ | k
  · rfl
  · rw [hlimit] at h
    have hlt := h k rfl
    simp only at hlt ⊢
    omega

/-- What is booked for the due instructions: those of the batch are carried out, and the
mark moves over the due ones or, when some were dropped, to the reading. -/
structure Booked (p : Plan ℚ) (now : ℚ) (due : Int) (r s : Run ℚ ε) : Prop where
  start : s.start = r.start
  instructions : (s.instructions : Int) = r.instructions + min due maxBatch
  mark : (maxBatch < due ∧ s.dropped = r.dropped + (due - maxBatch) ∧ s.lastInstruction = now) ∨
    (due ≤ maxBatch ∧ s.dropped = r.dropped ∧
      s.lastInstruction = r.lastInstruction + due * p.instructionPeriod)

variable {now : ℚ} {r s : Run ℚ ε} {due : Int}

/-- When nothing is due, nothing is booked. -/
theorem Booked.refl (r : Run ℚ ε) : Booked p now 0 r r := by
  refine ⟨rfl, ?_, .inr ⟨by decide, rfl, ?_⟩⟩
  · have hmin : min 0 maxBatch = 0 := by decide
    rw [hmin, add_zero]
  · simp

theorem Booked.rest (r : Run ℚ ε) : Booked p now 0 r (r.rest o p) := by
  have hrefl : Booked p now 0 r r := .refl r
  unfold Run.rest
  split
  · exact ⟨hrefl.start, hrefl.instructions, hrefl.mark⟩
  · exact hrefl

theorem booked_of_goesOn {q : Run ℚ ε} (hpos : 0 < due) (hbatch : Completed (r.share l due) r q)
    (hsettled : Settled p now due (r.share l due) q s)
    (hlimit : ∀ k, l.instructions = some k → (s.instructions : Int) < k) :
    Booked p now due r s := by
  have hstart : s.start = r.start := hsettled.frame.start.trans hbatch.frame.start
  have hcount : s.instructions = q.instructions := hsettled.instructions
  obtain ⟨hsteps⟩ := hbatch
  have hsize : r.share l due = min due maxBatch := by
    apply share_eq_min
    intro k hk
    have hlt := hlimit k hk
    rw [hcount] at hlt
    exact hlt
  have hmin : 0 ≤ min due maxBatch := le_min hpos.le (by decide)
  have hdone : (s.instructions : Int) = r.instructions + min due maxBatch := by
    have hadd : s.instructions = r.instructions + (r.share l due).toNat := hcount
    rw [hadd, hsize]
    omega
  refine ⟨hstart, hdone, ?_⟩
  rw [hsize] at hsettled
  cases hsettled with
  | dropped hmany =>
    obtain ⟨deeds, hwarned⟩ := warned_eq_log (p := p)
      (r.batched (min due maxBatch) _ (min due maxBatch).toNat none []) (due - min due maxBatch)
    rw [hwarned, min_eq_right hmany.le]
    exact .inl ⟨hmany, rfl, rfl⟩
  | advanced hfew hspan =>
    rw [min_eq_left hfew, Time.periods_eq] at hspan
    cases hspan
    exact .inr ⟨hfew, rfl, rfl⟩

/-- The due instructions that are booked are the whole periods of the time since the mark,
and less than a period is left of it. -/
theorem Booked.left (hperiod : 0 < p.instructionPeriod) (h : Booked p now due r s)
    (hdue : due = ⌊(now - r.lastInstruction) / p.instructionPeriod⌋) :
    0 ≤ now - s.lastInstruction ∧ now - s.lastInstruction < p.instructionPeriod := by
  rcases h.mark with ⟨-, -, hlast⟩ | ⟨-, -, hlast⟩
  · rw [hlast, sub_self]
    exact ⟨le_refl 0, hperiod⟩
  · have hfloor := Int.floor_le ((now - r.lastInstruction) / p.instructionPeriod)
    have hnext := Int.lt_floor_add_one ((now - r.lastInstruction) / p.instructionPeriod)
    rw [← hdue, le_div_iff₀ hperiod] at hfloor
    rw [← hdue, div_lt_iff₀ hperiod] at hnext
    rw [hlast]
    constructor
    · linarith
    · linarith

/-- **The instruction phase** of a turn that goes on books the whole periods since the mark. -/
theorem Executing.booked {busy : Bool} (hperiod : 0 < p.instructionPeriod)
    (hle : r.lastInstruction ≤ now) (h : Executing o p l now busy r s none) :
    Booked p now ⌊(now - r.lastInstruction) / p.instructionPeriod⌋ r s := by
  have hspan : 0 ≤ now - r.lastInstruction := sub_nonneg.mpr hle
  have hfloor := Time.count_eq_floor hspan hperiod
  have hnonneg : 0 ≤ ⌊(now - r.lastInstruction) / p.instructionPeriod⌋ :=
    Int.floor_nonneg.mpr (div_nonneg hspan hperiod.le)
  cases h with
  | nothing hcount hdue _ =>
    rw [Time.sub_eq, hfloor] at hcount
    cases hcount
    rw [le_antisymm hdue hnonneg]
    exact .refl r
  | rested hcount hdue _ =>
    rw [Time.sub_eq, hfloor] at hcount
    cases hcount
    rw [le_antisymm hdue hnonneg]
    exact .rest r
  | goesOn hcount hpos hbatch hsettled hlimit =>
    rw [Time.sub_eq, hfloor] at hcount
    cases hcount
    exact booked_of_goesOn hpos hbatch hsettled hlimit

/-- **One turn** that goes on books what it finds. Up to its instruction phase it leaves the
mark and the counts alone. -/
theorem Turning.booked (hperiod : 0 < p.instructionPeriod)
    (hle : r.lastInstruction ≤ (r.readClock o).1) (h : Turning o p l r s none) :
    Booked p (r.readClock o).1 ⌊r.found o p⌋ r s := by
  cases h with
  | @through q _ _ _ _ hrender hexec =>
    have hframe := hrender.frame
    have htimer : TimerFrame q (q.timerPhase p (r.readClock o).1).1 := timerFrame_timerPhase q
    have hstart : (q.timerPhase p (r.readClock o).1).1.start = r.start :=
      htimer.start.trans hframe.start
    have hlast : (q.timerPhase p (r.readClock o).1).1.lastInstruction = r.lastInstruction :=
      htimer.lastInstruction.trans hframe.lastInstruction
    have hcount : (q.timerPhase p (r.readClock o).1).1.instructions = r.instructions :=
      htimer.instructions.trans hframe.instructions
    have hdropped : (q.timerPhase p (r.readClock o).1).1.dropped = r.dropped :=
      htimer.dropped.trans hframe.dropped
    have hbooked := hexec.booked hperiod (hlast.trans_le hle)
    rw [hlast] at hbooked
    refine ⟨hbooked.start.trans hstart, ?_, ?_⟩
    · rw [← hcount]
      exact hbooked.instructions
    · rw [← hdropped, ← hlast]
      exact hbooked.mark

/-! ## The account of one turn -/

/-- The periods up to the mark were carried out, dropped or given up, and from the mark
to the reading it is less than one. Nothing is dropped unless something is given up. -/
structure Metered (p : Plan ℚ) (given : List ℚ) (now : ℚ) (r : Run ℚ ε) : Prop where
  mark_eq : r.lastInstruction =
    r.start + (r.instructions + r.dropped + given.sum) * p.instructionPeriod
  mark_le : r.lastInstruction ≤ now
  lt_period : now - r.lastInstruction < p.instructionPeriod
  kept : given = [] → r.dropped = 0

namespace Metered

variable {given : List ℚ} {before : ℚ}

/-- What is booked goes into the account, and so a part of a period is left over: as time,
or given up. -/
theorem booked (hperiod : 0 < p.instructionPeriod) (h : Metered p given before r)
    (hbooked : Booked p now due r s)
    (hdue : due = ⌊(now - r.lastInstruction) / p.instructionPeriod⌋) :
    Metered p (given ++ forfeit ((now - r.lastInstruction) / p.instructionPeriod)) now s := by
  obtain ⟨hleft, hshort⟩ := hbooked.left hperiod hdue
  have hspan : now - r.lastInstruction =
      (due + Int.fract ((now - r.lastInstruction) / p.instructionPeriod)) *
        p.instructionPeriod := by
    rw [hdue, Int.floor_add_fract]
    field_simp
  have hmark := h.mark_eq
  have hdone : (s.instructions : ℚ) = r.instructions + (min due maxBatch : ℤ) := by
    exact_mod_cast hbooked.instructions
  rw [forfeit, ← hdue]
  generalize Int.fract ((now - r.lastInstruction) / p.instructionPeriod) = part at *
  rcases hbooked.mark with ⟨hmany, hdropped, hlast⟩ | ⟨hfew, hdropped, hlast⟩
  · -- The mark is the reading: the part of a period before it is given up.
    rw [if_pos hmany]
    rw [min_eq_right hmany.le] at hdone
    have hrest : (s.dropped : ℚ) = r.dropped + (due - (maxBatch : ℤ)) := by
      exact_mod_cast hdropped
    refine ⟨?_, sub_nonneg.mp hleft, hshort, ?_⟩
    · rw [hlast, hbooked.start, hdone, hrest, List.sum_append, List.sum_singleton]
      linarith
    · simp
  · -- The mark moved over the whole periods: the part is still to come.
    rw [if_neg (not_lt.mpr hfew), List.append_nil]
    rw [min_eq_left hfew] at hdone
    refine ⟨?_, sub_nonneg.mp hleft, hshort, ?_⟩
    · rw [hlast, hbooked.start, hdone, hdropped, hmark]
      ring
    · intro hnil
      exact hdropped.trans (h.kept hnil)

/-- **One turn** that goes on. -/
theorem turning (hperiod : 0 < p.instructionPeriod) (h : Metered p given before r)
    (hle : before ≤ (r.readClock o).1) (hturn : Turning o p l r s none) :
    Metered p (given ++ forfeit (r.found o p)) (r.readClock o).1 s :=
  h.booked hperiod (hturn.booked hperiod (h.mark_le.trans hle)) rfl

theorem begin (hperiod : 0 < p.instructionPeriod) (m : Machine) (outside : ε) :
    Metered p [] (o.read outside).1 (Run.begin o p m outside) := by
  have hmark : (o.read outside).1 = (o.read outside).1 +
      (((0 : Nat) : ℚ) + ((0 : Int) : ℚ) + ([] : List ℚ).sum) * p.instructionPeriod := by
    simp
  have hnone : (o.read outside).1 - (o.read outside).1 < p.instructionPeriod := by
    rw [sub_self]
    exact hperiod
  exact ⟨hmark, le_refl _, hnone, fun _ => rfl⟩

/-- **Every turn of a loop** that goes on adds what it gives up. -/
theorem looping (hperiod : 0 < p.instructionPeriod) {turns : Nat} {stages : List (Run ℚ ε)}
    {exit : Option Exit} (hloop : Looping o p l turns r stages s exit) (hexit : exit = none)
    (h : Metered p given now r) (hnow : r.readings.head? = some now)
    (hsorted : s.readings.Pairwise (· ≥ ·)) :
    ∃ last, s.readings.head? = some last ∧ Metered p (given ++ forgone o p stages) last s := by
  induction hloop generalizing given now with
  | spent =>
    refine ⟨now, hnow, ?_⟩
    rw [forgone, List.flatMap_nil, List.append_nil]
    exact h
  | stopped => cases hexit
  | last => cases hexit
  | @next turns r t s stages exit hgo hturn hrest ih =>
    have hturning := turning_of_turn hturn
    have hreadings := hturning.readings
    -- The readings up to here are the oldest of all the readings, so they are in order.
    have hle : now ≤ (r.readClock o).1 := by
      have hprefix := hsorted.sublist hrest.readings_suffix.sublist
      rw [hreadings, List.pairwise_cons] at hprefix
      exact hprefix.1 now (List.mem_of_mem_head? hnow)
    have hstep := h.turning hperiod hle hturning
    have hhead : t.readings.head? = some (r.readClock o).1 := by
      rw [hreadings]
      rfl
    obtain ⟨last, hlast, hend⟩ := ih hexit hstep hhead hsorted
    refine ⟨last, hlast, ?_⟩
    rw [forgone, List.flatMap_cons, ← List.append_assoc]
    exact hend

end Metered

/-- **Instruction time is conserved.** Behind every turn that goes on, the periods since
the start are the instructions carried out, those dropped, a part of a period for each
turn that found more than it carries out, and the part that is left. So the counts never
exceed the whole periods since the start, and without such a turn nothing is dropped and
every whole period was an instruction. -/
theorem instruction_time_conserved {m : Machine} {outside : ε} {turns : Nat}
    (hperiod : 0 < p.instructionPeriod)
    (hloop : (begin o p m outside).loop o p l turns = (r, none))
    (hnow : r.readings.head? = some now) (hsorted : r.readings.Pairwise (· ≥ ·)) :
    (now - r.start) / p.instructionPeriod =
        r.instructions + r.dropped + (forgone o p ((begin o p m outside).stages o p l turns)).sum +
          (now - r.lastInstruction) / p.instructionPeriod ∧
      (∀ x ∈ forgone o p ((begin o p m outside).stages o p l turns), 0 ≤ x ∧ x < 1) ∧
      0 ≤ (now - r.lastInstruction) / p.instructionPeriod ∧
      (now - r.lastInstruction) / p.instructionPeriod < 1 ∧
      ((∀ q ∈ (begin o p m outside).stages o p l turns, ⌊q.found o p⌋ ≤ maxBatch) →
        r.dropped = 0 ∧ (r.instructions : ℤ) = ⌊(now - r.start) / p.instructionPeriod⌋) ∧
      r.instructions + r.dropped ≤ ⌊(now - r.start) / p.instructionPeriod⌋ := by
  have hbegin := Metered.begin (o := o) hperiod m outside
  obtain ⟨last, hlast, hend⟩ := hbegin.looping hperiod (looping_of_loop hloop) rfl rfl hsorted
  rw [hnow] at hlast
  cases hlast
  rw [List.nil_append] at hend
  have hmark := hend.mark_eq
  have hgiven : ∀ x ∈ forgone o p ((begin o p m outside).stages o p l turns), 0 ≤ x ∧ x < 1 :=
    fun x hx => mem_forgone hx
  have hnone : (∀ q ∈ (begin o p m outside).stages o p l turns, ⌊q.found o p⌋ ≤ maxBatch) →
      forgone o p ((begin o p m outside).stages o p l turns) = [] := forgone_eq_nil
  generalize forgone o p ((begin o p m outside).stages o p l turns) = given at *
  have hleft : 0 ≤ (now - r.lastInstruction) / p.instructionPeriod :=
    div_nonneg (sub_nonneg.mpr hend.mark_le) hperiod.le
  have hless : (now - r.lastInstruction) / p.instructionPeriod < 1 :=
    (div_lt_one hperiod).mpr hend.lt_period
  have htime : (now - r.start) / p.instructionPeriod =
      r.instructions + r.dropped + given.sum + (now - r.lastInstruction) / p.instructionPeriod := by
    rw [hmark]
    field_simp
    ring
  have hsum : 0 ≤ given.sum := List.sum_nonneg fun x hx => (hgiven x hx).1
  refine ⟨htime, hgiven, hleft, hless, ?_, ?_⟩
  · intro hfew
    have hnil := hnone hfew
    have hdropped := hend.kept hnil
    refine ⟨hdropped, ?_⟩
    rw [eq_comm, Int.floor_eq_iff, htime, hnil, hdropped]
    simp only [List.sum_nil, Int.cast_zero, Int.cast_natCast, add_zero]
    constructor
    · linarith
    · linarith
  · rw [Int.le_floor, htime]
    push_cast
    linarith

/-- Surroundings whose clock stalls once: it reads 0, sixty-six and a half, and then 67. -/
def stalling : Surroundings ℚ Nat where
  read n := (if n = 0 then 0 else if n = 1 then 133 / 2 else 67, n + 1)
  sleep _ n := n
  poll _ n := ([], n)
  render _ n := n

/-- An instruction in every unit of time, and the other cadences at rest. -/
def instructionsOnly : Plan ℚ where
  rates := ⟨.whole 1, .whole 1, .whole 1⟩
  instructionPeriod := 1
  timerPeriod := 100
  renderPeriod := 100
  idleSleep := 0

/-- A run of the circling machine behind two turns. -/
def stalled : Run ℚ Nat :=
  ((begin stalling instructionsOnly .circling 0).loop stalling instructionsOnly {} 2).1

theorem stalled_account : stalled.readings = [67, 133 / 2, 0] ∧ stalled.start = 0 ∧
    stalled.instructions = 64 ∧ stalled.dropped = 2 := by
  decide +kernel

/-- Of sixty-six and a half periods two are dropped and a half is given up. Half a period
later the whole time is accounted for, and one period less was counted than has passed. -/
theorem stall_accounted :
    (begin stalling instructionsOnly .circling 0).loop stalling instructionsOnly {} 2 =
        (stalled, none) ∧
      (67 - stalled.start) / instructionsOnly.instructionPeriod = (64 : Nat) + (2 : Int) +
        ([1 / 2] : List ℚ).sum +
          (67 - stalled.lastInstruction) / instructionsOnly.instructionPeriod ∧
      (stalled.instructions : ℤ) + stalled.dropped + 1 =
        ⌊(67 - stalled.start) / instructionsOnly.instructionPeriod⌋ := by
  obtain ⟨hreadings, hstart, hinstructions, hdropped⟩ := stalled_account
  have hperiod : 0 < instructionsOnly.instructionPeriod := by decide +kernel
  have hloop : (begin stalling instructionsOnly .circling 0).loop stalling instructionsOnly {} 2 =
      (stalled, none) :=
    Prod.ext rfl (Option.isNone_iff_eq_none.mp (by decide +kernel))
  have hnow : stalled.readings.head? = some 67 := by
    rw [hreadings]
    rfl
  have hsorted : stalled.readings.Pairwise (· ≥ ·) := by
    rw [hreadings]
    decide +kernel
  have hforgone : forgone stalling instructionsOnly
      ((begin stalling instructionsOnly .circling 0).stages stalling instructionsOnly {} 2) =
        [1 / 2] := by
    decide +kernel
  have hconserved := (instruction_time_conserved hperiod hloop hnow hsorted).1
  rw [hforgone, hinstructions, hdropped] at hconserved
  refine ⟨hloop, hconserved, ?_⟩
  rw [hinstructions, hdropped, hstart]
  decide +kernel

end ChipEight.Run
