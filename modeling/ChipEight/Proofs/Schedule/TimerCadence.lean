/-
How the timers keep up with the clock.

A turn makes the ticks that are due and moves the mark of the timers by as many
periods, so what is left of the time between two ticks is there for the next turn.
The exception is a turn that makes four ticks: it moves the mark to the reading and
forgets what it found past the four periods, whether that was another tick or only a
part of one. The instructions differ in this. They give up time only when more were
due than a turn carries out, and keep the part when exactly as many were.

`Run.overrun` is the time that a turn forgets and `Run.lost` its sum. The main
statement accounts for all the time since the start, and so says exactly when the
ticks are as many as the periods that have passed.
-/
import ChipEight.Proofs.Schedule.ExactTime
import ChipEight.Proofs.Schedule.Phases
import Mathlib.Algebra.Order.Floor.Ring
import Mathlib.Tactic.Linarith
import Mathlib.Tactic.Ring

set_option autoImplicit false

namespace ChipEight.Run

variable {ε : Type} {o : Surroundings ℚ ε} {p : Plan ℚ} {l : Limits ℚ}

/-! ## The ticks of one turn -/

/-- What a catch-up comes to that makes at most `most` ticks: the mark is moved by the
periods of the ticks and does not pass the reading, and less than a period is left
unless the catch-up was full. -/
structure CaughtUp (period now last : ℚ) (most ticks : Nat) (mark : ℚ) : Prop where
  mark_eq : mark = last + ticks * period
  mark_le : mark ≤ now
  le_most : ticks ≤ most
  lt_period : ticks < most → now - mark < period

theorem caughtUp_dueTicks {period now last : ℚ} (h : last ≤ now) (most : Nat) :
    CaughtUp period now last most (dueTicks period now last most).1
      (dueTicks period now last most).2 := by
  -- The mark is general: a tick moves it, and the rest of the allowance starts from there.
  induction most generalizing last with
  | zero =>
    have hmark : last = last + ((0 : Nat) : ℚ) * period := by simp
    exact ⟨hmark, h, Nat.le_refl 0, fun hlt => absurd hlt (Nat.lt_irrefl 0)⟩
  | succ most ih =>
    rw [dueTicks]
    by_cases hdue : Time.reached (Time.sub now last) period = true
    · rw [if_pos hdue]
      rw [Time.sub_eq, Time.reached_iff] at hdue
      have hnext : last + period ≤ now := by linarith
      have hrest := ih hnext
      refine ⟨?_, hrest.mark_le, Nat.succ_le_succ hrest.le_most, ?_⟩
      · have hmark := hrest.mark_eq
        rw [Time.add_eq, hmark]
        push_cast
        ring
      · intro hlt
        exact hrest.lt_period (Nat.lt_of_succ_lt_succ hlt)
    · rw [if_neg hdue]
      rw [Time.sub_eq, Time.reached_iff, not_le] at hdue
      have hmark : last = last + ((0 : Nat) : ℚ) * period := by simp
      exact ⟨hmark, h, Nat.zero_le _, fun _ => hdue⟩

namespace CaughtUp

variable {period now last mark : ℚ} {most ticks : Nat}

/-- A full catch-up leaves what lies past its periods. -/
theorem overrun_of_full (h : CaughtUp period now last most most mark) :
    max 0 (now - last - most * period) = now - mark := by
  have hle := h.mark_le
  have hrest : now - last - most * period = now - mark := by
    rw [h.mark_eq]
    ring
  rw [hrest]
  exact max_eq_right (sub_nonneg.mpr hle)

/-- Where fewer ticks were made than were allowed, no time lies past the allowed ones. -/
theorem overrun_of_lt (hperiod : 0 < period) (h : CaughtUp period now last most ticks mark)
    (hlt : ticks < most) : max 0 (now - last - most * period) = 0 := by
  have hrest := h.lt_period hlt
  have hsucc : ((ticks + 1 : Nat) : ℚ) ≤ most := Nat.cast_le.mpr hlt
  have hspan : ((ticks + 1 : Nat) : ℚ) * period ≤ most * period :=
    mul_le_mul_of_nonneg_right hsucc hperiod.le
  rw [h.mark_eq] at hrest
  push_cast at hspan
  refine max_eq_left ?_
  linarith

end CaughtUp

/-- The time past the periods of a full catch-up that the next turn finds. -/
def overrun (o : Surroundings ℚ ε) (p : Plan ℚ) (r : Run ℚ ε) : ℚ :=
  max 0 ((r.readClock o).1 - r.lastTimer - maxTicks * p.timerPeriod)

/-- The overruns of the next so many turns. -/
def lost (o : Surroundings ℚ ε) (p : Plan ℚ) (l : Limits ℚ) : Nat → Run ℚ ε → ℚ
  | 0, _ => 0
  | turns + 1, r => r.overrun o p + lost o p l turns (r.turn o p l).1

/-! ## The account of the time -/

/-- The time that went by up to the mark was served in ticks or is lost, and the mark
is no later than some reading. -/
structure Accounted (p : Plan ℚ) (lost : ℚ) (r : Run ℚ ε) : Prop where
  mark_eq : r.lastTimer = r.start + r.timerTicks * p.timerPeriod + lost
  mark_le : ∃ t ∈ r.readings, r.lastTimer ≤ t

namespace Accounted

variable {lost now : ℚ} {r q s : Run ℚ ε} {drew : Bool}

theorem begin (m : Machine) (outside : ε) : Accounted p 0 (Run.begin o p m outside) := by
  refine ⟨?_, (o.read outside).1, List.mem_singleton_self _, le_refl _⟩
  have hnone : (o.read outside).1 = (o.read outside).1 + ((0 : Nat) : ℚ) * p.timerPeriod + 0 := by
    simp
  exact hnone

theorem of_instructionFrame (h : Accounted p lost r) (hframe : InstructionFrame r s) :
    Accounted p lost s := by
  refine ⟨?_, ?_⟩
  · rw [hframe.lastTimer, hframe.start, hframe.timerTicks]
    exact h.mark_eq
  · rw [hframe.readings, hframe.lastTimer]
    exact h.mark_le

theorem of_renderFrame (h : Accounted p lost r) (hframe : RenderFrame r s) :
    Accounted p lost s := by
  refine ⟨?_, ?_⟩
  · rw [hframe.lastTimer, hframe.start, hframe.timerTicks]
    exact h.mark_eq
  · rw [hframe.readings, hframe.lastTimer]
    exact h.mark_le

/-- One reading more is one more that the mark may lie behind. -/
theorem readClock (h : Accounted p lost r) : Accounted p lost (r.readClock o).2 := by
  obtain ⟨t, ht, hle⟩ := h.mark_le
  exact ⟨h.mark_eq, t, List.mem_cons_of_mem _ ht, hle⟩

/-- Up to its timers a turn changes nothing in the account. -/
theorem untilTimers (h : Accounted p lost r) (hu : r.untilTimers? o p l = some (now, q, drew)) :
    Accounted p lost q :=
  h.readClock.of_renderFrame (untilTimers?_eq_some hu).2

/-- The mark is no later than the next reading of a clock that does not go back. -/
theorem mark_le_now (h : Accounted p lost r) (hu : r.untilTimers? o p l = some (now, q, drew))
    (hsorted : q.readings.Pairwise (· ≥ ·)) : q.lastTimer ≤ now := by
  obtain ⟨t, ht, hle⟩ := h.mark_le
  rw [readings_of_untilTimers? hu, List.pairwise_cons] at hsorted
  rw [(untilTimers?_eq_some hu).2.lastTimer]
  exact hle.trans (hsorted.1 t ht)

/-- **The timer phase** serves the time since the mark in ticks, but for the overrun,
and what it leaves is less than a period. -/
theorem timerPhase (hperiod : 0 < p.timerPeriod) (h : Accounted p lost q)
    (hnow : now ∈ q.readings) (hle : q.lastTimer ≤ now) :
    Accounted p (lost + max 0 (now - q.lastTimer - maxTicks * p.timerPeriod))
        (q.timerPhase p now).1 ∧
      0 ≤ now - (q.timerPhase p now).1.lastTimer ∧
      now - (q.timerPhase p now).1.lastTimer < p.timerPeriod := by
  have hmark := h.mark_eq
  have hcaught : CaughtUp p.timerPeriod now q.lastTimer maxTicks _ _ :=
    caughtUp_dueTicks hle maxTicks
  have hstart : (q.timerPhase p now).1.start = q.start := (timerFrame_timerPhase q).start
  have hreadings : now ∈ (q.timerPhase p now).1.readings := by
    rw [(timerFrame_timerPhase q).readings]
    exact hnow
  have hticks : (q.timerPhase p now).1.timerTicks = _ := timerTicks_timerPhase q
  have hnext : (q.timerPhase p now).1.lastTimer = _ := lastTimer_timerPhase q
  generalize (dueTicks p.timerPeriod now q.lastTimer maxTicks).1 = ticks at *
  generalize (dueTicks p.timerPeriod now q.lastTimer maxTicks).2 = mark at *
  have hserved := hcaught.mark_eq
  rcases Nat.lt_or_eq_of_le hcaught.le_most with hlt | rfl
  · -- The mark moved by the ticks, and less than a period was left to find.
    rw [if_neg (Nat.ne_of_lt hlt)] at hnext
    rw [hcaught.overrun_of_lt hperiod hlt, hnext]
    refine ⟨⟨?_, now, hreadings, ?_⟩, sub_nonneg.mpr hcaught.mark_le, hcaught.lt_period hlt⟩
    · rw [hnext, hstart, hticks, hserved, hmark]
      push_cast
      ring
    · rw [hnext]
      exact hcaught.mark_le
  · -- The catch-up was full: the mark is the reading, and nothing is left.
    rw [if_pos rfl] at hnext
    rw [hcaught.overrun_of_full, hnext, sub_self]
    refine ⟨⟨?_, now, hreadings, ?_⟩, le_refl 0, hperiod⟩
    · rw [hnext, hstart, hticks, hserved, hmark]
      push_cast
      ring
    · rw [hnext]

/-- **One turn** up to the end of its timer phase. -/
theorem turn (hperiod : 0 < p.timerPeriod) (h : Accounted p lost r)
    (hu : r.untilTimers? o p l = some (now, q, drew))
    (hsorted : q.readings.Pairwise (· ≥ ·)) :
    Accounted p (lost + r.overrun o p) (q.timerPhase p now).1 ∧
      0 ≤ now - (q.timerPhase p now).1.lastTimer ∧
      now - (q.timerPhase p now).1.lastTimer < p.timerPeriod := by
  have hover : r.overrun o p = max 0 (now - q.lastTimer - maxTicks * p.timerPeriod) := by
    obtain ⟨hread, hframe⟩ := untilTimers?_eq_some hu
    rw [overrun, hread, hframe.lastTimer]
    rfl
  have hnow : now ∈ q.readings := by
    rw [readings_of_untilTimers? hu]
    exact List.mem_cons_self
  rw [hover]
  exact (h.untilTimers hu).timerPhase hperiod hnow (h.mark_le_now hu hsorted)

/-- **Every turn of the loop** adds its overrun to what is lost. -/
theorem loop (hperiod : 0 < p.timerPeriod) {turns : Nat} (h : Accounted p lost r)
    (hloop : r.loop o p l turns = (s, none)) (hsorted : s.readings.Pairwise (· ≥ ·)) :
    Accounted p (lost + r.lost o p l turns) s := by
  induction turns generalizing r lost with
  | zero =>
    cases hloop
    rw [Run.lost, add_zero]
    exact h
  | succ turns ih =>
    obtain ⟨t, hturn, hrest⟩ := loop_succ_eq_none hloop
    obtain ⟨now, q, drew, hu, hframe⟩ := exists_untilTimers?_of_turn hturn
    -- The readings up to here are the oldest of all the readings, so they are in order.
    have hsuffix := readings_suffix_of_loop hrest
    rw [hframe.readings, (timerFrame_timerPhase q).readings] at hsuffix
    have hstep := (h.turn hperiod hu (hsorted.sublist hsuffix.sublist)).1
    rw [Run.lost, hturn, ← add_assoc]
    exact ih (hstep.of_instructionFrame hframe) hrest

end Accounted

/-- The turns of a loop lose what it loses and the overrun of the next turn. -/
theorem lost_succ {turns : Nat} {r s : Run ℚ ε} (h : r.loop o p l turns = (s, none)) :
    r.lost o p l (turns + 1) = r.lost o p l turns + s.overrun o p := by
  induction turns generalizing r with
  | zero =>
    cases h
    rw [lost, lost, lost, add_zero, zero_add]
  | succ turns ih =>
    obtain ⟨t, hturn, hrest⟩ := loop_succ_eq_none h
    rw [lost, hturn, ih hrest, lost, hturn, add_assoc]

theorem lost_nonneg (turns : Nat) (r : Run ℚ ε) : 0 ≤ r.lost o p l turns := by
  induction turns generalizing r with
  | zero => exact le_refl 0
  | succ turns ih =>
    rw [lost]
    exact add_nonneg (le_max_left _ _) (ih _)

/-- **The account of the time since the start**, in every turn that comes to its timers:
the periods of the ticks, what was lost, and what is left for the next turn. The ticks
are as many as the whole periods since the start exactly while what was lost and what
is left make less than a period. -/
theorem timerTicks_eq_floor_iff {m : Machine} {outside : ε} {turns : Nat} {r q s : Run ℚ ε}
    {now : ℚ} {drew : Bool} {ticks : Nat} (hperiod : 0 < p.timerPeriod)
    (hloop : (begin o p m outside).loop o p l turns = (r, none))
    (hu : r.untilTimers? o p l = some (now, q, drew)) (hs : q.timerPhase p now = (s, ticks))
    (hsorted : s.readings.Pairwise (· ≥ ·)) :
    now - s.start = s.timerTicks * p.timerPeriod +
          (begin o p m outside).lost o p l (turns + 1) + (now - s.lastTimer) ∧
      0 ≤ (begin o p m outside).lost o p l (turns + 1) ∧
      0 ≤ now - s.lastTimer ∧ now - s.lastTimer < p.timerPeriod ∧
      ((s.timerTicks : ℤ) = ⌊(now - s.start) / p.timerPeriod⌋ ↔
        (begin o p m outside).lost o p l (turns + 1) + (now - s.lastTimer) <
          p.timerPeriod) := by
  obtain rfl : (q.timerPhase p now).1 = s := congrArg Prod.fst hs
  rw [(timerFrame_timerPhase q).readings] at hsorted
  have hsuffix : r.readings <:+ q.readings := by
    rw [readings_of_untilTimers? hu]
    exact List.suffix_cons now r.readings
  have hloop' := (Accounted.begin m outside).loop hperiod hloop
    (hsorted.sublist hsuffix.sublist)
  obtain ⟨haccount, hleft, hlt⟩ := hloop'.turn hperiod hu hsorted
  have hlost := lost_nonneg (o := o) (p := p) (l := l) (turns + 1) (begin o p m outside)
  rw [zero_add, ← lost_succ hloop] at haccount
  generalize (begin o p m outside).lost o p l (turns + 1) = lost at *
  generalize (q.timerPhase p now).1 = s at *
  have hmark := haccount.mark_eq
  have htime : now - s.start =
      s.timerTicks * p.timerPeriod + lost + (now - s.lastTimer) := by
    rw [hmark]
    ring
  refine ⟨htime, hlost, hleft, hlt, ?_⟩
  -- The ticks are the floor when the time past their periods lies in one period.
  rw [eq_comm, Int.floor_eq_iff, le_div_iff₀ hperiod, div_lt_iff₀ hperiod, htime]
  push_cast
  constructor
  · rintro ⟨-, hupper⟩
    linarith
  · intro hless
    constructor
    · linarith
    · linarith

/-! ## A missed tick -/

/-- Surroundings whose clock reads 0, four and a half, and then five. -/
def latecomer : Surroundings ℚ Nat where
  read n := (if n = 0 then 0 else if n = 1 then 9 / 2 else 5, n + 1)
  sleep _ n := n
  poll _ n := ([], n)
  render _ n := n

/-- A tick in every unit of time, and the other cadences at rest. -/
def ticksOnly : Plan ℚ where
  rates := ⟨.whole 1, .whole 1, .whole 1⟩
  instructionPeriod := 100
  timerPeriod := 1
  renderPeriod := 100
  idleSleep := 0

/-- A run of a machine without a program on that clock, before its first turn. -/
def lateRun : Run ℚ Nat :=
  let m : Machine :=
    { seed := 0, key := ⟨0, 0⟩, program := [], state := State.fresh ⟨0, 0⟩
      fault := none, cycles := 0 }
  begin latecomer ticksOnly m 0

/-- The first turn finds four periods and a half and makes four ticks. In the second,
half a period later, the fifth period is over without a tick. -/
theorem late_tick_missed :
    ∃ r s ticks, lateRun.loop latecomer ticksOnly {} 1 = (r, none) ∧
      r.untilTimers? latecomer ticksOnly {} = some (5, (r.readClock latecomer).2, false) ∧
      (r.readClock latecomer).2.timerPhase ticksOnly 5 = (s, ticks) ∧
      s.readings.Pairwise (· ≥ ·) ∧
      (lateRun.readClock latecomer).1 - lateRun.lastTimer < 5 * ticksOnly.timerPeriod ∧
      5 - r.lastTimer < 5 * ticksOnly.timerPeriod ∧
      (s.timerTicks : ℤ) ≠ ⌊(5 - s.start) / ticksOnly.timerPeriod⌋ := by
  have hloop : lateRun.loop latecomer ticksOnly {} 1 =
      ((lateRun.loop latecomer ticksOnly {} 1).1, none) :=
    Prod.ext rfl (Option.isNone_iff_eq_none.mp (by decide +kernel))
  have hnow : ((lateRun.loop latecomer ticksOnly {} 1).1.readClock latecomer).1 = 5 := by
    decide +kernel
  have hu := untilTimers?_of_quiet (o := latecomer) (p := ticksOnly) (l := {})
    (r := (lateRun.loop latecomer ticksOnly {} 1).1) (by decide +kernel) (by decide +kernel)
  rw [hnow] at hu
  refine ⟨_, _, _, hloop, hu, rfl, ?sorted, ?first, ?second, ?_⟩
  case sorted => decide +kernel
  case first => decide +kernel
  case second => decide +kernel
  have hperiod : 0 < ticksOnly.timerPeriod := by decide +kernel
  intro hticks
  have hless := (timerTicks_eq_floor_iff hperiod hloop hu rfl (by decide +kernel)).2.2.2.2.mp hticks
  revert hless
  decide +kernel

end ChipEight.Run
