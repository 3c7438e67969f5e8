/-
Runs with a limit come to an end.

Nothing in the loop counts turns, so what ends a run is that the clock goes on. Let every
reading of a turn be at least `d` later than the one before. Then after so many turns so many
`d` have passed, and a limit of time is reached. A limit of instructions takes an argument:
turns in which no instruction is due pass, but only while the time since the mark is less
than a period, so at most `⌈period / d⌉` turns go by for each instruction. What the argument
needs of a turn with something due is that it carries out at least one instruction, or leaves
the loop; this is where the batch size, the dropped instructions and the moves of the mark
come in, and `Turning.booked` says all of it.

A limit of no instructions, or of less than none, is met by the first turn with something due.
-/
import ChipEight.Proofs.Schedule.InstructionTime
import ChipEight.Proofs.Schedule.Pace

set_option autoImplicit false

namespace ChipEight.Run

/-! ## Leaving the loop -/

section Loop

variable {T ε : Type} [Time T] {o : Surroundings T ε} {p : Plan T} {l : Limits T}
  {r s : Run T ε} {turns : Nat}

/-- The loop is left within so many turns: it makes no more of them, however many it is
allowed, and it is over when it is allowed as many. -/
def LeftWithin (o : Surroundings T ε) (p : Plan T) (l : Limits T) (bound : Int)
    (r : Run T ε) : Prop :=
  ∀ turns : Nat, ((r.stages o p l turns).length : Int) ≤ bound ∧
    (bound ≤ turns → ∃ exit, (r.loop o p l turns).2 = some exit)

/-- A loop that is over stays as it is when it is allowed more turns. -/
theorem loop_of_loop_eq_some {exit : Exit} {more : Nat} (hle : turns ≤ more)
    (h : r.loop o p l turns = (s, some exit)) : r.loop o p l more = (s, some exit) := by
  induction turns generalizing r more with
  | zero => simp [loop] at h
  | succ turns ih =>
    obtain ⟨more, rfl⟩ := Nat.exists_eq_add_of_lt (Nat.lt_of_succ_le hle)
    rw [loop] at h ⊢
    by_cases hstopped : r.stopped = true
    · rw [if_pos hstopped] at h ⊢
      exact h
    · rw [if_neg hstopped] at h ⊢
      rcases hturn : r.turn o p l with ⟨t, _ | e⟩
      · rw [hturn] at h
        exact ih (Nat.le_add_right turns more) h
      · rw [hturn] at h
        exact h

/-- Where a loop makes more turns than some number, it goes on behind so many. -/
theorem loop_goes_on_of_lt_stages {n : Nat} (h : n < (r.stages o p l turns).length) :
    (r.loop o p l n).2 = none := by
  induction n generalizing r turns with
  | zero => rfl
  | succ n ih =>
    cases turns with
    | zero => simp [stages] at h
    | succ turns =>
      rw [stages] at h
      rw [loop]
      by_cases hstopped : r.stopped = true
      · simp [hstopped] at h
      · rw [if_neg hstopped] at h ⊢
        rcases hturn : r.turn o p l with ⟨t, _ | e⟩
        · rw [hturn, List.length_cons] at h
          exact ih (Nat.lt_of_succ_lt_succ h)
        · simp [hturn] at h

/-- A bound that every loop which goes on stays below is one within which it is left. -/
theorem leftWithin_of_lt {bound : Int}
    (h : ∀ (turns : Nat) (s : Run T ε), r.loop o p l turns = (s, none) → (turns : Int) < bound) :
    LeftWithin o p l bound r := by
  have hbelow : ∀ n : Nat, (r.loop o p l n).2 = none → (n : Int) < bound :=
    fun n hn => h n (r.loop o p l n).1 (Prod.ext rfl hn)
  intro turns
  constructor
  · by_contra hmany
    have hpos : (0 : Int) < bound := hbelow 0 rfl
    -- The loop goes on behind as many turns as the bound, which is one too many.
    have hlong : bound.toNat < (r.stages o p l turns).length := by omega
    have hlt := hbelow bound.toNat (loop_goes_on_of_lt_stages hlong)
    omega
  · intro hle
    apply Option.ne_none_iff_exists'.mp
    intro hnone
    have hlt := hbelow turns hnone
    omega

/-! ## The limit of time -/

/-- A loop that goes on has read the clock once in every turn. -/
theorem Looping.exists_times {before : List (Run T ε)} {exit : Option Exit}
    (h : Looping o p l turns r before s exit) (hexit : exit = none) :
    ∃ times, s.readings = times ++ r.readings ∧ times.length = turns := by
  induction h with
  | spent => exact ⟨[], rfl, rfl⟩
  | stopped => cases hexit
  | last => cases hexit
  | @next turns r t s before exit hgo hturn hrest ih =>
    obtain ⟨times, htimes, hlength⟩ := ih hexit
    refine ⟨times ++ [(r.readClock o).1], ?_, by simp [hlength]⟩
    rw [htimes, (turning_of_turn hturn).readings]
    simp

/-- And in its last turn the time of the run was not over. -/
theorem Looping.not_timeUp {before : List (Run T ε)} {exit : Option Exit}
    (h : Looping o p l turns r before s exit) (hexit : exit = none) (hturns : 0 < turns) {now t : T}
    (hnow : s.readings.head? = some now) (ht : l.time = some t) :
    Time.reached (Time.sub now s.start) t = false := by
  induction h with
  | spent => exact absurd hturns (Nat.lt_irrefl 0)
  | stopped => cases hexit
  | last => cases hexit
  | @next turns r q s before exit hgo hturn hrest ih =>
    cases hrest with
    | spent =>
      have hturning := turning_of_turn hturn
      rw [hturning.readings, List.head?_cons, Option.some.injEq] at hnow
      rw [hturning.start, ← hnow]
      cases hturning with
      | through hup _ _ =>
        rw [timeUp, ht] at hup
        exact hup
    | next => exact ih hexit (Nat.succ_pos _) hnow
    | stopped => cases hexit
    | last => cases hexit

end Loop

variable {ε : Type} {o : Surroundings ℚ ε} {p : Plan ℚ} {l : Limits ℚ} {d now : ℚ}
  {r s : Run ℚ ε} {turns : Nat}

/-- A run that goes on has not come to its limit of time, and its turns have each taken `d`. -/
theorem turns_lt_of_time {m : Machine} {outside : ε} {t : ℚ} (hd : 0 < d)
    (ht : l.time = some t) (hloop : (begin o p m outside).loop o p l turns = (s, none))
    (hclock : s.readings.IsChain (Apart d)) : (turns : ℤ) < max 1 ⌈t / d⌉ := by
  by_cases hturns : turns = 0
  · have hone : (1 : ℤ) ≤ max 1 ⌈t / d⌉ := le_max_left _ _
    omega
  · have hlooping := looping_of_loop hloop
    have hstart : s.start = (o.read outside).1 :=
      (hlooping.invariant (fun _ _ _ hq hturning => hturning.start.trans hq) rfl).2
    obtain ⟨times, htimes, hlength⟩ := hlooping.exists_times rfl
    have hbegin : (begin o p m outside).readings = [s.start] := by
      rw [hstart]
      rfl
    rw [hbegin] at htimes
    obtain ⟨now, hnow⟩ : ∃ now, s.readings.head? = some now := by
      rw [htimes]
      exact ⟨_, List.head?_eq_some_head (by simp)⟩
    have hintime := hlooping.not_timeUp rfl (Nat.pos_of_ne_zero hturns) hnow ht
    have hspan : s.start + turns * d ≤ now := by
      rw [htimes] at hclock hnow
      rw [← hlength]
      exact span_of_apart hclock hnow
    have hbelow : now - s.start < t := by
      apply lt_of_not_ge
      intro hle
      rw [Time.sub_eq, Time.reached_iff.mpr hle] at hintime
      cases hintime
    have hquotient : (turns : ℚ) < t / d := by
      rw [lt_div_iff₀ hd]
      linarith
    refine lt_max_of_lt_right (Int.lt_ceil.mpr ?_)
    exact_mod_cast hquotient

/-! ## The limit of instructions -/

/-- The turns so far: `⌈period / d⌉` at most for each instruction carried out, and those since
the mark, which have each taken `d` and have not made up a period. The instructions are still
short of the limit, where a limit below one counts as one. -/
structure Underway (p : Plan ℚ) (l : Limits ℚ) (d : ℚ) (turns : Nat) (now : ℚ)
    (r : Run ℚ ε) : Prop where
  lt_period : now - r.lastInstruction < p.instructionPeriod
  paid : ∃ idle : Nat, (turns : ℤ) ≤ r.instructions * ⌈p.instructionPeriod / d⌉ + idle ∧
    idle * d ≤ now - r.lastInstruction
  lt_limit : ∀ k, l.instructions = some k → (r.instructions : ℤ) < max k 1

/-- A turn that goes on is short of the limit behind it. -/
theorem Turning.lt_limit {k : ℤ} (hk : l.instructions = some k)
    (h : (r.instructions : ℤ) < max k 1) (hturn : Turning o p l r s none) :
    (s.instructions : ℤ) < max k 1 := by
  cases hturn with
  | @through q _ _ _ _ hrender hexec =>
    have htimer : TimerFrame q (q.timerPhase p (r.readClock o).1).1 := timerFrame_timerPhase q
    have hcount : (q.timerPhase p (r.readClock o).1).1.instructions = r.instructions :=
      htimer.instructions.trans hrender.frame.instructions
    cases hexec with
    | nothing =>
      rw [hcount]
      exact h
    | rested =>
      have hrest : ((q.timerPhase p (r.readClock o).1).1.rest o p).instructions =
          (q.timerPhase p (r.readClock o).1).1.instructions := by
        unfold rest
        split
        · rfl
        · rfl
      rw [hrest, hcount]
      exact h
    | goesOn _ _ _ _ hlimit => exact lt_max_of_lt_left (hlimit k hk)

namespace Underway

theorem begin (hperiod : 0 < p.instructionPeriod) (m : Machine) (outside : ε) :
    Underway p l d 0 (o.read outside).1 (Run.begin o p m outside) where
  lt_period := by
    have hmark : (o.read outside).1 - (o.read outside).1 < p.instructionPeriod := by
      rw [sub_self]
      exact hperiod
    exact hmark
  paid := by
    have hmark : ((0 : Nat) : ℚ) * d ≤ (o.read outside).1 - (o.read outside).1 := by simp
    exact ⟨0, by simp [Run.begin], hmark⟩
  lt_limit := by
    intro k _
    have hnone : ((0 : Nat) : ℤ) < max k 1 := by omega
    exact hnone

/-- The turns since the mark are fewer than it takes to make up a period. -/
theorem idle_lt {idle : Nat} (hd : 0 < d) (hidle : idle * d ≤ now - r.lastInstruction)
    (hshort : now - r.lastInstruction < p.instructionPeriod) :
    (idle : ℤ) < ⌈p.instructionPeriod / d⌉ := by
  rw [Int.lt_ceil, lt_div_iff₀ hd]
  push_cast
  linarith

/-- **One turn** more. If nothing was due it is one of those since the mark; else it has
carried out an instruction, which pays for them and for itself. -/
theorem turning (hd : 0 < d) (hperiod : 0 < p.instructionPeriod) (h : Underway p l d turns now r)
    (hapart : d ≤ (r.readClock o).1 - now) (hturn : Turning o p l r s none) :
    Underway p l d (turns + 1) (r.readClock o).1 s := by
  obtain ⟨idle, hpaid, hidle⟩ := h.paid
  have hwaited : (idle + 1) * d ≤ (r.readClock o).1 - r.lastInstruction := by linarith
  have hspan : 0 ≤ (r.readClock o).1 - r.lastInstruction :=
    (mul_nonneg (by positivity) hd.le).trans hwaited
  have hbooked := hturn.booked hperiod (sub_nonneg.mp hspan)
  obtain ⟨hleft, hshort⟩ := hbooked.left hperiod rfl
  refine ⟨hshort, ?_, fun k hk => hturn.lt_limit hk (h.lt_limit k hk)⟩
  have hdue : 0 ≤ ⌊r.found o p⌋ := Int.floor_nonneg.mpr (div_nonneg hspan hperiod.le)
  have hcount := hbooked.instructions
  rcases hdue.eq_or_lt with hnone | hsome
  · -- Nothing was due, and the mark is where it was.
    have hmark : s.lastInstruction = r.lastInstruction := by
      rcases hbooked.mark with ⟨hmany, -, -⟩ | ⟨-, -, hlast⟩
      · rw [← hnone] at hmany
        exact absurd hmany (by decide)
      · rw [hlast, ← hnone]
        simp
    have hkept : s.instructions = r.instructions := by
      rw [← hnone] at hcount
      have hzero : min 0 maxBatch = 0 := by decide
      omega
    refine ⟨idle + 1, ?_, ?_⟩
    · rw [hkept]
      push_cast
      linarith
    · rw [hmark]
      push_cast
      exact hwaited
  · -- At least one instruction was carried out, and the mark has moved.
    have hdone : (r.instructions : ℤ) + 1 ≤ s.instructions := by
      have hone : 1 ≤ min ⌊r.found o p⌋ maxBatch := le_min hsome (by decide)
      omega
    have hfew := idle_lt hd hidle h.lt_period
    have hpays : ((r.instructions : ℤ) + 1) * ⌈p.instructionPeriod / d⌉ ≤
        s.instructions * ⌈p.instructionPeriod / d⌉ :=
      mul_le_mul_of_nonneg_right hdone (by omega)
    refine ⟨0, ?_, ?_⟩
    · push_cast
      linarith
    · simpa using hleft

/-- **Every turn of a loop** that goes on. -/
theorem looping (hd : 0 < d) (hperiod : 0 < p.instructionPeriod) {done : Nat}
    {before : List (Run ℚ ε)} {exit : Option Exit} (hloop : Looping o p l turns r before s exit)
    (hexit : exit = none) (h : Underway p l d done now r) (hnow : r.readings.head? = some now)
    (hclock : s.readings.IsChain (Apart d)) :
    ∃ last, Underway p l d (done + turns) last s := by
  induction hloop generalizing done now with
  | spent => exact ⟨now, h⟩
  | stopped => cases hexit
  | last => cases hexit
  | @next turns r t s before exit hgo hturn hrest ih =>
    have hturning := turning_of_turn hturn
    have hreadings := hturning.readings
    -- The readings up to here are the oldest of all the readings, so they are apart too.
    have hapart : d ≤ (r.readClock o).1 - now := by
      have holder := hclock.suffix hrest.readings_suffix
      rw [hreadings, List.isChain_cons] at holder
      exact holder.1 now hnow
    have hhead : t.readings.head? = some (r.readClock o).1 := by
      rw [hreadings]
      rfl
    obtain ⟨last, hlast⟩ := ih hexit (h.turning hd hperiod hapart hturning) hhead hclock
    refine ⟨last, ?_⟩
    rw [← Nat.succ_add_eq_add_succ]
    exact hlast

/-- While a run goes on, its turns are fewer than the limit pays for. -/
theorem turns_lt {k : ℤ} (hd : 0 < d) (h : Underway p l d turns now r)
    (hk : l.instructions = some k) : (turns : ℤ) < max k 1 * ⌈p.instructionPeriod / d⌉ := by
  obtain ⟨idle, hpaid, hidle⟩ := h.paid
  have hfew := idle_lt hd hidle h.lt_period
  have hlimit : (r.instructions : ℤ) + 1 ≤ max k 1 := h.lt_limit k hk
  have hpays : ((r.instructions : ℤ) + 1) * ⌈p.instructionPeriod / d⌉ ≤
      max k 1 * ⌈p.instructionPeriod / d⌉ :=
    mul_le_mul_of_nonneg_right hlimit (by omega)
  linarith

end Underway

/-- **A bounded run ends.** Let the reading of every turn be at least `d` later than the reading
before it. A run with a limit of time is left within as many turns as `d` goes into that time,
rounded up, and a run with a limit of instructions within as many for each of them as `d` goes
into their period, rounded up; within one turn, or one instruction, if the limit is less. What
the machine, the frontend and the other limit do can only end it sooner. The period is above
zero, as that of every rate is that the settings accept. -/
theorem bounded_run_ends {m : Machine} {outside : ε} (hd : 0 < d)
    (hclock : ∀ turns, ((begin o p m outside).loop o p l turns).1.readings.IsChain
      fun later earlier => d ≤ later - earlier) :
    (∀ t, l.time = some t → LeftWithin o p l (max 1 ⌈t / d⌉) (begin o p m outside)) ∧
      ∀ k, l.instructions = some k → 0 < p.instructionPeriod →
        LeftWithin o p l (max k 1 * ⌈p.instructionPeriod / d⌉) (begin o p m outside) := by
  have happart : ∀ {turns s}, (begin o p m outside).loop o p l turns = (s, none) →
      s.readings.IsChain (Apart d) := by
    intro turns s hloop
    have hturns := hclock turns
    rw [hloop] at hturns
    exact hturns
  constructor
  · intro t ht
    apply leftWithin_of_lt
    intro turns s hloop
    exact turns_lt_of_time hd ht hloop (happart hloop)
  · intro k hk hperiod
    apply leftWithin_of_lt
    intro turns s hloop
    obtain ⟨last, hlast⟩ := (Underway.begin (o := o) (l := l) (d := d) hperiod m outside).looping hd
      hperiod (looping_of_loop hloop) rfl rfl (happart hloop)
    rw [Nat.zero_add] at hlast
    exact hlast.turns_lt hd hk

/-- An instruction in every five halves, and the other cadences at rest. -/
def halting : Plan ℚ where
  rates := ⟨.whole 1, .whole 1, .whole 1⟩
  instructionPeriod := 5 / 2
  timerPeriod := 100
  renderPeriod := 100
  idleSleep := 0

/-- Two instructions, each allowed three turns of the steady clock, and ten units of time. The
run takes five turns: three for the first instruction, and two for the second, for which a half
was left over. -/
theorem two_instructions_in_six_turns :
    LeftWithin steady halting { instructions := some 2, time := some 10 } 10
        (begin steady halting .circling 0) ∧
      LeftWithin steady halting { instructions := some 2, time := some 10 } 6
        (begin steady halting .circling 0) := by
  have hover : ∃ s exit, (begin steady halting .circling 0).loop steady halting
      { instructions := some 2, time := some 10 } 5 = (s, some exit) := by
    have hsome : ((begin steady halting .circling 0).loop steady halting
        { instructions := some 2, time := some 10 } 5).2.isSome = true := by decide +kernel
    obtain ⟨exit, hexit⟩ := Option.isSome_iff_exists.mp hsome
    exact ⟨_, exit, Prod.ext rfl hexit⟩
  have hclock : ∀ turns, ((begin steady halting .circling 0).loop steady halting
      { instructions := some 2, time := some 10 } turns).1.readings.IsChain
        fun later earlier => (1 : ℚ) ≤ later - earlier := by
    have hfirst : ∀ turns < 6, ((begin steady halting .circling 0).loop steady halting
        { instructions := some 2, time := some 10 } turns).1.readings.IsChain
          fun later earlier => (1 : ℚ) ≤ later - earlier := by decide +kernel
    intro turns
    by_cases hturns : turns < 6
    · exact hfirst turns hturns
    · obtain ⟨s, exit, hloop⟩ := hover
      have hfive := hfirst 5 (by omega)
      rw [hloop] at hfive
      rw [loop_of_loop_eq_some (by omega) hloop]
      exact hfive
  obtain ⟨htime, hinstructions⟩ := bounded_run_ends (by norm_num) hclock
  have hten : max 1 ⌈(10 : ℚ) / 1⌉ = 10 := by decide +kernel
  have hsix : max 2 1 * ⌈halting.instructionPeriod / 1⌉ = 6 := by decide +kernel
  rw [← hten, ← hsix]
  exact ⟨htime 10 rfl, hinstructions 2 rfl (by decide +kernel)⟩

end ChipEight.Run
