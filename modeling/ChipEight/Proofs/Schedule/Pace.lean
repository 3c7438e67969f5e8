/-
No cadence runs ahead of the clock.

After a stall a turn has more to do than it may, and then it forgets a part of the time or
moves a mark to the reading. Forgetting only makes a cadence slower. What could make it
faster is a mark that is left behind: the next turns would find the same time again. So
each cadence is followed by its mark. The mark of the timers lies past the start by at
least the periods of the ticks, and the mark of the polls is the reading of the last poll;
neither is ever later than the latest reading.

A poll has no entry of its own in time, it belongs to the reading before it. `pollTimes`
takes these readings from the trace, and that they keep their distance is what one poll
more has to show: it is made at a reading that is a period past the mark.
-/
import ChipEight.Proofs.Schedule.Report
import ChipEight.Proofs.Schedule.TimerCadence
import Mathlib.Data.List.Chain

set_option autoImplicit false

namespace ChipEight

variable {T ε : Type}

/-- The readings at which polls were made, the latest first, from a trace with the latest
deed first. -/
def pollTimes : List (Deed T) → List T
  | [] => []
  | .poll :: before => (before.filterMap Deed.reading?).head?.toList ++ pollTimes before
  | _ :: before => pollTimes before

/-- Deeds of which none is a poll add no time of a poll. -/
theorem pollTimes_append {deeds : List (Deed T)} (h : ∀ d ∈ deeds, d.isPoll = false)
    (before : List (Deed T)) : pollTimes (deeds ++ before) = pollTimes before := by
  induction deeds with
  | nil => rfl
  | cons d deeds ih =>
    obtain ⟨hd, hdeeds⟩ := List.forall_mem_cons.mp h
    cases d with
    | poll => simp [Deed.isPoll] at hd
    | _ => exact ih hdeeds

/-- Behind a reading every poll has its time. -/
theorem length_pollTimes {before : List (Deed T)} (hread : before.filterMap Deed.reading? ≠ [])
    (hpolls : (pollTimes before).length = before.countP Deed.isPoll) (deeds : List (Deed T)) :
    (pollTimes (deeds ++ before)).length = (deeds ++ before).countP Deed.isPoll := by
  induction deeds with
  | nil => exact hpolls
  | cons d deeds ih =>
    cases d with
    | poll =>
      have hsome : (deeds ++ before).filterMap Deed.reading? ≠ [] := by
        simp [List.filterMap_append, hread]
      obtain ⟨t, rest, htimes⟩ := List.exists_cons_of_ne_nil hsome
      rw [List.cons_append, List.countP_cons_of_pos rfl, ← ih]
      simp [pollTimes, htimes]
    | _ => simpa [pollTimes, Deed.isPoll] using ih

namespace Run

variable {r s : Run T ε}

/-- The readings at which the run polled, the latest first. -/
def pollTimes (r : Run T ε) : List T := ChipEight.pollTimes r.trace

theorem pollTimes_log (r : Run T ε) {deeds : List (Deed T)} (h : ∀ d ∈ deeds, d.isPoll = false) :
    (r.log deeds).pollTimes = r.pollTimes := by
  rw [pollTimes, trace_log]
  refine pollTimes_append ?_ r.trace
  intro d hd
  exact h d (List.mem_reverse.mp hd)

theorem pollTimes_batched (r : Run T ε) (size : Int) (n : Machine) (done : Nat)
    (fault : Option Fault) (notices : List Notice) :
    (r.batched size n done fault notices).pollTimes = r.pollTimes := by
  refine pollTimes_log { r with machine := n, instructions := r.instructions + done } ?_
  intro d hd
  rcases List.mem_cons.mp hd with rfl | hd
  · rfl
  · obtain ⟨x, -, rfl⟩ := List.mem_map.mp hd
    rfl

theorem Completed.pollTimes {size : Int} (h : Completed size r s) : s.pollTimes = r.pollTimes := by
  obtain ⟨-⟩ := h
  exact pollTimes_batched _ _ _ _ _ _

variable [Time T] {o : Surroundings T ε} {p : Plan T} {l : Limits T} {now : T}
  {exit : Option Exit}

theorem Settled.pollTimes {due size : Int} (h : Settled p now due size r s) :
    s.pollTimes = r.pollTimes := by
  cases h with
  | dropped =>
    unfold warned
    split
    · rfl
    · rfl
  | advanced => rfl

/-- The instruction phase makes no poll. -/
theorem Executing.pollTimes {busy : Bool} (h : Executing o p l now busy r s exit) :
    s.pollTimes = r.pollTimes := by
  cases h with
  | uncounted | nothing => rfl
  | rested =>
    unfold rest
    split
    · rfl
    · rfl
  | fault => exact pollTimes_batched _ _ _ _ _ _
  | unsettled _ _ hbatch _ => exact hbatch.pollTimes
  | limit _ _ hbatch hsettled _ _ | goesOn _ _ hbatch hsettled _ =>
    exact hsettled.pollTimes.trans hbatch.pollTimes

/-- Nor does the timer phase. -/
theorem pollTimes_timerPhase (r : Run T ε) : (r.timerPhase p now).1.pollTimes = r.pollTimes := by
  unfold timerPhase
  dsimp only
  refine (pollTimes_log { r with .. } ?_).trans rfl
  intro d hd
  rw [List.eq_of_mem_replicate hd]
  rfl

/-- The render phase makes a poll, at the reading and a period past the mark, and moves the
mark there; or it makes none and leaves the mark alone. -/
theorem Rendering.pollTimes {drew : Bool} (h : Rendering o p now r s drew exit)
    (hnow : r.readings.head? = some now) :
    (s.pollTimes = r.pollTimes ∧ s.lastRender = r.lastRender) ∨
      (r.pollDue p now = true ∧ s.pollTimes = now :: r.pollTimes ∧ s.lastRender = now) := by
  have hpolled : (r.polled o now).pollTimes = now :: r.pollTimes := by
    have htimes : (r.polled o now).pollTimes = r.readings.head?.toList ++ r.pollTimes := rfl
    rw [htimes, hnow]
    rfl
  cases h with
  | early => exact .inl ⟨rfl, rfl⟩
  | failed hdue | unchanged hdue => exact .inr ⟨hdue, hpolled, rfl⟩
  | quit hdue | drawn hdue => exact .inr ⟨hdue, hpolled, rfl⟩

/-! ## What one turn may do -/

theorem dueTicks_le (period last : T) (most : Nat) :
    (dueTicks period now last most).1 ≤ most := by
  induction most generalizing last with
  | zero => exact Nat.le_refl 0
  | succ most ih =>
    rw [dueTicks]
    split
    · exact Nat.succ_le_succ (ih _)
    · exact Nat.zero_le _

/-- A batch is no longer than sixty-four instructions, whether or not it faults. -/
theorem Executing.instructions_le {busy : Bool} (h : Executing o p l now busy r s exit) :
    s.instructions ≤ r.instructions + maxBatch.toNat := by
  have hbatch : ∀ {due : Int} {q : Run T ε}, Completed (r.share l due) r q →
      q.instructions ≤ r.instructions + maxBatch.toNat := by
    rintro due q ⟨-⟩
    have hshare := share_le_maxBatch l due r
    exact Nat.add_le_add_left (Int.toNat_le_toNat hshare) _
  cases h with
  | uncounted | nothing => exact Nat.le_add_right _ _
  | rested =>
    unfold rest
    split
    · exact Nat.le_add_right _ _
    · exact Nat.le_add_right _ _
  | @fault due n done f notices _ _ hsteps =>
    have hdone := (Machine.batched_of_steps hsteps).done_le
    have hshare := share_le_maxBatch l due r
    exact Nat.add_le_add_left (hdone.trans (Int.toNat_le_toNat hshare)) _
  | unsettled _ _ hdone _ => exact hbatch hdone
  | limit _ _ hdone hsettled _ _ | goesOn _ _ hdone hsettled _ =>
    rw [hsettled.instructions]
    exact hbatch hdone

/-- The start of a run is never moved. -/
theorem Turning.start (h : Turning o p l r s exit) : s.start = r.start := by
  cases h with
  | timeUp => rfl
  | left _ hrender => exact hrender.frame.start
  | @through q _ _ _ _ hrender hexec =>
    have htimer : TimerFrame q (q.timerPhase p (r.readClock o).1).1 := timerFrame_timerPhase q
    exact (hexec.frame.start.trans htimer.start).trans hrender.frame.start

/-- **One turn** makes at most four ticks and sixty-four instructions, whatever the clock
reads. -/
theorem Turning.counts_le (h : Turning o p l r s exit) :
    s.timerTicks ≤ r.timerTicks + maxTicks ∧
      s.instructions ≤ r.instructions + maxBatch.toNat := by
  cases h with
  | timeUp => exact ⟨Nat.le_add_right _ _, Nat.le_add_right _ _⟩
  | left _ hrender =>
    rw [hrender.frame.timerTicks, hrender.frame.instructions]
    exact ⟨Nat.le_add_right _ _, Nat.le_add_right _ _⟩
  | @through q _ _ _ _ hrender hexec =>
    have htimer : TimerFrame q (q.timerPhase p (r.readClock o).1).1 := timerFrame_timerPhase q
    have hbatch := hexec.instructions_le
    rw [htimer.instructions, hrender.frame.instructions] at hbatch
    refine ⟨?_, hbatch⟩
    rw [hexec.frame.timerTicks, timerTicks_timerPhase, hrender.frame.timerTicks]
    exact Nat.add_le_add_left (dueTicks_le _ _ _) _

/-- The counts are true before the turn and behind it, so what they grow by was done. -/
theorem Turning.done_le {cycles : Nat} (h : Turning o p l r s exit) (hr : Counted l cycles r) :
    s.trace.countP Deed.isTick ≤ r.trace.countP Deed.isTick + maxTicks ∧
      s.machine.cycles ≤ r.machine.cycles + maxBatch.toNat := by
  have hs := hr.turning h
  obtain ⟨hticks, hinstructions⟩ := h.counts_le
  rw [← hs.timerTicks, ← hr.timerTicks, hs.cycles, hr.cycles, Nat.add_assoc]
  exact ⟨hticks, Nat.add_le_add_left hinstructions _⟩

end Run

/-! ## Marks that are not left behind -/

namespace Run

variable {o : Surroundings ℚ ε} {p : Plan ℚ} {l : Limits ℚ} {now : ℚ} {r s : Run ℚ ε}
  {exit : Option Exit}

/-- The later of two readings is at least so far from the earlier one. -/
def Apart (period later earlier : ℚ) : Prop := period ≤ later - earlier

/-- Times that keep a distance span it as often as they are. -/
theorem span_of_apart {period start last : ℚ} {times : List ℚ}
    (hapart : (times ++ [start]).IsChain (Apart period))
    (hlast : (times ++ [start]).head? = some last) : start + times.length * period ≤ last := by
  induction times generalizing last with
  | nil =>
    obtain rfl : start = last := by simpa using hlast
    simp
  | cons t times ih =>
    obtain rfl : t = last := by simpa using hlast
    rw [List.cons_append, List.isChain_cons] at hapart
    obtain ⟨hfirst, hrest⟩ := hapart
    obtain ⟨before, hbefore⟩ : ∃ before, (times ++ [start]).head? = some before :=
      ⟨_, List.head?_eq_some_head (by simp)⟩
    have hspan := ih hrest hbefore
    have hstep : period ≤ t - before := hfirst before (Option.mem_def.mpr hbefore)
    rw [List.length_cons]
    push_cast
    linarith

/-- The marks of the timers and of the polls are where they belong: past the start by at
least the periods of the ticks, and at the last poll. The polls, and the first of them and
the start, are a period apart. -/
structure Paced (p : Plan ℚ) (r : Run ℚ ε) : Prop where
  timers : ∃ lost, 0 ≤ lost ∧ Accounted p lost r
  apart : (r.pollTimes ++ [r.start]).IsChain (Apart p.renderPeriod)
  last : (r.pollTimes ++ [r.start]).head? = some r.lastRender
  seen : ∃ t ∈ r.readings, r.lastRender ≤ t

namespace Paced

theorem begin (m : Machine) (outside : ε) : Paced p (Run.begin o p m outside) where
  timers := ⟨0, le_refl 0, .begin m outside⟩
  apart := .singleton _
  last := rfl
  seen := ⟨_, List.mem_singleton_self _, le_refl _⟩

/-- Where nothing was polled, the polls and their mark are as they were. -/
theorem of_unpolled (h : Paced p r) (htimers : ∃ lost, 0 ≤ lost ∧ Accounted p lost s)
    (htimes : s.pollTimes = r.pollTimes) (hmark : s.lastRender = r.lastRender)
    (hstart : s.start = r.start) (hreadings : s.readings = r.readings) : Paced p s := by
  refine ⟨htimers, ?_, ?_, ?_⟩
  · rw [htimes, hstart]
    exact h.apart
  · rw [htimes, hstart, hmark]
    exact h.last
  · rw [hreadings, hmark]
    exact h.seen

/-- A reading moves no mark. -/
theorem readClock (h : Paced p r) : Paced p (r.readClock o).2 := by
  obtain ⟨lost, hlost, haccount⟩ := h.timers
  obtain ⟨t, ht, hle⟩ := h.seen
  exact ⟨⟨lost, hlost, haccount.readClock⟩, h.apart, h.last, t, List.mem_cons_of_mem _ ht, hle⟩

/-- **A poll** is a period past the mark, and becomes the mark. -/
theorem rendering {drew : Bool} (h : Paced p r) (hnow : r.readings.head? = some now)
    (hrender : Rendering o p now r s drew exit) : Paced p s := by
  obtain ⟨lost, hlost, haccount⟩ := h.timers
  have hframe := hrender.frame
  have htimers : ∃ lost, 0 ≤ lost ∧ Accounted p lost s :=
    ⟨lost, hlost, haccount.of_renderFrame hframe⟩
  rcases hrender.pollTimes hnow with ⟨htimes, hmark⟩ | ⟨hdue, htimes, hmark⟩
  · exact h.of_unpolled htimers htimes hmark hframe.start hframe.readings
  · refine ⟨htimers, ?_, ?_, now, ?_, hmark.le⟩
    · rw [htimes, hframe.start, List.cons_append, List.isChain_cons]
      refine ⟨?_, h.apart⟩
      -- The time behind the new poll is the mark, and the poll was due.
      intro before hbefore
      rw [h.last] at hbefore
      cases hbefore
      exact Time.reached_iff.mp hdue
    · rw [htimes, hmark]
      rfl
    · rw [hframe.readings]
      exact List.mem_of_mem_head? hnow

/-- **The timer phase** moves its mark by the periods of its ticks, or further. -/
theorem timerPhase (hperiod : 0 < p.timerPeriod) (h : Paced p r) (hnow : now ∈ r.readings)
    (hlatest : ∀ t ∈ r.readings, t ≤ now) : Paced p (r.timerPhase p now).1 := by
  obtain ⟨lost, hlost, haccount⟩ := h.timers
  obtain ⟨t, ht, hle⟩ := haccount.mark_le
  have hframe : TimerFrame r (r.timerPhase p now).1 := timerFrame_timerPhase r
  have hserved := (haccount.timerPhase hperiod hnow (hle.trans (hlatest t ht))).1
  have hlost' := add_nonneg hlost (le_max_left 0 (now - r.lastTimer - maxTicks * p.timerPeriod))
  exact h.of_unpolled ⟨_, hlost', hserved⟩ (pollTimes_timerPhase r) hframe.lastRender
    hframe.start hframe.readings

theorem executing {busy : Bool} (h : Paced p r) (hexec : Executing o p l now busy r s exit) :
    Paced p s := by
  obtain ⟨lost, hlost, haccount⟩ := h.timers
  have hframe := hexec.frame
  exact h.of_unpolled ⟨lost, hlost, haccount.of_instructionFrame hframe⟩ hexec.pollTimes
    hframe.lastRender hframe.start hframe.readings

/-- **Every turn** whose reading is the latest keeps the marks, whether or not it ends the
run. -/
theorem turning (hperiod : 0 < p.timerPeriod) (h : Paced p r) (hturn : Turning o p l r s exit)
    (hsorted : s.readings.Pairwise (· ≥ ·)) : Paced p s := by
  have hread : Paced p (r.readClock o).2 := h.readClock
  have hhead : (r.readClock o).2.readings.head? = some (r.readClock o).1 := rfl
  cases hturn with
  | timeUp => exact hread
  | left _ hrender => exact hread.rendering hhead hrender
  | @through q _ _ _ _ hrender hexec =>
    have hrendered := hread.rendering hhead hrender
    have hreadings : q.readings = (r.readClock o).1 :: r.readings := hrender.frame.readings
    rw [hexec.frame.readings, (timerFrame_timerPhase q).readings, hreadings,
      List.pairwise_cons] at hsorted
    refine (hrendered.timerPhase hperiod ?_ ?_).executing hexec
    · rw [hreadings]
      exact List.mem_cons_self
    · intro t ht
      rw [hreadings, List.mem_cons] at ht
      rcases ht with rfl | ht
      · exact le_refl _
      · exact hsorted.1 t ht

/-- **Every loop** keeps the marks, under a clock that does not go back. -/
theorem looping (hperiod : 0 < p.timerPeriod) {turns : Nat} {before : List (Run ℚ ε)}
    (h : Paced p r) (hloop : Looping o p l turns r before s exit)
    (hsorted : s.readings.Pairwise (· ≥ ·)) : Paced p s := by
  -- The readings are in order from the end back to the beginning, so a turn that is known
  -- to leave them in order has also found them so.
  have hturn : ∀ q t exit, (q.readings.Pairwise (· ≥ ·) → Paced p q) → Turning o p l q t exit →
      t.readings.Pairwise (· ≥ ·) → Paced p t := by
    intro q t exit hq hturning hreadings
    have hbefore : q.readings.Pairwise (· ≥ ·) := by
      rw [hturning.readings] at hreadings
      exact hreadings.of_cons
    exact (hq hbefore).turning hperiod hturning hreadings
  exact (hloop.invariant hturn fun _ => h).2 hsorted

end Paced

/-- Where a mark is so many periods past the start and no later than some reading, at least
so many whole periods have passed at the latest reading. -/
theorem le_floor_of_mark {period start mark : ℚ} {count : Nat} {readings : List ℚ}
    (hperiod : 0 < period) (hmark : start + count * period ≤ mark)
    (hseen : ∃ t ∈ readings, mark ≤ t) (hnow : readings.head? = some now)
    (hsorted : readings.Pairwise (· ≥ ·)) : (count : ℤ) ≤ ⌊(now - start) / period⌋ := by
  obtain ⟨t, ht, hle⟩ := hseen
  have hlatest : t ≤ now := by
    obtain ⟨rest, rfl⟩ := List.head?_eq_some_iff.mp hnow
    rcases List.mem_cons.mp ht with rfl | ht
    · exact le_refl _
    · exact (List.pairwise_cons.mp hsorted).1 t ht
  rw [Int.le_floor, le_div_iff₀ hperiod]
  push_cast
  linarith

/-- **No cadence runs ahead of the clock.** Behind every turn of a run, also behind one that
ends it, the ticks are no more than the whole periods since the start, and so are the polls.
Two polls in a row are at least a period apart. And in every turn at most four ticks are made
and at most sixty-four instructions carried out, however long the clock stood still or
leapt before it. -/
theorem cadences_never_ahead {m : Machine} {outside : ε} {turns : Nat}
    (htimers : 0 < p.timerPeriod) (hrenders : 0 < p.renderPeriod)
    (hloop : (begin o p m outside).loop o p l turns = (r, exit))
    (hnow : r.readings.head? = some now) (hsorted : r.readings.Pairwise (· ≥ ·)) :
    r.start = (o.read outside).1 ∧
      (r.timerTicks : ℤ) ≤ ⌊(now - r.start) / p.timerPeriod⌋ ∧
      (r.trace.countP Deed.isPoll : ℤ) ≤ ⌊(now - r.start) / p.renderPeriod⌋ ∧
      r.pollTimes.length = r.trace.countP Deed.isPoll ∧
      r.pollTimes.IsChain (fun later earlier => p.renderPeriod ≤ later - earlier) ∧
      ∀ q ∈ (begin o p m outside).stages o p l turns, ∀ s e, q.turn o p l = (s, e) →
        s.timerTicks ≤ q.timerTicks + 4 ∧
        s.trace.countP Deed.isTick ≤ q.trace.countP Deed.isTick + 4 ∧
        s.instructions ≤ q.instructions + 64 ∧
        s.machine.cycles ≤ q.machine.cycles + 64 := by
  have hlooping := looping_of_loop hloop
  have hpaced := (Paced.begin m outside).looping htimers hlooping hsorted
  have hpolls : r.pollTimes.length = r.trace.countP Deed.isPoll := by
    obtain ⟨deeds, htrace⟩ := hlooping.trace_suffix
    rw [pollTimes, ← htrace]
    exact length_pollTimes (by simp [Run.begin, Deed.reading?]) rfl deeds
  have hstart : ∀ t u e, t.start = (o.read outside).1 → Turning o p l t u e →
      u.start = (o.read outside).1 := by
    intro t u e ht hturning
    exact hturning.start.trans ht
  have hcounted : ∀ t u e, Counted l m.cycles t → Turning o p l t u e → Counted l m.cycles u := by
    intro t u e ht hturning
    exact ht.turning hturning
  refine ⟨(hlooping.invariant hstart rfl).2, ?_, ?_, hpolls, hpaced.apart.left_of_append, ?_⟩
  · obtain ⟨lost, hlost, haccount⟩ := hpaced.timers
    have hmark := haccount.mark_eq
    exact le_floor_of_mark htimers (by linarith) haccount.mark_le hnow hsorted
  · rw [← hpolls]
    exact le_floor_of_mark hrenders (span_of_apart hpaced.apart hpaced.last) hpaced.seen hnow
      hsorted
  · intro q hq s e hturn
    have hturning := turning_of_turn hturn
    obtain ⟨hticks, hinstructions⟩ := hturning.counts_le
    obtain ⟨hticked, hcycles⟩ :=
      hturning.done_le ((hlooping.invariant hcounted (.begin m outside)).1 q hq)
    exact ⟨hticks, hticked, hinstructions, hcycles⟩

/-- Surroundings whose clock stalls, and then goes on: it reads 0, sixty-six and a half, 67
and from then on 70. -/
def resuming : Surroundings ℚ Nat where
  read n := (if n = 0 then 0 else if n = 1 then 133 / 2 else if n = 2 then 67 else 70, n + 1)
  sleep _ n := n
  poll _ n := ([], n)
  render _ n := n

/-- An instruction in every unit of time, a tick in every two and a poll in every three. -/
def threeCadences : Plan ℚ where
  rates := ⟨.whole 1, .whole 1, .whole 1⟩
  instructionPeriod := 1
  timerPeriod := 2
  renderPeriod := 3
  idleSleep := 0

/-- A run of the circling machine on that clock, behind three turns. -/
def resumed : Run ℚ Nat :=
  ((begin resuming threeCadences .circling 0).loop resuming threeCadences {} 3).1

theorem resumed_account : resumed.readings = [70, 67, 133 / 2, 0] ∧ resumed.start = 0 ∧
    resumed.timerTicks = 5 ∧ resumed.pollTimes = [70, 133 / 2] := by
  decide +kernel

/-- The stall is not made up for: the turn behind it makes four ticks of thirty-three and one
poll of twenty-two, and the next tick and the next poll are again those of their periods. -/
theorem stall_not_made_up_for :
    (begin resuming threeCadences .circling 0).loop resuming threeCadences {} 3 =
        (resumed, none) ∧
      ((5 : Nat) : ℤ) ≤ ⌊((70 : ℚ) - 0) / threeCadences.timerPeriod⌋ ∧
      ((2 : Nat) : ℤ) ≤ ⌊((70 : ℚ) - 0) / threeCadences.renderPeriod⌋ ∧
      ([70, 133 / 2] : List ℚ).IsChain
        (fun later earlier => threeCadences.renderPeriod ≤ later - earlier) := by
  obtain ⟨hreadings, hstart, hticks, hpolls⟩ := resumed_account
  have hloop : (begin resuming threeCadences .circling 0).loop resuming threeCadences {} 3 =
      (resumed, none) :=
    Prod.ext rfl (Option.isNone_iff_eq_none.mp (by decide +kernel))
  have hnow : resumed.readings.head? = some 70 := by
    rw [hreadings]
    rfl
  have hsorted : resumed.readings.Pairwise (· ≥ ·) := by
    rw [hreadings]
    decide +kernel
  obtain ⟨-, htimers, hrenders, hcount, hapart, -⟩ :=
    cadences_never_ahead (by decide +kernel) (by decide +kernel) hloop hnow hsorted
  rw [← hcount, hpolls, hstart] at hrenders
  rw [hticks, hstart] at htimers
  rw [hpolls] at hapart
  exact ⟨hloop, htimers, hrenders, hapart⟩

end Run
end ChipEight
