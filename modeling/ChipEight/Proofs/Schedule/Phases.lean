/-
What each phase of a turn leaves alone.

A cadence is computed from a few fields of the run: where it started, the mark of
the cadence, its count, and the readings of the clock. No phase but its own moves the
mark of a cadence, and only the start of a turn reads the clock. These facts are
stated once for each phase, and the cadences are then followed turn by turn without
a look into the other phases.

The readings are those in the trace of the run, so a statement about them is about
what the run itself has seen of the clock.
-/
import ChipEight.Proofs.Schedule.Outcomes

set_option autoImplicit false

namespace ChipEight

variable {T ε : Type}

/-- The reading of the clock, if the deed is one. -/
def Deed.reading? : Deed T → Option T
  | .read now => some now
  | _ => none

namespace Run

/-- The readings of the clock so far, the latest first. -/
def readings (r : Run T ε) : List T := r.trace.filterMap Deed.reading?

/-! ## The trace -/

theorem trace_log (r : Run T ε) (deeds : List (Deed T)) :
    (r.log deeds).trace = deeds.reverse ++ r.trace := by
  rw [log]
  exact List.foldl_flip_cons_eq_append'

/-- A batch stands in front of what it reports. -/
theorem trace_batched (r : Run T ε) (size : Int) (n : Machine) (done : Nat)
    (fault : Option Fault) (notices : List Notice) :
    (r.batched size n done fault notices).trace =
      notices.reverse.map .report ++ .batch size done fault :: r.trace := by
  rw [batched, trace_log, List.reverse_cons, List.append_assoc, List.map_reverse]
  rfl

theorem trace_suffix_log (r : Run T ε) (deeds : List (Deed T)) :
    r.trace <:+ (r.log deeds).trace := by
  rw [trace_log]
  exact List.suffix_append _ _

/-- Deeds of which none is a reading add no reading. -/
theorem readings_log {r : Run T ε} {deeds : List (Deed T)}
    (h : ∀ d ∈ deeds, d.reading? = none) : (r.log deeds).readings = r.readings := by
  have hnone : deeds.reverse.filterMap Deed.reading? = [] := by
    rw [List.filterMap_eq_nil_iff]
    intro d hd
    exact h d (List.mem_reverse.mp hd)
  rw [readings, trace_log, List.filterMap_append, hnone, List.nil_append, readings]

/-! ## The phases -/

/-- What the render phase leaves alone. -/
structure RenderFrame (r s : Run T ε) : Prop where
  start : s.start = r.start
  lastTimer : s.lastTimer = r.lastTimer
  lastInstruction : s.lastInstruction = r.lastInstruction
  instructions : s.instructions = r.instructions
  timerTicks : s.timerTicks = r.timerTicks
  dropped : s.dropped = r.dropped
  readings : s.readings = r.readings

/-- What the timer phase leaves alone. -/
structure TimerFrame (r s : Run T ε) : Prop where
  start : s.start = r.start
  lastInstruction : s.lastInstruction = r.lastInstruction
  lastRender : s.lastRender = r.lastRender
  instructions : s.instructions = r.instructions
  frames : s.frames = r.frames
  dropped : s.dropped = r.dropped
  stopped : s.stopped = r.stopped
  readings : s.readings = r.readings

/-- What the instruction phase leaves alone. -/
structure InstructionFrame (r s : Run T ε) : Prop where
  start : s.start = r.start
  lastTimer : s.lastTimer = r.lastTimer
  lastRender : s.lastRender = r.lastRender
  timerTicks : s.timerTicks = r.timerTicks
  frames : s.frames = r.frames
  stopped : s.stopped = r.stopped
  readings : s.readings = r.readings

namespace InstructionFrame

variable {r s t : Run T ε}

theorem refl (r : Run T ε) : InstructionFrame r r := ⟨rfl, rfl, rfl, rfl, rfl, rfl, rfl⟩

theorem trans (hrs : InstructionFrame r s) (hst : InstructionFrame s t) : InstructionFrame r t :=
  ⟨hst.start.trans hrs.start, hst.lastTimer.trans hrs.lastTimer,
    hst.lastRender.trans hrs.lastRender, hst.timerTicks.trans hrs.timerTicks,
    hst.frames.trans hrs.frames, hst.stopped.trans hrs.stopped, hst.readings.trans hrs.readings⟩

end InstructionFrame

variable {o : Surroundings T ε} {p : Plan T} {l : Limits T} {now : T}

theorem InstructionFrame.batched (r : Run T ε) (size : Int) (n : Machine) (done : Nat)
    (fault : Option Fault) (notices : List Notice) :
    InstructionFrame r (r.batched size n done fault notices) := by
  refine ⟨rfl, rfl, rfl, rfl, rfl, rfl, readings_log ?_⟩
  intro d hd
  rcases List.mem_cons.mp hd with rfl | hd
  · rfl
  · obtain ⟨n, -, rfl⟩ := List.mem_map.mp hd
    rfl

theorem InstructionFrame.warned (r : Run T ε) (rest : Int) :
    InstructionFrame r (r.warned p rest) := by
  unfold Run.warned
  split
  · exact ⟨rfl, rfl, rfl, rfl, rfl, rfl, rfl⟩
  · exact .refl r

theorem Completed.frame {size : Int} {r s : Run T ε} (h : Completed size r s) :
    InstructionFrame r s := by
  obtain ⟨-⟩ := h
  exact .batched _ _ _ _ _ _

variable [Time T]

theorem Rendering.frame {r s : Run T ε} {drew : Bool} {exit : Option Exit}
    (h : Rendering o p now r s drew exit) : RenderFrame r s := by
  cases h with
  | _ => exact ⟨rfl, rfl, rfl, rfl, rfl, rfl, rfl⟩

theorem renderFrame_renderPhase (r : Run T ε) : RenderFrame r (r.renderPhase o p now).1 :=
  (rendering_renderPhase o p now r).frame

theorem timerFrame_timerPhase (r : Run T ε) : TimerFrame r (r.timerPhase p now).1 := by
  refine ⟨rfl, rfl, rfl, rfl, rfl, rfl, rfl, ?_⟩
  unfold timerPhase
  apply readings_log
  intro d hd
  rw [List.eq_of_mem_replicate hd]
  rfl

/-- A full catch-up moves the mark of the timers to the reading. -/
theorem lastTimer_timerPhase (r : Run T ε) :
    (r.timerPhase p now).1.lastTimer =
      if (dueTicks p.timerPeriod now r.lastTimer maxTicks).1 = maxTicks then now
      else (dueTicks p.timerPeriod now r.lastTimer maxTicks).2 := rfl

theorem timerTicks_timerPhase (r : Run T ε) :
    (r.timerPhase p now).1.timerTicks =
      r.timerTicks + (dueTicks p.timerPeriod now r.lastTimer maxTicks).1 := rfl

theorem Settled.frame {due size : Int} {r s : Run T ε} (h : Settled p now due size r s) :
    InstructionFrame r s := by
  cases h with
  | dropped =>
    have hwarned := InstructionFrame.warned (p := p) r (due - size)
    exact hwarned.trans ⟨rfl, rfl, rfl, rfl, rfl, rfl, rfl⟩
  | advanced => exact ⟨rfl, rfl, rfl, rfl, rfl, rfl, rfl⟩

theorem Executing.frame {r s : Run T ε} {busy : Bool} {exit : Option Exit}
    (h : Executing o p l now busy r s exit) : InstructionFrame r s := by
  cases h with
  | uncounted => exact .refl r
  | nothing => exact .refl r
  | rested =>
    unfold rest
    split
    · exact ⟨rfl, rfl, rfl, rfl, rfl, rfl, rfl⟩
    · exact .refl r
  | fault => exact .batched _ _ _ _ _ _
  | unsettled _ _ hbatch _ => exact hbatch.frame
  | limit _ _ hbatch hsettled _ _ => exact hbatch.frame.trans hsettled.frame
  | goesOn _ _ hbatch hsettled _ => exact hbatch.frame.trans hsettled.frame

theorem instructionFrame_instructionPhase (r : Run T ε) (busy : Bool) :
    InstructionFrame r (r.instructionPhase o p l now busy).1 :=
  (executing_instructionPhase busy r).frame

/-! ## The trace only grows -/

theorem Rendering.trace_suffix {r s : Run T ε} {drew : Bool} {exit : Option Exit}
    (h : Rendering o p now r s drew exit) : r.trace <:+ s.trace := by
  cases h with
  | early => exact List.suffix_rfl
  | failed | unchanged => exact trace_suffix_log _ _
  | quit | drawn =>
    have hpolled : r.trace <:+ (r.polled o now).trace := trace_suffix_log _ _
    exact hpolled.trans (trace_suffix_log _ _)

theorem Settled.trace_suffix {due size : Int} {r s : Run T ε}
    (h : Settled p now due size r s) : r.trace <:+ s.trace := by
  cases h with
  | dropped =>
    obtain ⟨deeds, hwarned⟩ := warned_eq_log (p := p) r (due - size)
    rw [hwarned]
    exact r.trace_suffix_log deeds
  | advanced => exact List.suffix_rfl

theorem Executing.trace_suffix {r s : Run T ε} {busy : Bool} {exit : Option Exit}
    (h : Executing o p l now busy r s exit) : r.trace <:+ s.trace := by
  cases h with
  | uncounted | nothing => exact List.suffix_rfl
  | rested =>
    unfold rest
    split
    · exact trace_suffix_log _ _
    · exact List.suffix_rfl
  | fault => exact trace_suffix_log _ _
  | unsettled _ _ hbatch _ =>
    obtain ⟨-⟩ := hbatch
    exact trace_suffix_log _ _
  | limit _ _ hbatch hsettled _ _ | goesOn _ _ hbatch hsettled _ =>
    obtain ⟨-⟩ := hbatch
    exact (trace_suffix_log _ _).trans hsettled.trace_suffix

theorem Turning.trace_suffix {r s : Run T ε} {exit : Option Exit} (h : Turning o p l r s exit) :
    r.trace <:+ s.trace := by
  have hread : r.trace <:+ (r.readClock o).2.trace := trace_suffix_log _ _
  cases h with
  | timeUp => exact hread
  | left _ hrender => exact hread.trans hrender.trace_suffix
  | @through q _ _ _ _ hrender hexec =>
    have htimers : q.trace <:+ (q.timerPhase p (r.readClock o).1).1.trace := trace_suffix_log _ _
    exact ((hread.trans hrender.trace_suffix).trans htimers).trans hexec.trace_suffix

theorem Looping.trace_suffix {turns : Nat} {r s : Run T ε} {before : List (Run T ε)}
    {exit : Option Exit} (h : Looping o p l turns r before s exit) : r.trace <:+ s.trace := by
  have hturn : ∀ t u exit, r.trace <:+ t.trace → Turning o p l t u exit → r.trace <:+ u.trace := by
    intro t u exit hsuffix hturn
    exact hsuffix.trans hturn.trace_suffix
  exact (h.invariant hturn List.suffix_rfl).2

/-! ## A turn up to its timers -/

/-- The reading of the next turn and the run as the timer phase finds it, with whether
the turn has polled; nothing if the turn ends before that. -/
def untilTimers? (o : Surroundings T ε) (p : Plan T) (l : Limits T) (r : Run T ε) :
    Option (T × Run T ε × Bool) :=
  let (now, r) := r.readClock o
  if r.timeUp l now then none
  else
    match r.renderPhase o p now with
    | (_, _, some _) => none
    | (r, drew, none) => some (now, r, drew)

variable {r q : Run T ε} {drew : Bool}

/-- A turn that does not come to its timers is the last one. -/
theorem exit_of_untilTimers?_eq_none (h : r.untilTimers? o p l = none) :
    (r.turn o p l).2.isSome := by
  unfold untilTimers? at h
  unfold turn
  dsimp only at h ⊢
  split at h
  · rename_i hup
    rw [if_pos hup]
    rfl
  · rename_i hup
    rw [if_neg hup]
    rcases hrender : renderPhase o p (r.readClock o).1 (r.readClock o).2 with ⟨s, drew, _ | exit⟩
    · rw [hrender] at h
      simp at h
    · rfl

/-- A turn that comes to its timers goes through that phase and the instruction phase. -/
theorem turn_of_untilTimers? (h : r.untilTimers? o p l = some (now, q, drew)) :
    r.turn o p l = (q.timerPhase p now).1.instructionPhase o p l now
      (drew || decide (0 < (q.timerPhase p now).2)) := by
  unfold untilTimers? at h
  unfold turn
  dsimp only at h ⊢
  split at h
  · simp at h
  · rename_i hup
    rw [if_neg hup]
    rcases hrender : renderPhase o p (r.readClock o).1 (r.readClock o).2 with ⟨s, drew, _ | exit⟩
    · rw [hrender] at h
      cases h
      rfl
    · rw [hrender] at h
      simp at h

/-- Up to the timers a turn reads the clock, and leaves alone what the render phase
does. -/
theorem untilTimers?_eq_some (h : r.untilTimers? o p l = some (now, q, drew)) :
    (r.readClock o).1 = now ∧ RenderFrame (r.readClock o).2 q := by
  unfold untilTimers? at h
  dsimp only at h
  split at h
  · simp at h
  · have hframe : RenderFrame (r.readClock o).2
        (renderPhase o p (r.readClock o).1 (r.readClock o).2).1 := renderFrame_renderPhase _
    rcases hrender : renderPhase o p (r.readClock o).1 (r.readClock o).2 with ⟨s, drew, _ | exit⟩
    · rw [hrender] at h hframe
      cases h
      exact ⟨rfl, hframe⟩
    · rw [hrender] at h
      simp at h

/-- A turn that comes to its timers has one reading more. -/
theorem readings_of_untilTimers? (h : r.untilTimers? o p l = some (now, q, drew)) :
    q.readings = now :: r.readings := by
  obtain ⟨rfl, hframe⟩ := untilTimers?_eq_some h
  rw [hframe.readings]
  rfl

/-- A turn that is in time and polls nothing comes to its timers with the reading alone. -/
theorem untilTimers?_of_quiet
    (hup : (r.readClock o).2.timeUp l (r.readClock o).1 = false)
    (hrender : Time.reached (Time.sub (r.readClock o).1 r.lastRender) p.renderPeriod = false) :
    r.untilTimers? o p l = some ((r.readClock o).1, (r.readClock o).2, false) := by
  have hphase : (r.readClock o).2.renderPhase o p (r.readClock o).1 =
      ((r.readClock o).2, false, none) := by
    rw [renderPhase]
    exact if_neg (Bool.eq_false_iff.mp hrender)
  rw [untilTimers?]
  dsimp only
  rw [if_neg (Bool.eq_false_iff.mp hup), hphase]

/-- A turn that is not the last one comes to its timers, and ends as they and the
instruction phase leave the run. -/
theorem exists_untilTimers?_of_turn {s : Run T ε} (h : r.turn o p l = (s, none)) :
    ∃ now q drew, r.untilTimers? o p l = some (now, q, drew) ∧
      InstructionFrame (q.timerPhase p now).1 s := by
  rcases hu : r.untilTimers? o p l with _ | ⟨now, q, drew⟩
  · have hexit := exit_of_untilTimers?_eq_none hu
    rw [h] at hexit
    simp at hexit
  · have hturn := turn_of_untilTimers? hu
    have hframe : InstructionFrame (q.timerPhase p now).1 (r.turn o p l).1 := by
      rw [hturn]
      exact instructionFrame_instructionPhase _ _
    rw [h] at hframe
    exact ⟨now, q, drew, rfl, hframe⟩

/-! ## Along the loop -/

/-- A loop that goes on after its turns goes on after each of them. -/
theorem loop_succ_eq_none {turns : Nat} {s : Run T ε}
    (h : r.loop o p l (turns + 1) = (s, none)) :
    ∃ t, r.turn o p l = (t, none) ∧ t.loop o p l turns = (s, none) := by
  rw [loop] at h
  split at h
  · simp at h
  · rcases hturn : r.turn o p l with ⟨t, _ | exit⟩
    · rw [hturn] at h
      exact ⟨t, rfl, h⟩
    · rw [hturn] at h
      simp at h

/-- However a turn ends, it has read the clock once. -/
theorem Turning.readings {s : Run T ε} {exit : Option Exit} (h : Turning o p l r s exit) :
    s.readings = (r.readClock o).1 :: r.readings := by
  have hread : (r.readClock o).2.readings = (r.readClock o).1 :: r.readings := rfl
  cases h with
  | timeUp => exact hread
  | left _ hrender =>
    rw [hrender.frame.readings]
    exact hread
  | through _ hrender hexec =>
    rw [hexec.frame.readings, (timerFrame_timerPhase _).readings, hrender.frame.readings]
    exact hread

/-- Readings stay, and new ones come before them. -/
theorem Looping.readings_suffix {turns : Nat} {s : Run T ε} {before : List (Run T ε)}
    {exit : Option Exit} (h : Looping o p l turns r before s exit) :
    r.readings <:+ s.readings :=
  h.trace_suffix.filterMap _

theorem readings_suffix_of_loop {turns : Nat} {s : Run T ε} {exit : Option Exit}
    (h : r.loop o p l turns = (s, exit)) : r.readings <:+ s.readings :=
  (looping_of_loop h).readings_suffix

end Run
end ChipEight
