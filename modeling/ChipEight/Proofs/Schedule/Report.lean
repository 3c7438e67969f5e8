/-
Whether the report of a run is true.

A run counts what it does, and it can be left in six ways, some of them in the middle of a
turn. `Counted` holds the counts against the machine and the trace, and every phase keeps
it, also one that ends the run. `Warranted` says what each way to end a run is the end of.
Together they make up `Truthful`, which holds a report against what happened.

That the trace is itself what happened is the subject of the replay.
-/
import ChipEight.Proofs.Schedule.ExactTime
import ChipEight.Proofs.Schedule.Polls
import ChipEight.Proofs.Schedule.Replay

set_option autoImplicit false

namespace ChipEight

variable {T ε : Type}

/-! ## Kinds of deeds -/

namespace Deed

/-- Is it the report that the run falls behind? -/
def isWarning : Deed T → Bool
  | .report (.fallingBehind _ _) => true
  | _ => false

/-- Does it act on nothing: a reading or a report? -/
def isAside : Deed T → Bool
  | .read _ | .report _ => true
  | _ => false

/-- The fault, if it is a batch that faulted. -/
def fault? : Deed T → Option Fault
  | .batch _ _ fault => fault
  | _ => none

/-- Does it leave the counts of a report as they are? -/
def isUncounted (d : Deed T) : Bool := !d.isTick && !d.isRender && !d.isWarning

end Deed

namespace Run

variable {o : Surroundings T ε} {p : Plan T} {l : Limits T} {m : Machine} {outside : ε}
  {r s : Run T ε}

/-! ## The counts -/

theorem cycles_tickTimes (m : Machine) (ticks : Nat) : (tickTimes m ticks).cycles = m.cycles := by
  induction ticks generalizing m with
  | zero => rfl
  | succ ticks ih => exact ih m.tick

theorem countP_log (f : Deed T → Bool) (r : Run T ε) (deeds : List (Deed T)) :
    (r.log deeds).trace.countP f = deeds.countP f + r.trace.countP f := by
  rw [trace_log, List.countP_append, List.countP_reverse]

/-- The counts of a run are true of a machine that had so many cycles behind it when the
run began. -/
structure Counted (l : Limits T) (cycles : Nat) (r : Run T ε) : Prop where
  cycles : r.machine.cycles = cycles + r.instructions
  timerTicks : r.timerTicks = r.trace.countP Deed.isTick
  frames : r.frames = r.trace.countP Deed.isRender
  instructions_le : ∀ k, l.instructions = some k → (r.instructions : Int) ≤ max k 0
  dropped_nonneg : 0 ≤ r.dropped
  warnings : r.trace.countP Deed.isWarning = if 0 < r.dropped then 1 else 0

namespace Counted

variable {cycles : Nat}

/-- Deeds that are not counted leave the counts true. -/
theorem log {deeds : List (Deed T)} (h : Counted l cycles r)
    (hdeeds : ∀ d ∈ deeds, d.isUncounted = true) : Counted l cycles (r.log deeds) := by
  have hnone : deeds.countP Deed.isTick = 0 ∧ deeds.countP Deed.isRender = 0 ∧
      deeds.countP Deed.isWarning = 0 := by
    simp only [List.countP_eq_zero]
    simp only [Deed.isUncounted, Bool.and_eq_true, Bool.not_eq_true'] at hdeeds
    grind
  obtain ⟨htick, hrender, hwarning⟩ := hnone
  refine ⟨h.cycles, ?_, ?_, h.instructions_le, h.dropped_nonneg, ?_⟩
  · rw [countP_log, htick, Nat.zero_add]
    exact h.timerTicks
  · rw [countP_log, hrender, Nat.zero_add]
    exact h.frames
  · rw [countP_log, hwarning, Nat.zero_add]
    exact h.warnings

theorem begin (m : Machine) (outside : ε) : Counted l m.cycles (begin o p m outside) :=
  ⟨rfl, rfl, rfl, fun _ _ => Int.le_max_right _ _, Int.le_refl 0, rfl⟩

theorem readClock (h : Counted l cycles r) : Counted l cycles (r.readClock o).2 := by
  have hread : Counted l cycles { r with outside := (o.read r.outside).2 } :=
    ⟨h.cycles, h.timerTicks, h.frames, h.instructions_le, h.dropped_nonneg, h.warnings⟩
  exact hread.log (List.forall_mem_singleton.mpr rfl)

theorem polled {now : T} (h : Counted l cycles r) : Counted l cycles (r.polled o now) := by
  have hpoll : Counted l cycles { r with
      machine := (r.served o).machine
      outside := (o.poll r.machine r.outside).2
      stopped := (r.served o).stop
      lastRender := now } := by
    refine ⟨?_, h.timerTicks, h.frames, h.instructions_le, h.dropped_nonneg, h.warnings⟩
    rw [served, Machine.serve_cycles]
    exact h.cycles
  exact hpoll.log (List.forall_mem_singleton.mpr rfl)

theorem shown (h : Counted l cycles r) : Counted l cycles (r.shown o) := by
  have htrace : (r.shown o).trace = .render r.machine.state.display :: r.trace := rfl
  refine ⟨h.cycles, ?_, ?_, h.instructions_le, h.dropped_nonneg, ?_⟩
  · rw [htrace, List.countP_cons_of_neg Bool.false_ne_true]
    exact h.timerTicks
  · rw [htrace, List.countP_cons_of_pos rfl, ← h.frames]
    rfl
  · rw [htrace, List.countP_cons_of_neg Bool.false_ne_true]
    exact h.warnings

theorem batched {n : Machine} {done : Nat} {fault : Option Fault} {notices : List Notice}
    {due : Int} (h : Counted l cycles r)
    (hsteps : r.machine.steps (r.share l due).toNat = (n, done, fault, notices)) :
    Counted l cycles (r.batched (r.share l due) n done fault notices) := by
  have hbatch := Machine.batched_of_steps hsteps
  have hdone := hbatch.done_le
  have hcounted : Counted l cycles
      { r with machine := n, instructions := r.instructions + done } := by
    refine ⟨?_, h.timerTicks, h.frames, ?_, h.dropped_nonneg, h.warnings⟩
    · have hcycles := hbatch.cycles
      have hbefore := h.cycles
      dsimp only
      omega
    · intro k hk
      have hshare := share_le l due r hk
      have hbefore := h.instructions_le k hk
      dsimp only
      omega
  refine hcounted.log ?_
  intro d hd
  rcases List.mem_cons.mp hd with rfl | hd
  · rfl
  · obtain ⟨x, hx, rfl⟩ := List.mem_map.mp hd
    rcases hbatch.reported x hx with ⟨f, rfl⟩ | ⟨label, s, rfl⟩
    · rfl
    · rfl

/-- The first drop is reported, and no later one. -/
theorem dropped {now : T} {rest : Int} (h : Counted l cycles r) (hrest : 0 < rest) :
    Counted l cycles { r.warned p rest with
      dropped := (r.warned p rest).dropped + rest
      lastInstruction := now } := by
  have hnonneg := h.dropped_nonneg
  have hwarnings := h.warnings
  unfold warned
  by_cases hfirst : r.dropped = 0
  · rw [if_pos hfirst]
    have htrace : (r.log [.report (.fallingBehind p.rates.instructions rest)]).trace =
        .report (.fallingBehind p.rates.instructions rest) :: r.trace := rfl
    have hstill : 0 < r.dropped + rest := by omega
    rw [hfirst, if_neg (Int.lt_irrefl 0)] at hwarnings
    refine ⟨h.cycles, ?_, ?_, h.instructions_le, Int.le_of_lt hstill, ?_⟩
    · rw [htrace, List.countP_cons_of_neg Bool.false_ne_true]
      exact h.timerTicks
    · rw [htrace, List.countP_cons_of_neg Bool.false_ne_true]
      exact h.frames
    · rw [htrace, List.countP_cons_of_pos rfl, hwarnings]
      exact (if_pos hstill).symm
  · rw [if_neg hfirst]
    have hbefore : 0 < r.dropped := by omega
    have hstill : 0 < r.dropped + rest := by omega
    rw [if_pos hbefore] at hwarnings
    refine ⟨h.cycles, h.timerTicks, h.frames, h.instructions_le, Int.le_of_lt hstill, ?_⟩
    rw [hwarnings]
    exact (if_pos hstill).symm

variable [Time T] {now : T} {exit : Option Exit}

theorem rest (h : Counted l cycles r) : Counted l cycles (r.rest o p) := by
  unfold Run.rest
  split
  · have hslept : Counted l cycles { r with outside := o.sleep p.idleSleep r.outside } :=
      ⟨h.cycles, h.timerTicks, h.frames, h.instructions_le, h.dropped_nonneg, h.warnings⟩
    exact hslept.log (List.forall_mem_singleton.mpr rfl)
  · exact h

theorem timerPhase (h : Counted l cycles r) : Counted l cycles (r.timerPhase p now).1 := by
  have hticks : ∀ f : Deed T → Bool, (r.timerPhase p now).1.trace.countP f =
      (List.replicate (dueTicks p.timerPeriod now r.lastTimer maxTicks).1 Deed.tick).countP f +
        r.trace.countP f := fun f => countP_log f _ _
  refine ⟨?_, ?_, ?_, h.instructions_le, h.dropped_nonneg, ?_⟩
  · have hcycles : (r.timerPhase p now).1.machine.cycles = r.machine.cycles :=
      cycles_tickTimes r.machine _
    rw [hcycles]
    exact h.cycles
  · rw [hticks, timerTicks_timerPhase, ← h.timerTicks, List.countP_replicate]
    exact Nat.add_comm _ _
  · rw [hticks, ← h.frames, List.countP_replicate]
    exact (Nat.zero_add _).symm
  · rw [hticks, h.warnings, List.countP_replicate]
    exact Nat.zero_add _

theorem rendering {drew : Bool} (h : Counted l cycles r)
    (hrender : Rendering o p now r s drew exit) : Counted l cycles s := by
  cases hrender with
  | early => exact h
  | failed | unchanged => exact h.polled
  | quit => exact h.polled.log (List.forall_mem_singleton.mpr rfl)
  | drawn => exact h.polled.shown

theorem settled {due : Int} {t : Run T ε} (h : Counted l cycles r)
    (hsettled : Settled p now due (t.share l due) r s) : Counted l cycles s := by
  cases hsettled with
  | dropped hmany =>
    have hshare := share_le_maxBatch l due t
    exact h.dropped (by omega)
  | advanced =>
    exact ⟨h.cycles, h.timerTicks, h.frames, h.instructions_le, h.dropped_nonneg, h.warnings⟩

theorem executing {busy : Bool} (h : Counted l cycles r)
    (hexec : Executing o p l now busy r s exit) : Counted l cycles s := by
  cases hexec with
  | uncounted | nothing => exact h
  | rested => exact h.rest
  | fault _ _ hsteps => exact h.batched hsteps
  | unsettled _ _ hbatch _ =>
    obtain ⟨hsteps⟩ := hbatch
    exact h.batched hsteps
  | limit _ _ hbatch hsettled _ _ | goesOn _ _ hbatch hsettled _ =>
    obtain ⟨hsteps⟩ := hbatch
    exact (h.batched hsteps).settled hsettled

/-- **Every turn** keeps the counts true, whether or not it ends the run. -/
theorem turning (h : Counted l cycles r) (hturn : Turning o p l r s exit) :
    Counted l cycles s := by
  cases hturn with
  | timeUp => exact h.readClock
  | left _ hrender => exact h.readClock.rendering hrender
  | through _ hrender hexec => exact (h.readClock.rendering hrender).timerPhase.executing hexec

theorem looping {turns : Nat} {before : List (Run T ε)} (h : Counted l cycles r)
    (hloop : Looping o p l turns r before s exit) : Counted l cycles s := by
  have hturn : ∀ q t exit, Counted l cycles q → Turning o p l q t exit → Counted l cycles t := by
    intro q t exit hq hturning
    exact hq.turning hturning
  exact (hloop.invariant hturn h).2

end Counted

/-! ## Faults -/

/-- No batch so far has faulted. -/
def Faultless (r : Run T ε) : Prop := ∀ d ∈ r.trace, d.fault? = none

/-- A batch has faulted, the first one to do so. The machine is halted by that fault, and
nothing was done after it. -/
def Struck (f : Fault) (r : Run T ε) : Prop :=
  ∃ after size done before, r.trace = after ++ .batch size done (some f) :: before ∧
    (∀ d ∈ after, d.isAside = true) ∧ (∀ d ∈ before, d.fault? = none) ∧
    r.machine.fault = some f

/-- What the end of a turn says of faults. -/
def Spared (r : Run T ε) : Option Exit → Prop
  | some (.fault f) => r.Struck f
  | _ => r.Faultless

theorem Faultless.log {deeds : List (Deed T)} (h : Faultless r)
    (hdeeds : ∀ d ∈ deeds, d.fault? = none) : Faultless (r.log deeds) := by
  intro d hd
  rw [trace_log, List.mem_append, List.mem_reverse] at hd
  rcases hd with hd | hd
  · exact hdeeds d hd
  · exact h d hd

theorem Faultless.cons {d : Deed T} (h : Faultless r) (hd : d.fault? = none)
    (htrace : s.trace = d :: r.trace) : Faultless s := by
  intro x hx
  rw [htrace, List.mem_cons] at hx
  rcases hx with rfl | hx
  · exact hd
  · exact h x hx

theorem Faultless.completed {size : Int} (h : Faultless r) (hbatch : Completed size r s) :
    Faultless s := by
  cases hbatch with
  | mk hsteps => exact h.cons rfl rfl

/-- A batch that faults ends the trace, but for what it reports. -/
theorem Faultless.struck {size : Int} {n : Machine} {done : Nat} {f : Fault}
    {notices : List Notice} (h : Faultless r)
    (hsteps : r.machine.steps size.toNat = (n, done, some f, notices)) :
    Struck f (r.batched size n done (some f) notices) := by
  refine ⟨_, size, done, r.trace, trace_batched _ _ _ _ _ _, ?_, h, ?_⟩
  · intro d hd
    obtain ⟨x, -, rfl⟩ := List.mem_map.mp hd
    rfl
  · exact ((Machine.batched_of_steps hsteps).halted f rfl).2

theorem Struck.readClock {f : Fault} (h : Struck f r) : Struck f (r.readClock o).2 := by
  obtain ⟨after, size, done, before, htrace, hafter, hbefore, hfault⟩ := h
  refine ⟨.read (o.read r.outside).1 :: after, size, done, before, ?_, ?_, hbefore, hfault⟩
  · exact congrArg (Deed.read (o.read r.outside).1 :: ·) htrace
  · exact List.forall_mem_cons.mpr ⟨rfl, hafter⟩

theorem faultless_begin (m : Machine) (outside : ε) : Faultless (begin o p m outside) := by
  intro d hd
  have htrace : (begin o p m outside).trace =
      [.report (.running p.rates.instructions p.rates.timers p.rates.renders),
        .read (o.read outside).1] := rfl
  rw [htrace, List.mem_cons, List.mem_singleton] at hd
  rcases hd with rfl | rfl
  · rfl
  · rfl

/-- A run that was struck has a batch with that fault. -/
theorem Struck.exists_fault {f : Fault} (h : Struck f r) : ∃ d ∈ r.trace, d.fault? ≠ none := by
  obtain ⟨after, size, done, before, htrace, -, -, -⟩ := h
  refine ⟨.batch size done (some f), ?_, nofun⟩
  rw [htrace]
  exact List.mem_append_right after List.mem_cons_self

theorem Spared.readClock {exit : Option Exit} (h : Spared r exit) :
    Spared (r.readClock o).2 exit := by
  unfold Spared at h ⊢
  split at h
  · exact h.readClock
  · exact h.cons rfl rfl

/-- What the report says of faults is so. -/
theorem Spared.told {exit : Exit} (h : Spared r (some exit)) :
    (faultOf exit ≠ none ↔ ∃ d ∈ r.trace, d.fault? ≠ none) ∧
      ∀ f, faultOf exit = some f → r.Struck f := by
  cases exit with
  | fault f =>
    have hstruck : r.Struck f := h
    refine ⟨⟨fun _ => hstruck.exists_fault, fun _ => Option.some_ne_none f⟩, ?_⟩
    intro g hg
    cases hg
    exact hstruck
  | timeUp | quit | stopped | instructionLimit | failed =>
    have hnone : r.Faultless := h
    refine ⟨⟨fun hsome => absurd rfl hsome, ?_⟩, nofun⟩
    rintro ⟨d, hd, hsome⟩
    exact absurd (hnone d hd) hsome

variable [Time T] {now : T} {exit : Option Exit}

theorem Faultless.rendering {drew : Bool} (h : Faultless r)
    (hrender : Rendering o p now r s drew exit) : Faultless s := by
  have hpolled : Faultless (r.polled o now) := h.cons rfl rfl
  cases hrender with
  | early => exact h
  | failed | unchanged => exact hpolled
  | quit | drawn => exact hpolled.cons rfl rfl

theorem Faultless.timerPhase (h : Faultless r) : Faultless (r.timerPhase p now).1 := by
  refine h.log ?_
  intro d hd
  rw [List.eq_of_mem_replicate hd]
  rfl

theorem Faultless.settled {due size : Int} (h : Faultless r)
    (hsettled : Settled p now due size r s) : Faultless s := by
  cases hsettled with
  | dropped =>
    have hwarned : Faultless (r.warned p (due - size)) := by
      unfold warned
      split
      · exact h.cons rfl rfl
      · exact h
    exact hwarned
  | advanced => exact h

theorem Faultless.executing {busy : Bool} (h : Faultless r)
    (hexec : Executing o p l now busy r s exit) : Spared s exit := by
  cases hexec with
  | uncounted | nothing => exact h
  | rested =>
    unfold rest
    split
    · exact h.cons rfl rfl
    · exact h
  | fault _ _ hsteps => exact h.struck hsteps
  | unsettled _ _ hbatch _ => exact h.completed hbatch
  | limit _ _ hbatch hsettled _ _ | goesOn _ _ hbatch hsettled _ =>
    exact (h.completed hbatch).settled hsettled

theorem Faultless.turning (h : Faultless r) (hturn : Turning o p l r s exit) :
    Spared s exit := by
  have hread : Faultless (r.readClock o).2 := h.cons rfl rfl
  cases hturn with
  | timeUp => exact hread
  | left _ hrender =>
    have hrendered := hread.rendering hrender
    cases hrender with
    | failed | quit => exact hrendered
  | through _ hrender hexec => exact (hread.rendering hrender).timerPhase.executing hexec

theorem Faultless.looping {turns : Nat} {before : List (Run T ε)} (h : Faultless r)
    (hloop : Looping o p l turns r before s exit) : Spared s exit := by
  -- A turn that is not the last goes on, so it leaves a run without a fault.
  induction hloop with
  | spent | stopped => exact h
  | last _ hturn => exact h.turning (turning_of_turn hturn)
  | next _ hturn _ ih => exact ih (h.turning (turning_of_turn hturn))

/-! ## Quits and limits -/

/-- The next turn is in time and polls, and the poll answers with a quit. -/
structure Quitting (o : Surroundings T ε) (p : Plan T) (l : Limits T) (r : Run T ε) : Prop where
  inTime : (r.readClock o).2.timeUp l (r.readClock o).1 = false
  pollDue : (r.readClock o).2.pollDue p (r.readClock o).1 = true
  verdict : ((r.readClock o).2.served o).verdict = .quit

/-- A quit ends the turn behind the poll: it ticks no timer and begins no batch. -/
theorem Quitting.trace_turn (h : Quitting o p l r) :
    (r.turn o p l).1.trace =
      .report .quitRequested :: .poll :: .read (r.readClock o).1 :: r.trace := by
  have hnever : ∀ {s : Run T ε} {drew : Bool},
      ¬ Rendering o p (r.readClock o).1 (r.readClock o).2 s drew none := by
    intro s drew hrender
    cases hrender with
    | early hdue =>
      rw [h.pollDue] at hdue
      cases hdue
    | unchanged _ hverdict | drawn _ hverdict =>
      rw [h.verdict] at hverdict
      cases hverdict
  rcases hturn : r.turn o p l with ⟨s, exit⟩
  cases turning_of_turn hturn with
  | timeUp hup =>
    rw [h.inTime] at hup
    cases hup
  | left _ hrender =>
    cases hrender with
    | failed _ hverdict =>
      rw [h.verdict] at hverdict
      cases hverdict
    | quit => rfl
  | through _ hrender _ => exact absurd hrender hnever

/-- What the end of a run, but for a fault, is the end of, given the runs in front of
its turns. -/
def Warranted (o : Surroundings T ε) (p : Plan T) (l : Limits T) (before : List (Run T ε))
    (r : Run T ε) : Exit → Prop
  | .timeUp => ∃ q ∈ before, (q.readClock o).2.timeUp l (q.readClock o).1 = true
  | .quit => ∃ q ∈ before, Quitting o p l q
  | .stopped => r.stopped = true
  | .instructionLimit => ∃ k, l.instructions = some k ∧ k ≤ r.instructions
  | .fault _ | .failed _ => True

theorem Turning.warranted {exit : Exit} (h : Turning o p l r s (some exit)) :
    Warranted o p l [r] s exit := by
  cases h with
  | timeUp hup => exact ⟨r, List.mem_singleton_self r, hup⟩
  | left hup hrender =>
    cases hrender with
    | failed => trivial
    | quit hdue hverdict => exact ⟨r, List.mem_singleton_self r, hup, hdue, hverdict⟩
  | through _ _ hexec =>
    cases hexec with
    | uncounted | fault | unsettled => trivial
    | limit _ _ _ _ hlimit hk => exact ⟨_, hlimit, hk⟩

theorem Looping.warranted {turns : Nat} {before : List (Run T ε)} {exit : Exit}
    (h : Looping o p l turns r before s (some exit)) : Warranted o p l before s exit := by
  generalize hexit : some exit = ended at h
  induction h with
  | spent => cases hexit
  | stopped hstopped =>
    cases hexit
    exact hstopped
  | last _ hturn =>
    cases hexit
    exact (turning_of_turn hturn).warranted
  | next _ _ _ ih =>
    have hrest := ih hexit
    -- Only what is said of the turns made looks at the list, and the list grows.
    cases exit with
    | timeUp | quit =>
      obtain ⟨q, hq, hlast⟩ := hrest
      exact ⟨q, List.mem_cons_of_mem _ hq, hlast⟩
    | stopped | instructionLimit | fault | failed => exact hrest

/-- When neither a fault nor a quit, a stop or the time ends a run, it has carried out
what its limit asks for. -/
theorem Warranted.completed {before : List (Run T ε)} {cycles : Nat} {exit : Exit}
    (h : Warranted o p l before r exit) (hcounted : Counted l cycles r)
    (hfailed : ∀ e, exit ≠ .failed e) (hfault : faultOf exit = none)
    (hquit : ∀ q ∈ before, ¬ Quitting o p l q) (hstopped : r.stopped = false)
    (htime : ∀ q ∈ before, (q.readClock o).2.timeUp l (q.readClock o).1 = false) :
    ∃ k, l.instructions = some k ∧ (r.instructions : Int) = max k 0 := by
  cases exit with
  | timeUp =>
    obtain ⟨q, hq, hup⟩ := h
    rw [htime q hq] at hup
    cases hup
  | quit =>
    obtain ⟨q, hq, hquitting⟩ := h
    exact absurd hquitting (hquit q hq)
  | stopped => exact absurd h (Bool.eq_false_iff.mp hstopped)
  | instructionLimit =>
    obtain ⟨k, hk, hle⟩ := h
    have hmax := hcounted.instructions_le k hk
    exact ⟨k, hk, by omega⟩
  | fault f => cases hfault
  | failed e => exact absurd rfl (hfailed e)

/-! ## The report -/

/-- A report that is true of a run which began with this machine and these surroundings
and made its turns behind the runs `before`. -/
structure Truthful (o : Surroundings T ε) (p : Plan T) (l : Limits T) (m : Machine)
    (outside : ε) (before : List (Run T ε)) (r : Run T ε) (report : Report T) : Prop where
  /-- The trace is what was done. -/
  replay : Replay o (m, outside) r.trace (r.machine, r.outside)
  instructions : (r.machine.cycles : Int) = m.cycles + report.instructions
  timerTicks : report.timerTicks = r.trace.countP Deed.isTick
  frames : report.frames = r.trace.countP Deed.isRender
  limited : ∀ k, l.instructions = some k → report.instructions ≤ max k 0
  fault_iff : report.fault ≠ none ↔ ∃ d ∈ r.trace, d.fault? ≠ none
  /-- The fault is that of the machine, and nothing was done after it. -/
  struck : ∀ f, report.fault = some f → r.Struck f
  quit : ∀ q ∈ before, Quitting o p l q → (q.turn o p l).1.trace =
    .report .quitRequested :: .poll :: .read (q.readClock o).1 :: q.trace
  /-- A run that nothing else ends carries out what its limit asks for. -/
  completed : report.fault = none → (∀ q ∈ before, ¬ Quitting o p l q) → r.stopped = false →
    (∀ q ∈ before, (q.readClock o).2.timeUp l (q.readClock o).1 = false) →
    ∃ k, l.instructions = some k ∧ report.instructions = max k 0
  warned : r.trace.countP Deed.isWarning = if 0 < report.dropped then 1 else 0

/-- **The report of a run is true.** -/
theorem report_truthful {turns : Nat} {report : Report T}
    (h : whole o p l turns m outside = ⟨r, some (.ok report)⟩) :
    Truthful o p l m outside ((begin o p m outside).stages o p l turns) r report := by
  obtain ⟨s, exit, hloop, rfl, rfl, hfailed⟩ := concluded_of_whole h
  have hlooping := looping_of_loop hloop
  have hcounted : Counted l m.cycles s := (Counted.begin m outside).looping hlooping
  have hspared : Spared (s.readClock o).2 (some exit) :=
    ((faultless_begin m outside).looping hlooping).readClock
  have hcycles : (s.machine.cycles : Int) = (m.cycles + s.instructions : Nat) :=
    congrArg Nat.cast hcounted.cycles
  rw [Int.natCast_add] at hcycles
  exact {
    replay := replayed_readClock (replayed_loop hloop)
    instructions := hcycles
    timerTicks := hcounted.readClock.timerTicks
    frames := hcounted.readClock.frames
    limited := hcounted.instructions_le
    fault_iff := hspared.told.1
    struck := hspared.told.2
    quit := fun q _ hq => hq.trace_turn
    completed := fun hfault hquit hstopped htime =>
      hlooping.warranted.completed hcounted hfailed hfault hquit hstopped htime
    warned := hcounted.readClock.warnings }

/-- Surroundings whose clock goes on by one at each reading. -/
def steady : Surroundings ℚ Nat where
  read n := (n, n + 1)
  sleep _ n := n
  poll _ n := ([], n)
  render _ n := n

/-- One event of each cadence in every unit of time. -/
def unitPlan : Plan ℚ where
  rates := ⟨.whole 1, .whole 1, .whole 1⟩
  instructionPeriod := 1
  timerPeriod := 1
  renderPeriod := 1
  idleSleep := 0

/-- A machine that jumps once, and then comes to a word that is no instruction. -/
def derailing : Machine :=
  { Machine.circling with
    state := { Machine.circling.state with
      memory := ((Vector.replicate 4096 0).setIfInBounds 0 0x10).setIfInBounds 1 0x02 } }

/-- The second cycle faults, two ticks into the run, and that is what the report says. -/
theorem fault_told :
    ∃ r report, whole steady unitPlan {} 5 derailing 0 = ⟨r, some (.ok report)⟩ ∧
      report.instructions = 1 ∧ r.machine.cycles = 1 ∧ r.trace.countP Deed.isTick = 2 ∧
      r.Struck ⟨.invalidOpcode, some 0, some 2⟩ := by
  have hcounts : (((whole steady unitPlan {} 5 derailing 0).report.bind Except.toOption).map
      fun report => (report.instructions, report.timerTicks, report.fault)) =
        some (1, 2, some ⟨.invalidOpcode, some 0, some 2⟩) := by
    decide +kernel
  rcases hwhole : whole steady unitPlan {} 5 derailing 0 with ⟨r, _ | e | report⟩
  · rw [hwhole] at hcounts
    cases hcounts
  · rw [hwhole] at hcounts
    cases hcounts
  · rw [hwhole] at hcounts
    simp only [Option.bind_some, Except.toOption, Option.map_some, Option.some.injEq,
      Prod.mk.injEq] at hcounts
    obtain ⟨hinstructions, hticks, hfault⟩ := hcounts
    have htrue := report_truthful hwhole
    have hcycles := htrue.instructions
    rw [hinstructions] at hcycles
    refine ⟨r, report, rfl, hinstructions, ?_, ?_, htrue.struck _ hfault⟩
    · have hnone : derailing.cycles = 0 := rfl
      omega
    · rw [← htrue.timerTicks]
      exact hticks

end Run
end ChipEight
