/-
The two ways to run a machine.

A scheduled run cuts its instructions into batches, and between them the timers tick and
the display is taken whenever the clock says so. A headless run carries out one
instruction after the other and ticks after every so many. Both come to the plain
sequence of cycles, `Machine.steps`, as far as the timers and the flag of the display are
left out of the comparison, provided that FX07 does not carry them into the rest of the
state. So a scheduled run that its limit or a fault ends, and the headless run of the same
length, agree.
-/
import ChipEight.Proofs.Schedule.Headless
import ChipEight.Proofs.Schedule.Report
import ChipEight.Proofs.TimerIndependence

set_option autoImplicit false

namespace ChipEight

/-! ## What leaves a bare machine alone -/

namespace Machine

theorem bare_tick (m : Machine) : m.tick.bare = m.bare := rfl

/-- What equal bare machines leave open. -/
theorem eq_of_bare_eq {m n : Machine} (h : m.bare = n.bare) :
    m = { n with state := { n.state with
      delayTimer := m.state.delayTimer
      soundTimer := m.state.soundTimer
      displayChanged := m.state.displayChanged } } := by
  have hstate := State.eq_of_bare_eq (congrArg Machine.state h)
  have hrest := congrArg (fun x : Machine => { x with state := m.state }) h
  calc m = { n with state := m.state } := hrest
    _ = _ := congrArg (fun s : State => { n with state := s }) hstate

end Machine

namespace Run

variable {T ε : Type} {o : Surroundings T ε} {p : Plan T} {l : Limits T} {m : Machine}
  {r s : Run T ε}

theorem bare_tickTimes (m : Machine) (ticks : Nat) : (tickTimes m ticks).bare = m.bare := by
  induction ticks generalizing m with
  | zero => rfl
  | succ ticks ih => exact (ih m.tick).trans m.bare_tick

/-! ## A scheduled run -/

/-- A run has done what so many plain cycles of a machine do, up to the timers and the
flag of the display, and none of them was FX07. -/
structure Plain (m : Machine) (count : Nat) (fault : Option Fault) (r : Run T ε) : Prop where
  steps : ∃ n notices, m.steps count = (n, r.instructions, fault, notices) ∧
    n.bare = r.machine.bare
  words : ∀ w ∈ m.words count, Operation.ofWord? w ≠ some .getDelayTimer

namespace Plain

variable {fault : Option Fault} {count : Nat}

/-- What leaves the bare machine and the count alone makes no difference. -/
theorem of_bare_eq (h : Plain m r.instructions none r) (hbare : s.machine.bare = r.machine.bare)
    (hinstructions : s.instructions = r.instructions) : Plain m s.instructions none s := by
  obtain ⟨n, notices, hsteps, hn⟩ := h.steps
  rw [hinstructions]
  refine ⟨⟨n, notices, ?_, hn.trans hbare.symm⟩, h.words⟩
  rw [hinstructions]
  exact hsteps

/-- A batch goes on where the plain cycles have come to. -/
theorem batched {size : Int} {n : Machine} {done : Nat} {notices : List Notice}
    (h : Plain m r.instructions none r)
    (hsteps : r.machine.steps size.toNat = (n, done, fault, notices))
    (hwords : ∀ w ∈ r.machine.words size.toNat, Operation.ofWord? w ≠ some .getDelayTimer) :
    Plain m (r.instructions + size.toNat) fault (r.batched size n done fault notices) := by
  obtain ⟨plain, quiet, hplain, hbare⟩ := h.steps
  obtain ⟨hmachine, hdone, hfault, hsame⟩ :=
    Machine.steps_of_bare_eq hbare.symm size.toNat hwords
  rw [hsteps] at hmachine hdone hfault
  obtain ⟨hadd, haddWords⟩ := Machine.steps_add hplain size.toNat
  have hcount : m.steps (r.instructions + size.toNat) = ((plain.steps size.toNat).1,
      r.instructions + done, fault, (plain.steps size.toNat).2.2.2) := by
    rw [hadd, ← hdone, ← hfault]
  refine ⟨⟨_, _, hcount, hmachine.symm⟩, ?_⟩
  intro w hw
  rw [haddWords, ← hsame, List.mem_append] at hw
  exact hw.elim (h.words w) (hwords w)

/-- Cycles that nothing comes of any more can be added behind a fault. -/
theorem extended {f : Fault} {count' : Nat} (h : Plain m count (some f) r)
    (hle : count ≤ count') : Plain m count' (some f) r := by
  obtain ⟨n, notices, hsteps, hbare⟩ := h.steps
  obtain ⟨hadd, hwords⟩ := Machine.steps_add_of_fault hsteps (count' - count)
  rw [Nat.add_sub_cancel' hle] at hadd hwords
  refine ⟨⟨n, notices, hadd, hbare⟩, ?_⟩
  rw [hwords]
  exact h.words

theorem begin (m : Machine) (outside : ε) : Plain m 0 none (begin o p m outside) := by
  refine ⟨⟨m, [], rfl, rfl⟩, ?_⟩
  intro w hw
  cases hw

end Plain

theorem Plain.completed {size : Int} (h : Plain m r.instructions none r)
    (hbatch : Completed size r s)
    (hwords : ∀ w ∈ r.machine.words size.toNat, Operation.ofWord? w ≠ some .getDelayTimer) :
    Plain m s.instructions none s := by
  obtain ⟨hsteps⟩ := hbatch
  exact h.batched hsteps hwords

variable [Time T] {now : T} {exit : Option Exit}

/-- A frontend that asks for nothing leaves the machine alone, and that the display was
taken is not seen on a bare machine. -/
theorem Rendering.bare {drew : Bool} (hpoll : ∀ n e, (o.poll n e).1 = [])
    (h : Rendering o p now r s drew exit) : s.machine.bare = r.machine.bare := by
  have hserved : (r.served o).machine = r.machine := by
    rw [served, hpoll]
    rfl
  have hpolled : (r.polled o now).machine.bare = r.machine.bare := congrArg Machine.bare hserved
  cases h with
  | early => rfl
  | failed | quit | unchanged | drawn => exact hpolled

/-- What a turn comes to, compared with the plain cycles: those of the run, or as many as
led to its fault, which are no more than the limit. -/
def Levelled (m : Machine) (limit : Nat) (r : Run T ε) : Option Exit → Prop
  | some (.fault f) => ∃ count ≤ limit, Plain m count (some f) r
  | _ => Plain m r.instructions none r

theorem Plain.executing {busy : Bool} {limit : Nat} (h : Plain m r.instructions none r)
    (hlimit : l.instructions = some (limit : Int))
    (hwords : ∀ due, Time.count (Time.sub now r.lastInstruction) p.instructionPeriod = .ok due →
      ∀ w ∈ r.machine.words (r.share l due).toNat, Operation.ofWord? w ≠ some .getDelayTimer)
    (hexec : Executing o p l now busy r s exit) : Levelled m limit s exit := by
  cases hexec with
  | uncounted | nothing => exact h
  | rested =>
    unfold rest
    split
    · exact h.of_bare_eq rfl rfl
    · exact h
  | @fault due _ _ _ _ hcount _ hsteps =>
    refine ⟨_, ?_, h.batched hsteps (hwords due hcount)⟩
    -- A batch with a fault was not empty, so the limit left it room.
    have hroom := ((Machine.batched_of_steps hsteps).halted _ rfl).1
    have hshare := share_le l due r hlimit
    omega
  | unsettled hcount _ hbatch _ => exact h.completed hbatch (hwords _ hcount)
  | limit hcount _ hbatch hsettled _ _ | goesOn hcount _ hbatch hsettled _ =>
    have hbefore := h.completed hbatch (hwords _ hcount)
    exact hbefore.of_bare_eq (congrArg Machine.bare hsettled.machine) hsettled.instructions

/-- The words that the next turn carries out if it comes to its instructions. -/
def turnWords (o : Surroundings T ε) (p : Plan T) (l : Limits T) (r : Run T ε) : List UInt16 :=
  let (now, r) := r.readClock o
  let r := (r.renderPhase o p now).1
  let r := (r.timerPhase p now).1
  match Time.count (Time.sub now r.lastInstruction) p.instructionPeriod with
  | .ok due => r.machine.words (r.share l due).toNat
  | .error _ => []

/-- **One turn** of a scheduled run, compared with the plain cycles. -/
theorem Plain.turning {limit : Nat} (h : Plain m r.instructions none r)
    (hpoll : ∀ n e, (o.poll n e).1 = []) (hlimit : l.instructions = some (limit : Int))
    (hwords : ∀ w ∈ r.turnWords o p l, Operation.ofWord? w ≠ some .getDelayTimer)
    (hturn : Turning o p l r s exit) : Levelled m limit s exit := by
  have hread : Plain m (r.readClock o).2.instructions none (r.readClock o).2 := h.of_bare_eq rfl rfl
  cases hturn with
  | timeUp => exact hread
  | left _ hrender =>
    have hplain := hread.of_bare_eq (hrender.bare hpoll) hrender.frame.instructions
    cases hrender with
    | failed | quit => exact hplain
  | @through q _ _ _ _ hrender hexec =>
    have hbare : (q.timerPhase p (r.readClock o).1).1.machine.bare =
        (r.readClock o).2.machine.bare :=
      (bare_tickTimes q.machine _).trans (hrender.bare hpoll)
    have hinstructions : (q.timerPhase p (r.readClock o).1).1.instructions =
        (r.readClock o).2.instructions := hrender.frame.instructions
    have hplain := hread.of_bare_eq hbare hinstructions
    refine hplain.executing hlimit ?_ hexec
    intro due hcount w hw
    refine hwords w ?_
    unfold turnWords
    dsimp only
    rw [hrender.eq]
    dsimp only
    rw [hcount]
    exact hw

/-- **A scheduled run**, compared with the plain cycles. -/
theorem Plain.looping {limit turns : Nat} {before : List (Run T ε)}
    (h : Plain m r.instructions none r) (hpoll : ∀ n e, (o.poll n e).1 = [])
    (hlimit : l.instructions = some (limit : Int))
    (hwords : ∀ w ∈ before.flatMap (turnWords o p l), Operation.ofWord? w ≠ some .getDelayTimer)
    (hloop : Looping o p l turns r before s exit) : Levelled m limit s exit := by
  induction hloop with
  | spent | stopped => exact h
  | last _ hturn =>
    rw [List.flatMap_singleton] at hwords
    exact h.turning hpoll hlimit hwords (turning_of_turn hturn)
  | next _ hturn _ ih =>
    rw [List.flatMap_cons, List.forall_mem_append] at hwords
    exact ih (h.turning hpoll hlimit hwords.1 (turning_of_turn hturn)) hwords.2

end Run

/-! ## A headless run -/

namespace Machine

/-- **A headless run**, compared with the plain cycles. -/
theorem headlessLoop_of_bare_eq {perTick : Int} (hperTick : 0 < perTick) {left : Nat}
    {h : Headless} {n : Machine} (hbare : h.machine.bare = n.bare) (hstop : h.stop = none)
    (hwords : ∀ w ∈ n.words left, Operation.ofWord? w ≠ some .getDelayTimer) :
    (headlessLoop perTick left h).machine.bare = (n.steps left).1.bare ∧
      (headlessLoop perTick left h).done = h.done + (n.steps left).2.1 ∧
      (headlessLoop perTick left h).stop = (n.steps left).2.2.1.map .ok := by
  -- The two may start at different machines with the same bare one: a tick leads to such a
  -- pair, and from there the plain cycles go on without it.
  induction left generalizing h n with
  | zero => exact ⟨hbare, rfl, hstop⟩
  | succ left ih =>
    rcases hn : n.step with ⟨n', _ | f, quiet⟩
    · rw [words_succ_of_done hn] at hwords
      obtain ⟨hfirst, hrest⟩ := List.forall_mem_cons.mp hwords
      obtain ⟨m', more, hm, hbare'⟩ := step_done_of_bare_eq hbare.symm hn hfirst
      rw [steps_succ_of_done hn, headlessLoop_of_done hperTick hm]
      -- Whether or not a tick follows, the machine is the same when it is bare.
      have hnext : (if perTick ∣ ((h.done + 1 : Nat) : Int) then m'.tick else m').bare =
          n'.bare := by
        split
        · exact m'.bare_tick.trans hbare'.symm
        · exact hbare'.symm
      obtain ⟨hmachine, hdone, hend⟩ := ih
        (h := { h with
          machine := if perTick ∣ ((h.done + 1 : Nat) : Int) then m'.tick else m'
          done := h.done + 1
          ticks := h.ticks + if perTick ∣ ((h.done + 1 : Nat) : Int) then 1 else 0
          notices := h.notices ++ more }) hnext hstop hrest
      refine ⟨hmachine, ?_, hend⟩
      rw [hdone]
      exact Nat.add_right_comm h.done 1 _
    · obtain ⟨m', more, hm, hbare'⟩ := step_fault_of_bare_eq hbare.symm hn
      rw [steps_succ_of_fault hn, headlessLoop_of_fault hm]
      exact ⟨hbare'.symm, rfl, rfl⟩

theorem runHeadless_of_steps {m n : Machine} {count done : Nat} {perTick : Int}
    {fault : Option Fault} {notices : List Notice} (hperTick : 0 < perTick) (span : Float)
    (hsteps : m.steps count = (n, done, fault, notices))
    (hwords : ∀ w ∈ m.words count, Operation.ofWord? w ≠ some .getDelayTimer) :
    ∃ h report told, m.runHeadless count perTick span = (h, .ok report, told) ∧
      h.bare = n.bare ∧ report.instructions = done ∧ report.fault = fault := by
  obtain ⟨hmachine, hdone, hstop⟩ := headlessLoop_of_bare_eq hperTick (h := { machine := m })
    rfl rfl hwords
  rw [hsteps] at hmachine hdone hstop
  unfold runHeadless
  dsimp only
  rw [Int.toNat_natCast, hstop]
  rcases fault with _ | f
  · have hcomplete : done = count := ((batched_of_steps hsteps).complete rfl).1
    refine ⟨_, _, _, rfl, hmachine, ?_, rfl⟩
    rw [hdone]
    dsimp only
    split
    · omega
    · omega
  · refine ⟨_, _, _, rfl, hmachine, ?_, rfl⟩
    rw [hdone]
    dsimp only
    omega

end Machine

/-! ## Both -/

namespace Run

variable {T ε : Type} [Time T] {o : Surroundings T ε} {p : Plan T} {l : Limits T}
  {m : Machine} {outside : ε} {turns limit : Nat} {r : Run T ε} {exit : Exit}

/-- A run that its limit or a fault ends has done what the plain cycles do, up to the
limit. -/
theorem plain_of_loop (hpoll : ∀ n e, (o.poll n e).1 = [])
    (hlimit : l.instructions = some (limit : Int))
    (hloop : (begin o p m outside).loop o p l turns = (r, some exit))
    (hexit : exit = .instructionLimit ∨ ∃ f, exit = .fault f)
    (hwords : ∀ w ∈ ((begin o p m outside).stages o p l turns).flatMap (turnWords o p l),
      Operation.ofWord? w ≠ some .getDelayTimer) :
    Plain m limit (faultOf exit) r := by
  have hlooping := looping_of_loop hloop
  have hlevelled : Levelled m limit r (some exit) :=
    (Plain.begin m outside).looping hpoll hlimit hwords hlooping
  rcases hexit with rfl | ⟨f, rfl⟩
  · obtain ⟨k, hk, hle⟩ := hlooping.warranted
    rw [hlimit] at hk
    cases hk
    have hcounted : Counted l m.cycles r := (Counted.begin m outside).looping hlooping
    have hmax := hcounted.instructions_le limit hlimit
    have hcount : r.instructions = limit := by omega
    have hplain : Plain m r.instructions none r := hlevelled
    rw [hcount] at hplain
    exact hplain
  · obtain ⟨count, hle, hplain⟩ := hlevelled
    exact hplain.extended hle

/-- **The two drivers agree.** A scheduled run with a limit and a frontend that asks for
nothing ends at the limit or at a fault, on any clock and by any plan, and has carried out
no FX07. Then a headless run of as many instructions, with a tick after any number of
them and however long it takes, reports the same instructions and the same fault, and leaves
the same machine but for the timers and the flag of the display. -/
theorem drivers_agree {perTick : Int} (hperTick : 0 < perTick) (span : Float)
    (hpoll : ∀ n e, (o.poll n e).1 = []) (hlimit : l.instructions = some (limit : Int))
    (hloop : (begin o p m outside).loop o p l turns = (r, some exit))
    (hexit : exit = .instructionLimit ∨ ∃ f, exit = .fault f)
    (hwords : ∀ w ∈ ((begin o p m outside).stages o p l turns).flatMap (turnWords o p l),
      Operation.ofWord? w ≠ some .getDelayTimer) :
    ∃ s report h report' told,
      whole o p l turns m outside = ⟨s, some (.ok report)⟩ ∧
      m.runHeadless limit perTick span = (h, .ok report', told) ∧
      report'.instructions = report.instructions ∧ report'.fault = report.fault ∧
      h.cycles = s.machine.cycles ∧
      h = { s.machine with state := { s.machine.state with
        delayTimer := h.state.delayTimer
        soundTimer := h.state.soundTimer
        displayChanged := h.state.displayChanged } } := by
  have hplain := plain_of_loop hpoll hlimit hloop hexit hwords
  obtain ⟨n, notices, hsteps, hbare⟩ := hplain.steps
  obtain ⟨h, report', told, hrun, hh, hinstructions, hfault⟩ :=
    Machine.runHeadless_of_steps hperTick span hsteps hplain.words
  have hwhole : whole o p l turns m outside = r.conclude o exit := by
    rw [whole, hloop]
  have hsame : h.bare = r.machine.bare := hh.trans hbare
  have hcycles : h.bare.cycles = r.machine.bare.cycles := congrArg Machine.cycles hsame
  rcases hexit with rfl | ⟨f, rfl⟩
  · exact ⟨_, _, h, report', told, hwhole, hrun, hinstructions, hfault, hcycles,
      Machine.eq_of_bare_eq hsame⟩
  · exact ⟨_, _, h, report', told, hwhole, hrun, hinstructions, hfault, hcycles,
      Machine.eq_of_bare_eq hsame⟩

/-- Did the limit end the run? -/
def atLimit : Exit → Bool
  | .instructionLimit => true
  | _ => false

theorem eq_of_atLimit {exit : Exit} (h : atLimit exit = true) : exit = .instructionLimit := by
  cases exit with
  | instructionLimit => rfl
  | timeUp | quit | stopped | fault | failed => cases h

/-- The circling machine with a timer that is running. -/
def timed : Machine :=
  { Machine.circling with state := { Machine.circling.state with delayTimer := 9 } }

/-- Two instructions by the clock are two without it, and only the timers tell the two
runs apart. -/
theorem drivers_agree_on_timed :
    ∃ s report h report' told,
      whole steady unitPlan { instructions := some 2 } 4 timed 0 = ⟨s, some (.ok report)⟩ ∧
      timed.runHeadless 2 2 0.5 = (h, .ok report', told) ∧
      report'.instructions = report.instructions ∧ h.cycles = s.machine.cycles ∧
      h.state = { s.machine.state with
        delayTimer := h.state.delayTimer
        soundTimer := h.state.soundTimer
        displayChanged := h.state.displayChanged } ∧
      s.machine.state.delayTimer = 7 ∧ h.state.delayTimer = 8 := by
  let l : Limits ℚ := { instructions := some (2 : Nat) }
  have htwo : (0 : Int) < 2 := by decide
  have hend : ((begin steady unitPlan timed 0).loop steady unitPlan l 4).2.any atLimit = true := by
    decide +kernel
  have hwords : ∀ w ∈ ((begin steady unitPlan timed 0).stages steady unitPlan l 4).flatMap
      (turnWords steady unitPlan l), Operation.ofWord? w ≠ some .getDelayTimer := by
    have hjumps : ((begin steady unitPlan timed 0).stages steady unitPlan l 4).flatMap
        (turnWords steady unitPlan l) = List.replicate 2 0x1000 := by
      decide +kernel
    intro w hw
    rw [hjumps] at hw
    rw [List.eq_of_mem_replicate hw]
    decide
  have hscheduled : (whole steady unitPlan l 4 timed 0).run.machine.state.delayTimer = 7 := by
    decide +kernel
  have hheadless : (timed.runHeadless (2 : Nat) 2 0.5).1.state.delayTimer = 8 := by
    decide +kernel
  rcases hloop : (begin steady unitPlan timed 0).loop steady unitPlan l 4 with ⟨r, _ | exit⟩
  · rw [hloop] at hend
    cases hend
  · rw [hloop] at hend
    obtain rfl := eq_of_atLimit hend
    obtain ⟨s, report, h, report', told, hwhole, hrun, hinstructions, -, hcycles, hh⟩ :=
      drivers_agree htwo 0.5 (fun _ _ => rfl) rfl hloop (.inl rfl) hwords
    rw [hwhole] at hscheduled
    rw [hrun] at hheadless
    exact ⟨s, report, h, report', told, hwhole, hrun, hinstructions, hcycles,
      congrArg Machine.state hh, hscheduled, hheadless⟩

end Run
end ChipEight
