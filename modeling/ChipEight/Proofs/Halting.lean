/-
A machine that faulted.

A fault is kept, and from then on every cycle is refused with it, although the state
goes on changing: the timers count down, keys are pressed and the display is taken. The
fault would be a false account of such a state if one of these changes could reach the
word that faulted. None can. What a fault depends on is the program counter, the
memory, the call stack and the index (`CycleFault`), and only a cycle or a start changes
those. `Machine.Stuck` is the mode of a machine with a fault, and the main statement
says how it is entered, that it is truthful, and that only a start ends it.
-/
import ChipEight.Proofs.Invariant
import ChipEight.Proofs.Transcripts

set_option autoImplicit false

namespace ChipEight

/-! ## What a fault depends on -/

theorem Meets.sameInside {s t : State} {w : UInt16} {c : Cause} (h : Meets s w c)
    (hst : s.SameInside t) : Meets t w c := by
  rw [hst]
  cases h with
  | invalidOpcode hw => exact .invalidOpcode hw
  | stackOverflow hw hp => exact .stackOverflow hw hp
  | stackUnderflow hw hp => exact .stackUnderflow hw hp
  | memoryRange hl hr => exact .memoryRange hl hr

theorem CycleFault.sameInside {s t : State} {f : Fault} (h : CycleFault s f)
    (hst : s.SameInside t) : CycleFault t f := by
  cases h with
  | fetch hpc =>
    rw [hst]
    exact .fetch hpc
  | word hpc w c hw hc =>
    have hmeets := hc.sameInside hst
    rw [hst] at hmeets ⊢
    refine .word ?_ w c ?_ hmeets
    · exact hpc
    · exact hw

theorem CycleFault.address_eq {s : State} {f : Fault} (h : CycleFault s f) :
    f.address = some (s.pc.toNat : Int) := by
  cases h with
  | fetch hpc => rfl
  | word hpc w c hw hc => rfl

namespace Machine

variable {m n : Machine} {f : Fault}

/-! ## The mode of a machine with a fault -/

/-- A machine that is halted by the fault which its next cycle would meet. -/
structure Stuck (m : Machine) (f : Fault) : Prop where
  fault_eq : m.fault = some f
  latch : m.state.latch.code = noFault
  meets : CycleFault m.state f

/-- Every move but a start leaves a stuck machine stuck. -/
theorem Stuck.move {e : Event} (h : m.Stuck f) (hm : Move m e n) (he : e.starts = false) :
    n.Stuck f := by
  cases hm with
  | load ht => cases he
  | reset ht => cases he
  -- A machine with a fault neither completes a cycle nor meets another fault.
  | cycle hnone ht =>
    rw [h.fault_eq] at hnone
    cases hnone
  | fault hnone hs =>
    rw [h.fault_eq] at hnone
    cases hnone
  | pass _ hst =>
    refine ⟨h.fault_eq, ?_, h.meets.sameInside hst⟩
    rw [hst]
    exact h.latch

/-- **Stuck until a start.** -/
theorem Stuck.after (h : m.Stuck f) (actions : List Action)
    (hactions : ∀ e ∈ m.transcript actions, e.starts = false) : (m.after actions).Stuck f := by
  induction actions generalizing m with
  | nil => exact h
  | cons a actions ih =>
    rw [after_cons]
    rw [transcript] at hactions
    have hfirst := hactions (m.event a) (List.mem_cons_self ..)
    exact ih (h.move (m.move_perform a) hfirst)
      fun e he => hactions e (List.mem_cons_of_mem _ he)

/-- A machine whose fault, if it has one, is the fault it is stuck at. -/
def Truthful (m : Machine) : Prop :=
  ∀ f, m.fault = some f → m.Stuck f

/-- A fault is truthful when it occurs, if nothing was noted before the cycle. -/
theorem Truthful.move {e : Event} (h : m.Truthful) (hclear : m.state.latch.code = noFault)
    (hm : Move m e n) : n.Truthful := by
  intro f hf
  cases hm with
  | load ht => cases hf
  | reset ht => cases hf
  | cycle hnone ht =>
    rw [hnone] at hf
    cases hf
  | fault hnone hs =>
    cases hf
    exact ⟨rfl, hclear, (State.step_eq_error_iff hclear _).mp hs⟩
  | pass he hst => exact (h f hf).move (.pass he hst) he.1

/-- No history ends with a fault that is not the one of the state. -/
theorem truthful_after {program : List UInt8} {seed : Int} {notices : List Notice}
    (h : create program seed = .ok (m, notices)) (actions : List Action) :
    (m.after actions).Truthful := by
  induction actions using List.reverseRecOn with
  | nil =>
    obtain ⟨key, -, -, rfl⟩ := create_eq_ok h
    intro f hf
    cases hf
  | append_singleton actions a ih =>
    have hsound := sound_after h actions
    rw [after_concat]
    exact ih.move (hsound.latch ▸ rfl) ((m.after actions).move_perform a)

/-! ## Every history -/

/-- A cycle that is refused leaves everything as it was, and its fault is kept. -/
theorem machine_of_step_fault (h : (m.perform .step).answer = .error (.fault f)) :
    (m.perform .step).machine = { m with fault := some f } := by
  rcases hf : m.fault with _ | g
  · rcases hs : m.state.step with g | t
    · rw [perform_step_of_fault hf hs] at h ⊢
      cases h
      rfl
    · rw [perform_step_of_ok hf hs] at h
      cases h
  · rw [perform_step_of_halted hf] at h ⊢
    cases h
    rw [← hf]

/-- **A fault halts a machine and stays true of it.** After every history the machine
counts the cycles completed since its last start, and if its next cycle is refused with
a fault, that fault is all that changes. From then on, as long as no start succeeds, the
fault is kept, and a cycle is refused with it, changes nothing and reports nothing. And
the fault goes on describing the state there is: it tells its program counter, and a
cycle from that state alone would meet it again. -/
theorem fault_halts {program : List UInt8} {seed : Int} {notices : List Notice}
    (h : create program seed = .ok (m, notices)) (actions : List Action) :
    (m.after actions).cycles = completedSinceStart (m.transcript actions) ∧
      ∀ f, ((m.after actions).perform .step).answer = .error (.fault f) →
        m.after (actions ++ [.step]) = { m.after actions with fault := some f } ∧
          ∀ later, (∀ e ∈ (m.after (actions ++ [.step])).transcript later, e.starts = false) →
            ∀ n, n = m.after (actions ++ [.step] ++ later) →
              n.fault = some f ∧ n.perform .step = ⟨n, .error (.fault f), []⟩ ∧
                f.address = some (n.state.pc.toNat : Int) ∧ n.state.step = .error f := by
  constructor
  · obtain ⟨key, -, -, rfl⟩ := create_eq_ok h
    exact cycles_after rfl actions
  · intro f hf
    have hfaulted := machine_of_step_fault hf
    rw [← after_concat] at hfaulted
    refine ⟨hfaulted, ?_⟩
    rintro later hlater n rfl
    -- The machine that faulted is itself the end of a history, so its fault is truthful.
    have hstuck := truthful_after h (actions ++ [.step]) f (hfaulted ▸ rfl)
    have hlate := hstuck.after later hlater
    rw [after_append]
    exact ⟨hlate.fault_eq, perform_step_of_halted hlate.fault_eq, hlate.meets.address_eq,
      (State.step_eq_error_iff hlate.latch f).mpr hlate.meets⟩

/-- A return without a call, and what is tried after it: a tick, a key, a program that is
too large, and another cycle. -/
theorem fault_halts_return :
    ∃ m notices, create [0x00, 0xEE] 0 = .ok (m, notices) ∧
      (∀ e ∈ (m.after [.step]).transcript
          [.tick, .press 5, .load (List.replicate 3585 0) "large", .step], e.starts = false) ∧
      ∀ n, n = m.after ([] ++ [.step] ++
          [.tick, .press 5, .load (List.replicate 3585 0) "large", .step]) →
        n.perform .step =
          ⟨n, .error (.fault ⟨.stackUnderflow, some 0x00EE, some 0x200⟩), []⟩ := by
  have h : create [0x00, 0xEE] 0 = .ok _ := rfl
  refine ⟨_, _, h, ?quiet, fun n hn => (((fault_halts h []).2 _ ?fault).2 _ ?quiet n hn).2.1⟩
  case quiet => decide +kernel
  case fault =>
    refine congrArg Reply.answer
      (perform_step_of_fault rfl ((State.step_eq_error_iff rfl _).mpr ?_))
    refine .word ?_ 0x00EE .stackUnderflow ?_ (.stackUnderflow rfl ?_)
    all_goals decide +kernel

end Machine
end ChipEight
