/-
What the timers and the flag of the display have no part in.

The timers count down and the display is taken at moments that a program does not
choose. Only one operation tells it about them: FX07 reads the delay timer. Without it
two states that differ in the timers and in the flag of the display go on alike, cycle
by cycle, and fault alike.

`State.bare` is a state without these three fields, and two states are compared by
comparing what is left of them. For a fault the condition on FX07 is not needed: what an
operation meets is read off the other fields.
-/
import ChipEight.Proofs.Batches
import ChipEight.Proofs.Faults

set_option autoImplicit false

namespace ChipEight

/-! ## Bare states -/

namespace State

/-- The state without its timers and without the flag of the display. -/
def bare (s : State) : State :=
  { s with delayTimer := 0, soundTimer := 0, displayChanged := false }

@[simp] theorem bare_memory (s : State) : s.bare.memory = s.memory := rfl

@[simp] theorem bare_pc (s : State) : s.bare.pc = s.pc := rfl

@[simp] theorem bare_I (s : State) : s.bare.I = s.I := rfl

@[simp] theorem bare_reg (s : State) (r : Fin 16) : s.bare.reg r = s.reg r := rfl

/-- What equal bare states leave open. -/
theorem eq_of_bare_eq {s t : State} (h : s.bare = t.bare) :
    s = { t with
      delayTimer := s.delayTimer
      soundTimer := s.soundTimer
      displayChanged := s.displayChanged } := by
  cases s
  cases t
  cases h
  rfl

/-! ## Handlers

The three handlers below look at the state in more than one place, and the rest of what
an operation does to a bare state is seen by unfolding it. Range and drawing are kept
folded: unfolding a drawing to compare two flags would carry it out. -/

theorem bare_skipIf (s : State) (c : Bool) : (s.bare.skipIf c).bare = (s.skipIf c).bare := by
  rw [skipIf_eq, skipIf_eq]
  rfl

theorem bare_setResult (s : State) (x : Fin 16) (r : Arithmetic.Result) :
    (s.bare.setResult x r).bare = (s.setResult x r).bare := by
  unfold setResult
  rcases r.flag with _ | flag
  · rfl
  · rfl

theorem noteRange_bare_latch (s : State) (length : Nat) :
    (s.bare.noteRange length).latch = (s.noteRange length).latch := rfl

theorem bare_withMemory (s : State) (M : Memory) (l : FaultLatch) :
    { s.bare with memory := M, latch := l }.bare = { s with memory := M, latch := l }.bare := rfl

theorem bare_binaryCodedDecimal (s : State) (f : Operands) :
    (s.bare.binaryCodedDecimal f).bare = (s.binaryCodedDecimal f).bare := by
  rw [binaryCodedDecimal, binaryCodedDecimal, noteRange_withMemory, noteRange_withMemory,
    noteRange_bare_latch, bare_withMemory, bare_memory, bare_I, bare_reg]

theorem bare_drawing (s : State) (f : Operands) : s.bare.drawing f = s.drawing f := by
  rw [drawing, drawing, bare_memory, bare_I, bare_reg, bare_reg]
  rfl

/-- Whatever the flag of the display comes to, it is not part of a bare state. -/
theorem bare_withDisplay (s : State) (V : Vector UInt8 16) (g : Grid) (c d : Bool)
    (l : FaultLatch) :
    { s.bare with V := V, display := g, displayChanged := c, latch := l }.bare =
      { s with V := V, display := g, displayChanged := d, latch := l }.bare := rfl

theorem bare_draw (s : State) (f : Operands) : (s.bare.draw f).bare = (s.draw f).bare := by
  rw [draw_eq, draw_eq, bare_drawing, noteRange_bare_latch]
  exact s.bare_withDisplay _ _ _ _ _

end State

/-! ## One cycle -/

namespace Operation

variable {o : Operation} (s : State) (f : Operands)

theorem hazard?_bare (o : Operation) : o.hazard? s.bare f = o.hazard? s f := by
  cases o <;> rfl

/-- Only FX07 carries anything of the timers or of the flag to another field. -/
theorem bare_run (h : o ≠ .getDelayTimer) : (o.run s.bare f).bare = (o.run s f).bare := by
  cases o
  case getDelayTimer => exact absurd rfl h
  case binaryCodedDecimal => exact s.bare_binaryCodedDecimal f
  case draw => exact s.bare_draw f
  case skipIfEqualImmediate | skipIfNotEqualImmediate | skipIfEqualRegister
      | skipIfNotEqualRegister | skipIfKey | skipIfNotKey => exact s.bare_skipIf _
  case copyRegister | bitwiseOr | bitwiseAnd | bitwiseXor | add | subtract | shiftRight
      | reverseSubtract | shiftLeft => exact s.bare_setResult _ _
  all_goals rfl

end Operation

namespace State

variable {s t u : State} {f : Fault}

theorem hazard?_bare (s : State) (w : UInt16) : s.bare.hazard? w = s.hazard? w := by
  rw [hazard?, hazard?]
  rcases Operation.ofWord? w with _ | o
  · rfl
  · exact Operation.hazard?_bare s _ o

theorem bare_dispatch (s : State) {w : UInt16}
    (h : Operation.ofWord? w ≠ some .getDelayTimer) :
    (s.bare.dispatch w).bare = (s.dispatch w).bare := by
  unfold dispatch
  rcases ho : Operation.ofWord? w with _ | o
  · rfl
  · have hne : o ≠ .getDelayTimer := by
      rintro rfl
      exact h ho
    exact Operation.bare_run s _ hne

/-- The state in which a cycle dispatches its word: what the fetch noted is in it. -/
def fetched (s : State) : State :=
  (s.note (!Memory.inRange s.pc.toNat 2) (Cause.memoryRange 0 0).code s.pc.toNat 2).past

theorem cycle_eq (s : State) :
    s.cycle = (s.fetched.dispatch (s.memory.word s.pc.toNat), s.memory.word s.pc.toNat) := by
  rw [cycle, fetched]
  rfl

theorem bare_note (s : State) (c : Bool) (code start length : Int) :
    (s.note c code start length).bare = s.bare.note c code start length := rfl

theorem bare_past (s : State) : s.past.bare = s.bare.past := rfl

theorem bare_fetched (s : State) : s.fetched.bare = s.bare.fetched := by
  rw [fetched, fetched, bare_past, bare_note]
  rfl

theorem cycle_bare_latch (s : State) : s.bare.cycle.1.latch = s.cycle.1.latch := by
  rw [cycle_eq, cycle_eq, ← bare_fetched, dispatch_latch, dispatch_latch, hazard?_bare]
  rfl

/-- A cycle of a bare state faults exactly when that of the state does. -/
theorem step_bare_eq_error_iff : s.bare.step = .error f ↔ s.step = .error f := by
  rw [step_eq_commit, step_eq_commit, commit, commit, cycle_bare_latch]
  rcases s.cycle.1.latch.cause? with _ | c
  · simp
  · exact Iff.rfl

/-- It ends as that of the state does, if the word is not FX07. -/
theorem step_bare_eq_ok (h : s.step = .ok t)
    (hword : Operation.ofWord? (s.memory.word s.pc.toNat) ≠ some .getDelayTimer) :
    ∃ u, s.bare.step = .ok u ∧ u.bare = t.bare := by
  rw [step_eq_commit, commit] at h
  rw [step_eq_commit, commit, cycle_bare_latch]
  rcases hcause : s.cycle.1.latch.cause? with _ | c
  · rw [hcause] at h
    cases h
    refine ⟨_, rfl, ?_⟩
    rw [cycle_eq, cycle_eq, ← bare_fetched]
    exact s.fetched.bare_dispatch hword
  · rw [hcause] at h
    cases h

theorem step_error_of_bare_eq (hst : s.bare = t.bare) (h : s.step = .error f) :
    t.step = .error f := by
  rw [← step_bare_eq_error_iff, ← hst]
  exact step_bare_eq_error_iff.mpr h

theorem word_of_bare_eq (hst : s.bare = t.bare) :
    s.memory.word s.pc.toNat = t.memory.word t.pc.toNat := by
  rw [← s.bare_memory, ← s.bare_pc, hst]
  rfl

theorem step_ok_of_bare_eq (hst : s.bare = t.bare) (h : s.step = .ok u)
    (hword : Operation.ofWord? (s.memory.word s.pc.toNat) ≠ some .getDelayTimer) :
    ∃ v, t.step = .ok v ∧ u.bare = v.bare := by
  rcases ht : t.step with f | v
  · rw [step_error_of_bare_eq hst.symm ht] at h
    cases h
  · -- Both end as the cycle of the bare state they share.
    obtain ⟨a, ha, hau⟩ := step_bare_eq_ok h hword
    obtain ⟨b, hb, hbv⟩ := step_bare_eq_ok ht (word_of_bare_eq hst ▸ hword)
    rw [hst, hb] at ha
    cases ha
    exact ⟨v, rfl, hau.symm.trans hbv⟩

end State

/-! ## Cycles in a row -/

namespace Machine

/-- The machine with the bare state. -/
def bare (m : Machine) : Machine :=
  { m with state := m.state.bare }

variable {m n m' : Machine} {notices : List Notice} {f : Fault}

theorem fault_of_bare_eq (h : m.bare = n.bare) : m.fault = n.fault := by
  have hfault := congrArg Machine.fault h
  exact hfault

theorem step_fault_of_bare_eq (h : m.bare = n.bare) (hstep : m.step = (m', some f, notices)) :
    ∃ n' more, n.step = (n', some f, more) ∧ m'.bare = n'.bare := by
  have hstate : m.state.bare = n.state.bare := congrArg Machine.state h
  have hfault : m.fault = n.fault := fault_of_bare_eq h
  cases stepped_of_step hstep with
  | halted hf =>
    have hn : n.step = (n, some f, []) := by
      rw [step, ← hfault, hf]
    exact ⟨_, _, hn, h⟩
  | faulted hf hs =>
    have hn : n.step = ({ n with fault := some f }, some f,
        [.faulted f, .registers "ERROR" n.state]) := by
      rw [step, ← hfault, hf, State.step_error_of_bare_eq hstate hs]
    exact ⟨_, _, hn, congrArg (fun x : Machine => { x with fault := some f }) h⟩

theorem step_done_of_bare_eq (h : m.bare = n.bare) (hstep : m.step = (m', none, notices))
    (hword : Operation.ofWord? (m.state.memory.word m.state.pc.toNat) ≠ some .getDelayTimer) :
    ∃ n' more, n.step = (n', none, more) ∧ m'.bare = n'.bare := by
  have hstate : m.state.bare = n.state.bare := congrArg Machine.state h
  have hfault : m.fault = n.fault := fault_of_bare_eq h
  cases stepped_of_step hstep with
  | done hf hs =>
    obtain ⟨v, hv, hbare⟩ := State.step_ok_of_bare_eq hstate hs hword
    have hn : n.step = ({ n with state := v, cycles := n.cycles + 1 }, none, []) := by
      rw [step, ← hfault, hf, hv]
    refine ⟨_, _, hn, ?_⟩
    have hrest := congrArg (fun x : Machine => { x with state := v.bare, cycles := x.cycles + 1 }) h
    rw [bare, hbare]
    exact hrest

/-- **Machines that differ in the timers and the flag go on alike** as long as no FX07 is
carried out: as many cycles, the same words, the same fault, and in the end they still
differ in nothing else. -/
theorem steps_of_bare_eq (h : m.bare = n.bare) (count : Nat)
    (hwords : ∀ w ∈ m.words count, Operation.ofWord? w ≠ some .getDelayTimer) :
    (m.steps count).1.bare = (n.steps count).1.bare ∧
      (m.steps count).2.1 = (n.steps count).2.1 ∧
      (m.steps count).2.2.1 = (n.steps count).2.2.1 ∧ m.words count = n.words count := by
  induction count generalizing m n with
  | zero => exact ⟨h, rfl, rfl, rfl⟩
  | succ count ih =>
    rcases hstep : m.step with ⟨m', _ | f, notices⟩
    · rw [words_succ_of_done hstep] at hwords
      obtain ⟨hfirst, hrest⟩ := List.forall_mem_cons.mp hwords
      obtain ⟨n', more, hn, hbare⟩ := step_done_of_bare_eq h hstep hfirst
      obtain ⟨hmachine, hdone, hfault, hsame⟩ := ih hbare hrest
      rw [steps_succ_of_done hstep, steps_succ_of_done hn, words_succ_of_done hstep,
        words_succ_of_done hn, hsame, State.word_of_bare_eq (congrArg Machine.state h)]
      exact ⟨hmachine, congrArg (· + 1) hdone, hfault, rfl⟩
    · obtain ⟨n', more, hn, hbare⟩ := step_fault_of_bare_eq h hstep
      rw [steps_succ_of_fault hstep, steps_succ_of_fault hn, words_succ_of_fault hstep,
        words_succ_of_fault hn]
      exact ⟨hbare, rfl, rfl, rfl⟩

end Machine
end ChipEight
