/-
Cycles in a row.

A run takes its instructions in batches, and `Machine.steps` is one batch: so many
cycles, fewer if one faults. This file says what a batch comes to and how two batches
in a row make one, so that a run can be compared with the plain sequence of its cycles
wherever the batches were cut.

`Machine.words` lists the words that a batch carries out. A cycle that faults carries
out nothing, so its word is not among them.
-/
import ChipEight.Machine

set_option autoImplicit false

namespace ChipEight.Machine

/-! ## One cycle -/

/-- What a cycle comes to, with what is reported. -/
inductive Stepped (m : Machine) : Machine → Option Fault → List Notice → Prop where
  | halted {f : Fault} : m.fault = some f → Stepped m m (some f) []
  | faulted {f : Fault} : m.fault = none → m.state.step = .error f →
      Stepped m { m with fault := some f } (some f) [.faulted f, .registers "ERROR" m.state]
  | done {t : State} : m.fault = none → m.state.step = .ok t →
      Stepped m { m with state := t, cycles := m.cycles + 1 } none []

theorem stepped_step (m : Machine) : Stepped m m.step.1 m.step.2.1 m.step.2.2 := by
  rcases hf : m.fault with _ | f
  · rcases hs : m.state.step with f | t
    · have hstep : m.step = ({ m with fault := some f }, some f,
          [.faulted f, .registers "ERROR" m.state]) := by
        rw [step, hf, hs]
      rw [hstep]
      exact .faulted hf hs
    · have hstep : m.step = ({ m with state := t, cycles := m.cycles + 1 }, none, []) := by
        rw [step, hf, hs]
      rw [hstep]
      exact .done hf hs
  · have hstep : m.step = (m, some f, []) := by
      rw [step, hf]
    rw [hstep]
    exact .halted hf

variable {m n : Machine} {fault : Option Fault} {notices : List Notice}

theorem stepped_of_step (h : m.step = (n, fault, notices)) : Stepped m n fault notices := by
  have hstep := m.stepped_step
  rw [h] at hstep
  exact hstep

/-! ## A batch -/

/-- The words that the next so many cycles carry out. -/
def words (m : Machine) : Nat → List UInt16
  | 0 => []
  | count + 1 =>
    match m.step with
    | (_, some _, _) => []
    | (next, none, _) => m.state.memory.word m.state.pc.toNat :: next.words count

theorem steps_succ_of_fault {f : Fault} (h : m.step = (n, some f, notices)) (count : Nat) :
    m.steps (count + 1) = (n, 0, some f, notices) := by
  rw [steps, h]

theorem steps_succ_of_done (h : m.step = (n, none, notices)) (count : Nat) :
    m.steps (count + 1) = ((n.steps count).1, (n.steps count).2.1 + 1, (n.steps count).2.2.1,
      notices ++ (n.steps count).2.2.2) := by
  rw [steps, h]

theorem words_succ_of_fault {f : Fault} (h : m.step = (n, some f, notices)) (count : Nat) :
    m.words (count + 1) = [] := by
  rw [words, h]

theorem words_succ_of_done (h : m.step = (n, none, notices)) (count : Nat) :
    m.words (count + 1) = m.state.memory.word m.state.pc.toNat :: n.words count := by
  rw [words, h]

/-- What a batch of `count` cycles comes to: it is complete and reports nothing, or it
ends at a fault, which is then the fault of the machine. -/
structure Batched (m : Machine) (count : Nat) (n : Machine) (done : Nat)
    (fault : Option Fault) (notices : List Notice) : Prop where
  cycles : n.cycles = m.cycles + done
  complete : fault = none → done = count ∧ notices = []
  halted : ∀ f, fault = some f → done < count ∧ n.fault = some f
  reported : ∀ x ∈ notices,
    (∃ f, x = .faulted f) ∨ ∃ label s, x = .registers label s

theorem batched_steps (m : Machine) (count : Nat) :
    Batched m count (m.steps count).1 (m.steps count).2.1 (m.steps count).2.2.1
      (m.steps count).2.2.2 := by
  induction count generalizing m with
  | zero => exact ⟨rfl, fun _ => ⟨rfl, rfl⟩, by simp [steps], by simp [steps]⟩
  | succ count ih =>
    rcases hstep : m.step with ⟨n, _ | f, notices⟩
    · -- The first cycle is done and reports nothing; the rest is a batch of its own.
      rw [steps_succ_of_done hstep]
      have hrest := ih n
      cases stepped_of_step hstep with
      | done hf hs =>
        refine ⟨?_, ?_, ?_, ?_⟩
        · rw [hrest.cycles]
          dsimp only
          omega
        · intro hnone
          obtain ⟨hdone, hquiet⟩ := hrest.complete hnone
          exact ⟨congrArg (· + 1) hdone, hquiet⟩
        · intro f hf
          obtain ⟨hlt, hfault⟩ := hrest.halted f hf
          exact ⟨Nat.succ_lt_succ hlt, hfault⟩
        · exact hrest.reported
    · rw [steps_succ_of_fault hstep]
      cases stepped_of_step hstep with
      | halted hf => exact ⟨rfl, nofun, fun g hg => ⟨Nat.succ_pos _, hg ▸ hf⟩, nofun⟩
      | faulted hf hs =>
        refine ⟨rfl, nofun, fun g hg => ⟨Nat.succ_pos _, hg⟩, ?_⟩
        intro x hx
        rw [List.mem_cons, List.mem_singleton] at hx
        rcases hx with rfl | rfl
        · exact .inl ⟨f, rfl⟩
        · exact .inr ⟨_, _, rfl⟩

theorem batched_of_steps {count done : Nat} (h : m.steps count = (n, done, fault, notices)) :
    Batched m count n done fault notices := by
  have hbatch := m.batched_steps count
  rw [h] at hbatch
  exact hbatch

theorem Batched.done_le {count done : Nat} (h : Batched m count n done fault notices) :
    done ≤ count := by
  rcases fault with _ | f
  · exact Nat.le_of_eq (h.complete rfl).1
  · exact Nat.le_of_lt (h.halted f rfl).1

/-- A machine that jumps in place, at the first address. -/
def circling : Machine :=
  { seed := 0, key := ⟨0, 0⟩, program := []
    state := { State.fresh ⟨0, 0⟩ with
      memory := (Vector.replicate 4096 0).setIfInBounds 0 0x10
      pc := 0 }
    fault := none, cycles := 0 }

/-! ## Two batches in a row -/

/-- Behind a complete batch the next one goes on. -/
theorem steps_add {a : Nat} (h : m.steps a = (n, a, none, notices)) (b : Nat) :
    m.steps (a + b) = ((n.steps b).1, a + (n.steps b).2.1, (n.steps b).2.2.1,
      (n.steps b).2.2.2) ∧ m.words (a + b) = m.words a ++ n.words b := by
  -- The first cycle is taken off the front, since that is where a batch begins.
  induction a generalizing m notices with
  | zero =>
    cases h
    rw [Nat.zero_add]
    refine ⟨?_, rfl⟩
    rw [Nat.zero_add]
  | succ a ih =>
    rcases hstep : m.step with ⟨next, _ | f, quiet⟩
    · have hquiet : quiet = [] := by
        cases stepped_of_step hstep with
        | done => rfl
      subst hquiet
      rw [steps_succ_of_done hstep] at h
      have hrest : next.steps a = (n, a, none, notices) := by
        rcases hs : next.steps a with ⟨last, done, fault, more⟩
        rw [hs] at h
        simpa using h
      obtain ⟨hsteps, hwords⟩ := ih hrest
      rw [Nat.add_right_comm, steps_succ_of_done hstep, words_succ_of_done hstep,
        words_succ_of_done hstep, hsteps, hwords]
      refine ⟨?_, rfl⟩
      rw [Nat.add_right_comm]
      rfl
    · rw [steps_succ_of_fault hstep] at h
      cases h

/-- Behind a fault nothing is done any more. -/
theorem steps_add_of_fault {a done : Nat} {f : Fault}
    (h : m.steps a = (n, done, some f, notices)) (b : Nat) :
    m.steps (a + b) = (n, done, some f, notices) ∧ m.words (a + b) = m.words a := by
  induction a generalizing m notices done with
  | zero => cases h
  | succ a ih =>
    rcases hstep : m.step with ⟨next, _ | g, first⟩
    · rw [steps_succ_of_done hstep] at h
      rcases hs : next.steps a with ⟨last, count, fault, more⟩
      rw [hs] at h
      cases h
      obtain ⟨hsteps, hwords⟩ := ih hs
      rw [Nat.add_right_comm, steps_succ_of_done hstep, words_succ_of_done hstep,
        words_succ_of_done hstep, hsteps, hwords]
      exact ⟨rfl, rfl⟩
    · rw [steps_succ_of_fault hstep] at h
      cases h
      rw [Nat.add_right_comm, steps_succ_of_fault hstep, words_succ_of_fault hstep,
        words_succ_of_fault hstep]
      exact ⟨rfl, rfl⟩

end ChipEight.Machine
