/-
A machine that starts with a program.

A load replaces everything but the seed: what comes out is `Machine.booted`, whatever
was there before. Creating a machine comes to the same, although it leaves the load out
where there is no program, and a reset is a load of the program there is. So the three
of them are told apart by what they report and not by the machine they leave.
-/
import ChipEight.Proofs.Histories
import ChipEight.Proofs.Memory

set_option autoImplicit false

namespace ChipEight.Machine

/-- The machine that has just started with a program. -/
def booted (seed : Int) (key : RandomKey) (program : List UInt8) : Machine where
  seed := seed
  key := key
  program := program
  state := { State.fresh key with memory := Memory.fresh.store programStart program }
  fault := none
  cycles := 0

/-- A load of a program that fits starts over, and reports its source. -/
theorem load_of_le (m : Machine) {program : List UInt8} (h : program.length ≤ maxProgramSize)
    (source : String) :
    m.load program source =
      .ok (booted m.seed m.key program, [.loaded source program.length]) := by
  have hmemory : (State.fresh m.key).memory.loadProgram program = _ :=
    Memory.fresh.loadProgram_of_le h
  rw [load, State.loadProgram, hmemory]
  rfl

theorem load_of_lt (m : Machine) {program : List UInt8} (h : maxProgramSize < program.length)
    (source : String) :
    m.load program source = .error (.programTooLarge program.length) := by
  have hmemory : (State.fresh m.key).memory.loadProgram program = _ :=
    Memory.fresh.loadProgram_of_lt h
  rw [load, State.loadProgram, hmemory]
  rfl

theorem perform_load_of_le (m : Machine) {program : List UInt8}
    (h : program.length ≤ maxProgramSize) (source : String) :
    m.perform (.load program source) =
      ⟨booted m.seed m.key program, .ok .done, [.loaded source program.length]⟩ := by
  rw [perform, m.load_of_le h]
  rfl

theorem perform_load_of_lt (m : Machine) {program : List UInt8}
    (h : maxProgramSize < program.length) (source : String) :
    m.perform (.load program source) = ⟨m, .error (.programTooLarge program.length), []⟩ := by
  rw [perform, m.load_of_lt h]
  rfl

/-- A reset is a load of the program there is. -/
theorem perform_reset (m : Machine) :
    m.perform .reset = m.perform (.load m.program "reset") := rfl

/-- A machine is created as a start with its program, also where the program is empty and
the load is left out. -/
theorem create_eq {seed : Int} {key : RandomKey} (hkey : RandomKey.ofSeed seed = .ok key)
    (program : List UInt8) :
    create program seed =
      if maxProgramSize < program.length then .error (.programTooLarge program.length)
      else .ok (booted seed key program,
        if program.isEmpty then [] else [.loaded "program" program.length]) := by
  have hseed : ofSeed seed = .ok (booted seed key []) := by
    rw [ofSeed, hkey, booted, Memory.store]
    rfl
  simp only [create, hseed, bind, Except.bind]
  by_cases hempty : program.isEmpty
  · obtain rfl := List.isEmpty_iff.mp hempty
    rfl
  · rw [if_neg hempty, if_neg hempty]
    by_cases hlarge : maxProgramSize < program.length
    · rw [if_pos hlarge, load_of_lt _ hlarge]
    · rw [if_neg hlarge, load_of_le _ (by omega)]
      rfl

/-- What is known of a machine that was created. -/
theorem create_eq_ok {program : List UInt8} {seed : Int} {m : Machine} {notices : List Notice}
    (h : create program seed = .ok (m, notices)) :
    ∃ key, RandomKey.ofSeed seed = .ok key ∧ program.length ≤ maxProgramSize ∧
      m = booted seed key program := by
  have hseed := h
  unfold create at hseed
  obtain ⟨empty, hempty, -⟩ := bind_eq_ok_iff.mp hseed
  obtain ⟨key, hkey, -⟩ := ofSeed_eq_ok hempty
  rw [create_eq hkey] at h
  by_cases hlarge : maxProgramSize < program.length
  · rw [if_pos hlarge] at h
    cases h
  · rw [if_neg hlarge] at h
    cases h
    exact ⟨key, hkey, by omega, rfl⟩

/-- What was loaded is read back. -/
theorem readMemory_booted (seed : Int) (key : RandomKey) {program : List UInt8}
    (h : program.length ≤ maxProgramSize) :
    (booted seed key program).readMemory programStart program.length = .ok program := by
  apply Memory.read_store
  rw [maxProgramSize] at h
  rw [programStart]
  omega

end ChipEight.Machine
