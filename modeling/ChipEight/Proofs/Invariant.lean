/-
What holds of the state after every history.

The bounds lean on each other. A return address is at most 0x1000 because a call is
fetched inside the memory; the program counter is at most 0x10FE because a return
goes to a return address and BNNN adds one byte to an address of twelve bits; the
slots above the pointer are clear because a pop clears what a push wrote. So they
are one invariant, `State.Sound`, and the cycle keeps all of it or none.

The program counter is bounded by 0x10FE and not by the memory: a jump past the end
is carried out, and only the next fetch faults. A cycle that succeeds was fetched
at 0xFFE or below, which is why its arithmetic on the program counter never wraps.
-/
import ChipEight.Proofs.CallStack
import ChipEight.Proofs.Histories
import ChipEight.Proofs.ProgramCounter

set_option autoImplicit false

namespace ChipEight

/-! ## The keypad -/

/-- The latest press, if there is one, is a key that is held. -/
def Keypad.Sound (k : Keypad) : Prop :=
  k.lastPressed = -1 ∨ ∃ (i : Nat) (hi : i < 16), k.lastPressed = i ∧ k.held[i] = true

namespace Keypad

theorem checkKey_eq_ok {key : Int} {i : Nat} (h : checkKey key = .ok i) : key = i ∧ i < 16 := by
  unfold checkKey at h
  split at h
  · cases h
    omega
  · cases h

theorem press_eq_ok {k n : Keypad} {key : Int} (h : k.press key = .ok n) :
    ∃ i : Nat, key = i ∧ i < 16 ∧ n = ⟨k.held.setIfInBounds i true, i⟩ := by
  unfold press at h
  obtain ⟨i, hi, hn⟩ := bind_eq_ok_iff.mp h
  obtain ⟨rfl, hlt⟩ := checkKey_eq_ok hi
  cases hn
  exact ⟨i, rfl, hlt, rfl⟩

theorem release_eq_ok {k n : Keypad} {key : Int} (h : k.release key = .ok n) :
    ∃ i : Nat, key = i ∧ i < 16 ∧
      n = ⟨k.held.setIfInBounds i false, if k.lastPressed = i then -1 else k.lastPressed⟩ := by
  unfold release at h
  obtain ⟨i, hi, hn⟩ := bind_eq_ok_iff.mp h
  obtain ⟨rfl, hlt⟩ := checkKey_eq_ok hi
  cases hn
  exact ⟨i, rfl, hlt, rfl⟩

theorem Sound.press {k n : Keypad} {key : Int} (h : k.press key = .ok n) : n.Sound := by
  obtain ⟨i, -, hi, rfl⟩ := press_eq_ok h
  exact .inr ⟨i, hi, rfl, Vector.getElem_setIfInBounds_self hi⟩

/-- A release takes the latest press away exactly when it lets go of that key. -/
theorem Sound.release {k n : Keypad} {key : Int} (hk : k.Sound) (h : k.release key = .ok n) :
    n.Sound := by
  obtain ⟨i, -, hi, rfl⟩ := release_eq_ok h
  by_cases heq : k.lastPressed = i
  · exact .inl (if_pos heq)
  · rcases hk with hnone | ⟨j, hj, hlast, hheld⟩
    · exact .inl ((if_neg heq).trans hnone)
    · refine .inr ⟨j, hj, (if_neg heq).trans hlast, ?_⟩
      have hne : i ≠ j := by omega
      exact (Vector.getElem_setIfInBounds_ne hj hne).trans hheld

end Keypad

/-! ## The invariant -/

/-- What holds of every state that a machine is ever in. -/
structure State.Sound (s : State) : Prop where
  latch : s.latch = {}
  stack : s.stack.Sound
  index : s.I.toNat ≤ 0xFFF
  pc : s.pc.toNat ≤ 0x10FE
  keypad : s.keypad.Sound

namespace State

theorem sound_fresh (key : RandomKey) : (fresh key).Sound where
  latch := rfl
  stack := CallStack.sound_empty
  index := Nat.zero_le _
  pc := show (0x200 : UInt16).toNat ≤ 0x10FE by decide
  keypad := .inl rfl

/-- A program goes to the memory and nowhere else. -/
theorem loadProgram_eq_ok {s t : State} {program : List UInt8}
    (h : s.loadProgram program = .ok t) :
    ∃ M, s.memory.loadProgram program = .ok M ∧ t = { s with memory := M } := by
  unfold loadProgram at h
  obtain ⟨M, hM, ht⟩ := bind_eq_ok_iff.mp h
  cases ht
  exact ⟨M, hM, rfl⟩

/-- The index stays within twelve bits: a load takes an address, a sum is cut, and the
glyphs lie below. -/
theorem indexAfter_le {s : State} (h : s.I.toNat ≤ 0xFFF) (o : Operation) (f : Operands) :
    (o.indexAfter s f).toNat ≤ 0xFFF := by
  cases o
  case setIndex =>
    have hn := f.nnn.isLt
    have heq := Operation.toNat_ofNat_nnn f 0 (by omega)
    exact Nat.le_trans (Nat.le_of_eq heq) (by omega)
  case addToIndex =>
    have hsum := Nat.mod_lt (s.I.toNat + (s.reg f.x).toNat) (show 0 < 0x1000 by decide)
    have heq : (UInt16.ofNat ((s.I.toNat + (s.reg f.x).toNat) % 0x1000)).toNat = _ :=
      UInt16.toNat_ofNat_of_lt (by simp [UInt16.size]; omega)
    exact Nat.le_trans (Nat.le_of_eq heq) (by omega)
  case fontCharacter =>
    have hdigit := Nat.mod_lt (s.reg f.x).toNat (show 0 < 16 by decide)
    have heq : (UInt16.ofNat (fontStart + (s.reg f.x).toNat % 16 * glyphSize)).toNat = _ :=
      UInt16.toNat_ofNat_of_lt (by simp [UInt16.size, fontStart, glyphSize]; omega)
    exact Nat.le_trans (Nat.le_of_eq heq) (by simp only [fontStart, glyphSize]; omega)
  all_goals exact h

/-- A call without a fault found room. -/
theorem lt_capacity_of_hazard? {s : State} {f : Operands}
    (h : Operation.call.hazard? s f = none) : s.stack.pointer < stackCapacity := by
  rw [Operation.hazard?] at h
  by_cases hfull : (stackCapacity : Int) ≤ s.stack.pointer
  · rw [if_pos hfull] at h
    exact absurd h (Option.some_ne_none _)
  · exact Int.not_le.mp hfull

/-- A return without a fault found an address. -/
theorem pos_of_hazard? {s : State} {f : Operands}
    (h : Operation.returnFromCall.hazard? s f = none) : 0 < s.stack.pointer := by
  rw [Operation.hazard?] at h
  by_cases hempty : s.stack.pointer ≤ 0
  · rw [if_pos hempty] at h
    exact absurd h (Option.some_ne_none _)
  · exact Int.not_le.mp hempty

/-- A call that finds room pushes an address of at most 0x1000, because its word was
fetched inside the memory; a return that finds an address clears its slot. -/
theorem stackAfter_sound {s : State} (h : s.stack.Sound) (hpc : s.pc.toNat ≤ 0xFFE)
    {o : Operation} {f : Operands} (ho : o.hazard? s f = none) :
    (o.stackAfter s.past).Sound := by
  have hpast := toNat_past_pc hpc
  cases o
  case call =>
    -- The address is the program counter behind the call, at most 0x1000.
    exact h.push (lt_capacity_of_hazard? ho) (by omega) (by omega)
  case returnFromCall =>
    exact h.pop (pos_of_hazard? ho)
  all_goals exact h

theorem exactPc_le {s : State} (h : s.stack.Sound) (hpc : s.pc.toNat ≤ 0xFFE)
    {o : Operation} {f : Operands} (ho : o.hazard? s f = none) : o.exactPc s f ≤ 0x10FE := by
  have hn := f.nnn.isLt
  cases o
  case returnFromCall =>
    have hsome := pos_of_hazard? ho
    have htop := (h.slotAt_top hsome).2
    rw [Operation.exactPc, CallStack.pop_of_pos hsome h.pointer_le]
    show ((s.stack.slotAt (s.stack.pointer - 1)).toNat : Int) ≤ 0x10FE
    omega
  case jump | call =>
    show (f.nnn : Int) ≤ 0x10FE
    omega
  case jumpWithOffset =>
    -- The one place where the program counter leaves the memory: 0xFFF and a byte.
    have hV := (s.reg ⟨0, Nat.zero_lt_succ 15⟩).toNat_lt
    show (f.nnn : Int) + (s.reg ⟨0, Nat.zero_lt_succ 15⟩).toNat ≤ 0x10FE
    omega
  all_goals
    simp only [Operation.exactPc]
    split <;> omega

/-- **One change** keeps the invariant. -/
theorem Sound.change {key : RandomKey} {s t : State} (h : s.Sound) (hc : Change key s t) :
    t.Sound := by
  cases hc with
  | nothing => exact h
  | start ht =>
    obtain ⟨M, -, rfl⟩ := loadProgram_eq_ok ht
    have hf := sound_fresh key
    exact ⟨hf.latch, hf.stack, hf.index, hf.pc, hf.keypad⟩
  | cycle ht =>
    -- The cycle succeeded, so it was fetched inside the memory and met nothing.
    obtain ⟨hpc, o, -, hz, rfl⟩ := exists_run_of_step (h.latch ▸ rfl) ht
    refine ⟨?_, ?_, ?_, ?_, ?_⟩
    · rw [Operation.run_latch, past_operation_hazard?, hz]
      exact h.latch
    · rw [Operation.run_stack]
      exact stackAfter_sound h.stack hpc hz
    · rw [Operation.run_index]
      exact indexAfter_le h.index _ _
    · have hexact := Operation.toNat_pcAfter hpc o (Operands.ofWord (s.memory.word s.pc.toNat))
      have hle := exactPc_le h.stack hpc hz
      rw [Operation.run_pc]
      omega
    · rw [Operation.run_keypad]
      exact h.keypad
  | tick => exact ⟨h.latch, h.stack, h.index, h.pc, h.keypad⟩
  | press hk => exact ⟨h.latch, h.stack, h.index, h.pc, .press hk⟩
  | release hk => exact ⟨h.latch, h.stack, h.index, h.pc, h.keypad.release hk⟩
  | releaseAll => exact ⟨h.latch, h.stack, h.index, h.pc, .inl rfl⟩
  | consume => exact ⟨h.latch, h.stack, h.index, h.pc, h.keypad⟩

end State

/-! ## Every history -/

namespace Machine

theorem sound_after {program : List UInt8} {seed : Int} {m : Machine} {notices : List Notice}
    (h : create program seed = .ok (m, notices)) (actions : List Action) :
    (m.after actions).state.Sound :=
  after_create_of_change State.sound_fresh (fun _ _ _ hc hs => hs.change hc) h actions

/-- **The invariant of every history**, whatever is loaded and from whatever seed. A
cycle that then succeeds fetches and goes on at the addresses that integers give, so
nothing it adds to or takes from the program counter wraps. -/
theorem state_sound {program : List UInt8} {seed : Int} {m : Machine} {notices : List Notice}
    (h : create program seed = .ok (m, notices)) (actions : List Action) :
    (m.after actions).state.Sound ∧
      ∀ s t : State, s = (m.after actions).state → s.step = .ok t →
        (s.pc + 2).toNat = s.pc.toNat + 2 ∧
          ∃ o, Operation.ofWord? (s.memory.word s.pc.toNat) = some o ∧
            (t.pc.toNat : Int) = o.exactPc s (Operands.ofWord (s.memory.word s.pc.toNat)) := by
  have hsound := sound_after h actions
  refine ⟨hsound, ?_⟩
  rintro s t rfl ht
  obtain ⟨hpc, o, ho, -, rfl⟩ := State.exists_run_of_step (hsound.latch ▸ rfl) ht
  refine ⟨State.toNat_past_pc hpc, o, ho, ?_⟩
  rw [Operation.run_pc]
  exact Operation.toNat_pcAfter hpc o _

/-- A program that jumps to itself, through a press, a cycle, a restart and a release. -/
theorem state_sound_of_loop :
    ∃ m notices, create [0x12, 0x00] 0 = .ok (m, notices) ∧
      (m.after [.press 5, .step, .reset, .release 5, .step]).state.Sound := by
  have h : create [0x12, 0x00] 0 = .ok _ := rfl
  exact ⟨_, _, h, (state_sound h _).1⟩

end Machine
end ChipEight
