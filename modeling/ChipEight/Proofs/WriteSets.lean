/-
What an operation may write, place by place.

Several handlers write more than they mean to change. FX55 stores sixteen bytes, of which
those behind VX are the old ones, and it drops what falls behind the end of the memory;
FX65 builds a whole register file, a drawing a whole grid, and a note of a fault replaces
the whole latch. That nothing is lost in this is a fact about every handler and every
place of the state.

`Operation.Writes` is the table: for a place, the operations that may write it. The main
statement is that an executed word leaves every other place as it was. The memory has a
stronger account, `Operation.written?`, which also says what is written, and says it
without a look at the memory.
-/
import ChipEight.Proofs.Faults
import ChipEight.Proofs.Memory

set_option autoImplicit false

namespace ChipEight

/-! ## Places -/

/-- The places of a state, the memory byte by byte and the registers one by one. -/
inductive Place where
  | rng
  | memory (address : Fin 4096)
  | pc
  | display
  | displayChanged
  | stack
  | delayTimer
  | soundTimer
  | keypad
  | register (r : Fin 16)
  | index
  | latch

/-- The place holds in `t` what it holds in `s`. -/
def Place.Same (s t : State) : Place → Prop
  | .rng => t.rng = s.rng
  | .memory a => t.memory[a] = s.memory[a]
  | .pc => t.pc = s.pc
  | .display => t.display = s.display
  | .displayChanged => t.displayChanged = s.displayChanged
  | .stack => t.stack = s.stack
  | .delayTimer => t.delayTimer = s.delayTimer
  | .soundTimer => t.soundTimer = s.soundTimer
  | .keypad => t.keypad = s.keypad
  | .register r => t.reg r = s.reg r
  | .index => t.I = s.I
  | .latch => t.latch = s.latch

/-- No place is missing: states that are the same everywhere are equal. -/
theorem State.eq_of_same {s t : State} (h : ∀ p : Place, p.Same s t) : t = s := by
  have hmemory : t.memory = s.memory := by
    apply Vector.ext
    intro a ha
    exact h (.memory ⟨a, ha⟩)
  have hV : t.V = s.V := by
    apply Vector.ext
    intro r hr
    exact h (.register ⟨r, hr⟩)
  rw [State.mk.injEq]
  exact ⟨h .rng, hmemory, h .pc, h .display, h .displayChanged, h .stack, h .delayTimer,
    h .soundTimer, h .keypad, hV, h .index, h .latch⟩

namespace Operation

/-- The operations that do not go on with the next word in every state. -/
def jumps : List Operation :=
  [jump, jumpWithOffset, call, returnFromCall, skipIfEqualImmediate, skipIfNotEqualImmediate,
    skipIfEqualRegister, skipIfNotEqualRegister, skipIfKey, skipIfNotKey, waitForKey]

/-- The operations with a result in VX. -/
def resultsInX : List Operation :=
  [setRegister, addImmediate, copyRegister, bitwiseOr, bitwiseAnd, bitwiseXor, add, subtract,
    shiftRight, reverseSubtract, shiftLeft, random, getDelayTimer, waitForKey]

/-- The operations with a flag in VF. -/
def flags : List Operation :=
  [add, subtract, shiftRight, reverseSubtract, shiftLeft, addToIndex, draw]

/-- The places that an operation may write, given the operands of its word and the index
before it. -/
def Writes (o : Operation) (f : Operands) (index : UInt16) : Place → Prop
  | .rng => o = random
  | .memory a =>
    (o = binaryCodedDecimal ∧ index.toNat ≤ a ∧ a ≤ index.toNat + 2) ∨
      (o = storeRegisters ∧ index.toNat ≤ a ∧ a ≤ index.toNat + f.x)
  | .pc => o ∈ jumps
  | .display | .displayChanged => o = clear ∨ o = draw
  | .stack => o = call ∨ o = returnFromCall
  | .delayTimer => o = setDelayTimer
  | .soundTimer => o = setSoundTimer
  | .register r =>
    (o ∈ resultsInX ∧ r = f.x) ∨ (o = loadRegisters ∧ r ≤ f.x) ∨ (o ∈ flags ∧ r = flagRegister)
  | .index => o = setIndex ∨ o = addToIndex ∨ o = fontCharacter
  | .keypad | .latch => False

end Operation

/-! ## Registers -/

namespace State

variable {s : State} {r x : Fin 16}

theorem reg_setReg (s : State) (x r : Fin 16) (value : UInt8) :
    (s.setReg x value).reg r = if r = x then value else s.reg r := by
  rw [setReg, reg, reg, Fin.getElem_fin, Vector.getElem_set]
  by_cases h : r = x
  · rw [if_pos h, if_pos (congrArg Fin.val h).symm]
  · rw [if_neg h, if_neg (Ne.symm (Fin.val_ne_of_ne h))]
    rfl

theorem reg_setReg_of_ne (h : r ≠ x) (value : UInt8) : (s.setReg x value).reg r = s.reg r := by
  rw [reg_setReg, if_neg h]

/-- A result goes to VX, and its flag, if it has one, to VF. -/
theorem reg_setResult_of_ne (hx : r ≠ x) {result : Arithmetic.Result}
    (hflag : result.flag = none ∨ r ≠ flagRegister) :
    (s.setResult x result).reg r = s.reg r := by
  unfold setResult
  rcases hresult : result.flag with _ | flag
  · exact reg_setReg_of_ne hx _
  · have hF : r ≠ flagRegister := by
      rcases hflag with hnone | hF
      · rw [hresult] at hnone
        cases hnone
      · exact hF
    dsimp only
    rw [reg_setReg_of_ne hF, reg_setReg_of_ne hx]

/-- FX65 replaces the registers up to VX. -/
theorem reg_loadRegisters (s : State) (f : Operands) (r : Fin 16) :
    (s.loadRegisters f).reg r =
      if r ≤ f.x then (s.memory.gather s.I.toNat 16).getD r 0 else s.reg r := by
  rw [loadRegisters, reg, Fin.getElem_fin]
  dsimp only
  rw [Vector.getElem_ofFn]
  by_cases h : r ≤ f.x
  · rw [if_pos h, if_pos (Nat.lt_succ_of_le h)]
  · rw [if_neg h, if_neg fun hlt => h (Nat.le_of_lt_succ hlt)]

end State

namespace Operation

variable {o : Operation} {s : State} {f : Operands}

theorem reg_run_of_not_writes {r : Fin 16} (h : ¬ o.Writes f s.I (.register r)) :
    (o.run s f).reg r = s.reg r := by
  have hx : o ∈ resultsInX → r ≠ f.x := fun ho hr => h (.inl ⟨ho, hr⟩)
  have hload : o = loadRegisters → ¬ r ≤ f.x := fun ho hr => h (.inr (.inl ⟨ho, hr⟩))
  have hF : o ∈ flags → r ≠ flagRegister := fun ho hr => h (.inr (.inr ⟨ho, hr⟩))
  cases o
  case setRegister | addImmediate | random | getDelayTimer | waitForKey =>
    exact State.reg_setReg_of_ne (hx (by decide)) _
  case copyRegister | bitwiseOr | bitwiseAnd | bitwiseXor =>
    exact State.reg_setResult_of_ne (hx (by decide)) (.inl rfl)
  case add | subtract | shiftRight | reverseSubtract | shiftLeft =>
    exact State.reg_setResult_of_ne (hx (by decide)) (.inr (hF (by decide)))
  case addToIndex => exact State.reg_setReg_of_ne (hF (by decide)) _
  case draw =>
    rw [run, State.draw_eq]
    exact State.reg_setReg_of_ne (hF (by decide)) _
  case loadRegisters =>
    rw [run, State.reg_loadRegisters, if_neg (hload rfl)]
  case binaryCodedDecimal =>
    obtain ⟨M, hM⟩ := s.binaryCodedDecimal_shape f
    rw [run, hM]
    rfl
  case storeRegisters =>
    obtain ⟨M, hM⟩ := s.storeRegisters_shape f
    rw [run, hM]
    rfl
  -- the others have no result
  all_goals first | rfl | (rw [run, State.skipIf_eq]; rfl)

end Operation

/-! ## Memory -/

namespace Memory

theorem length_gather (m : Memory) (a : Int) (length : Nat) :
    (m.gather a length).length = length := by
  rw [gather, List.length_map, List.length_range]

theorem getElem?_gather (m : Memory) (a : Int) {length k : Nat} (h : k < length) :
    (m.gather a length)[k]? = some (m.byteAt (a + k)) := by
  rw [gather, List.getElem?_map, List.getElem?_range h]
  rfl

/-- A store seen from an address: its byte there, if it has one. -/
theorem getElem_store_eq_getD (m : Memory) (start : Nat) (bytes : List UInt8) {a : Nat}
    (ha : a < 4096) :
    (m.store start bytes)[a] = (if start ≤ a then bytes[a - start]? else none).getD m[a] := by
  rw [getElem_store]
  by_cases hstart : start ≤ a
  · rw [if_pos hstart]
    by_cases hend : a < start + bytes.length
    · rw [if_pos ⟨hstart, hend⟩, List.getD_eq_getElem?_getD,
        List.getElem?_eq_getElem (by omega)]
      rfl
    · rw [if_neg fun h => hend h.2, List.getElem?_eq_none (by omega)]
      rfl
  · rw [if_neg fun h => hstart h.1, if_neg hstart]
    rfl

end Memory

namespace State

/-- The three digits of VX that FX33 stores. -/
def digits (s : State) (f : Operands) : List UInt8 :=
  let value := (s.reg f.x).toNat
  [value / 100, value / 10 % 10, value % 10].map UInt8.ofNat

/-- The sixteen bytes that FX55 stores: the registers up to VX, and behind them the bytes
that are there. -/
def spill (s : State) (f : Operands) : List UInt8 :=
  (s.V.toList.zip (s.memory.gather s.I.toNat 16)).mapIdx fun (i : Nat) p =>
    if i < f.x.val + 1 then p.1 else p.2

theorem length_spill (s : State) (f : Operands) : (s.spill f).length = 16 := by
  rw [spill, List.length_mapIdx, List.length_zip, Vector.length_toList, Memory.length_gather]
  rfl

theorem getElem?_spill (s : State) (f : Operands) {k : Nat} (hk : k < 16) :
    (s.spill f)[k]? = some (if k ≤ f.x then s.V[k] else s.memory.byteAt (s.I.toNat + k)) := by
  have hregister : s.V.toList[k]? = some s.V[k] := by
    rw [Vector.getElem?_toList, Vector.getElem?_eq_getElem hk]
  have hold := s.memory.getElem?_gather s.I.toNat hk
  have hpair : (s.V.toList.zip (s.memory.gather s.I.toNat 16))[k]? =
      some (s.V[k], s.memory.byteAt (s.I.toNat + k)) :=
    List.getElem?_zip_eq_some.mpr ⟨hregister, hold⟩
  rw [spill, List.getElem?_mapIdx, hpair, Option.map_some]
  simp only [Nat.lt_succ_iff]

end State

namespace Operation

variable (o : Operation) (s : State) (f : Operands)

/-- The byte that an operation writes to an address, if it writes there. -/
def written? (a : Nat) : Option UInt8 :=
  match o with
  | .binaryCodedDecimal => if s.I.toNat ≤ a then (s.digits f)[a - s.I.toNat]? else none
  | .storeRegisters =>
    if s.I.toNat ≤ a ∧ a ≤ s.I.toNat + f.x then s.V[a - s.I.toNat]? else none
  | _ => none

/-- **The memory after an operation** holds what was written, and elsewhere the old bytes. -/
theorem getElem_run_memory {a : Nat} (ha : a < 4096) :
    (o.run s f).memory[a] = (o.written? s f a).getD s.memory[a] := by
  cases o
  case binaryCodedDecimal =>
    exact s.memory.getElem_store_eq_getD s.I.toNat (s.digits f) ha
  case storeRegisters =>
    refine (s.memory.getElem_store_eq_getD s.I.toNat (s.spill f) ha).trans ?_
    rw [written?]
    by_cases hstart : s.I.toNat ≤ a
    · rw [if_pos hstart]
      by_cases hinside : a - s.I.toNat < 16
      · have hplace : ((s.I.toNat : Int) + (a - s.I.toNat : Nat)) = (a : Nat) := by omega
        rw [s.getElem?_spill f hinside, hplace, s.memory.byteAt_of_lt ha,
          Vector.getElem?_eq_getElem hinside]
        by_cases hlast : a - s.I.toNat ≤ f.x
        · rw [if_pos hlast, if_pos (by omega)]
        · -- Behind VX the byte that is put back is the one that was there.
          rw [if_neg hlast, if_neg (by omega)]
          rfl
      · have hx := f.x.isLt
        rw [List.getElem?_eq_none (by rw [State.length_spill]; omega), if_neg (by omega)]
    · rw [if_neg hstart, if_neg fun h => hstart h.1]
  case loadRegisters =>
    obtain ⟨V, hV⟩ := s.loadRegisters_shape f
    rw [run, hV]
    rfl
  -- the others write no memory
  all_goals first | rfl | (rw [run, State.skipIf_eq]; rfl)

/-! ## The frame -/

variable {o s f}

theorem written?_of_not_writes {a : Fin 4096} (h : ¬ o.Writes f s.I (.memory a)) :
    o.written? s f a = none := by
  unfold written?
  split
  · by_cases hstart : s.I.toNat ≤ a
    · have hend : ¬ a.val ≤ s.I.toNat + 2 := fun hle => h (.inl ⟨rfl, hstart, hle⟩)
      rw [if_pos hstart]
      apply List.getElem?_eq_none
      show 3 ≤ a.val - s.I.toNat
      omega
    · rw [if_neg hstart]
  · rw [if_neg]
    rintro ⟨hstart, hend⟩
    exact h (.inr ⟨rfl, hstart, hend⟩)
  · rfl

theorem pcAfter_of_not_mem_jumps (h : o ∉ jumps) : o.pcAfter s f = s.pc := by
  have hskips : o.skips s f = false := by
    unfold skips
    split
    all_goals first | rfl | exact absurd (by decide) h
  unfold pcAfter
  split
  case h_6 => rw [hskips, if_neg Bool.false_ne_true]
  all_goals exact absurd (by decide) h

/-- **An operation that meets nothing** leaves every place alone that it may not write. -/
theorem same_run (hz : o.hazard? s f = none) {p : Place} (h : ¬ o.Writes f s.I p) :
    p.Same s (o.run s f) := by
  cases p with
  | rng =>
    rw [Place.Same, run_rng, rngAfter]
    exact h
  | memory a =>
    show (o.run s f).memory[a.val] = s.memory[a.val]
    rw [o.getElem_run_memory s f a.isLt, written?_of_not_writes h]
    rfl
  | pc => exact (o.run_pc s f).trans (pcAfter_of_not_mem_jumps h)
  | display =>
    obtain ⟨hclear, hdraw⟩ := not_or.mp h
    rw [Place.Same, run_display, displayAfter]
    · exact hclear
    · exact hdraw
  | displayChanged =>
    obtain ⟨hclear, hdraw⟩ := not_or.mp h
    rw [Place.Same, run_displayChanged, changedAfter]
    · exact hclear
    · exact hdraw
  | stack =>
    obtain ⟨hcall, hreturn⟩ := not_or.mp h
    rw [Place.Same, run_stack, stackAfter]
    · exact hcall
    · exact hreturn
  | delayTimer =>
    rw [Place.Same, run_delayTimer, delayAfter]
    exact h
  | soundTimer =>
    rw [Place.Same, run_soundTimer, soundAfter]
    exact h
  | keypad => exact o.run_keypad s f
  | register r => exact reg_run_of_not_writes h
  | index =>
    simp only [Operation.Writes, not_or] at h
    obtain ⟨hset, hadd, hfont⟩ := h
    rw [Place.Same, run_index, indexAfter]
    · exact hset
    · exact hadd
    · exact hfont
  | latch =>
    rw [Place.Same, run_latch, hz]
    rfl

/-- The flag of the display is never lowered by an operation. -/
theorem displayChanged_run (h : s.displayChanged = true) : (o.run s f).displayChanged = true := by
  rw [run_displayChanged]
  unfold changedAfter
  split
  · rfl
  · rw [h, Bool.true_or]
  · exact h

end Operation

namespace State

variable {s t : State}

/-- An executed word that succeeds found nothing noted. -/
theorem latch_clear_of_execute_eq_ok {n : Int} (h : s.execute n = .ok t) :
    s.latch.code = noFault := by
  apply Decidable.byContradiction
  intro hnoted
  have hlatch : (s.dispatch (wordOfInt n)).latch = s.latch := by
    rw [dispatch_latch]
    exact FaultLatch.meet_of_noted hnoted _
  rw [execute, commit, hlatch, FaultLatch.cause?, if_neg hnoted] at h
  cases h

/-- A word that is executed without a fault runs its operation. -/
theorem exists_run_of_execute {n : Int} (h : s.execute n = .ok t) :
    ∃ o, Operation.ofWord? (wordOfInt n) = some o ∧
      o.hazard? s (Operands.ofWord (wordOfInt n)) = none ∧
      t = o.run s (Operands.ofWord (wordOfInt n)) := by
  have hclear := latch_clear_of_execute_eq_ok h
  rw [execute_eq hclear] at h
  obtain ⟨hz, rfl⟩ := outcome_eq_ok h
  obtain ⟨o, ho, hoz, hrun⟩ := exists_run_of_hazard?_eq_none hz
  exact ⟨o, ho, hoz, hrun s⟩

/-- **Write sets.** A word that is executed without a fault has an operation, and every
place that this operation may not write holds what it held before: among them the fault
latch and the keypad, every byte of the memory outside the range FX33 or FX55 names, and
every register but VX, VF or the ones FX65 loads, as the operation has it. The flag of
the display, where it is written, is only ever raised. -/
theorem execute_writes_only {n : Int} (h : s.execute n = .ok t) :
    ∃ o : Operation, o.Covers (wordOfInt n) ∧
      (∀ p : Place, ¬ o.Writes (Operands.ofWord (wordOfInt n)) s.I p → p.Same s t) ∧
      (s.displayChanged = true → t.displayChanged = true) := by
  obtain ⟨o, ho, hz, rfl⟩ := exists_run_of_execute h
  refine ⟨o, Operation.covers_of_ofWord? ho, ?_, Operation.displayChanged_run⟩
  intro p hp
  exact Operation.same_run hz hp

/-- FX55 with two registers at the last two addresses: of the sixteen bytes it stores,
fourteen fall behind the end, and no byte before the two is touched. -/
theorem store_at_the_end_writes_two_bytes :
    let s : State := { fresh ⟨0, 0⟩ with I := 0xFFE }
    ∃ t, s.execute 0xF155 = .ok t ∧ ∀ a : Fin 4096, a.val < 0xFFE → t.memory[a] = s.memory[a] := by
  intro s
  have hword : wordOfInt 0xF155 = 0xF155 := by decide
  have hcovers : Operation.storeRegisters.Covers 0xF155 := ⟨rfl, rfl⟩
  have hfits : s.hazard? 0xF155 = none := by
    rw [hazard?, Operation.ofWord?_of_covers hcovers]
    rfl
  have hrun : s.execute 0xF155 = .ok (s.dispatch 0xF155) := by
    rw [execute_eq rfl, hword, hfits]
  refine ⟨_, hrun, ?_⟩
  intro a ha
  obtain ⟨o, ho, hsame, -⟩ := execute_writes_only hrun
  -- The word has no other operation, and its range begins behind the address.
  rw [hword] at ho
  obtain rfl := Operation.eq_of_covers ho hcovers
  refine hsame (.memory a) ?_
  rintro (⟨hdigits, -⟩ | ⟨-, hstart, -⟩)
  · cases hdigits
  · have hindex : s.I.toNat = 0xFFE := rfl
    omega

end State
end ChipEight
