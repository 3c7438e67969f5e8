/-
What is in the memory.

A store replaces the bytes of its range and no others, whether or not the range ends
inside the memory: `getElem_store` says so byte for byte. The rest is read off it: what
a memory holds that was just filled, and that a range is read back as it was written.
-/
import ChipEight.Memory

set_option autoImplicit false

namespace ChipEight.Memory

/-! ## Ranges -/

/-- Over natural numbers only the end of a range can be out of place. -/
theorem check_natCast (start length : Nat) :
    check start length =
      if 4096 < start + length then .error (.fault ⟨.memoryRange start length, none, none⟩)
      else .ok () := by
  rw [check]
  by_cases h : 4096 < start + length
  · rw [if_pos (by omega), if_pos h]
  · rw [if_neg (by omega), if_neg h]

theorem read_of_le (m : Memory) {start length : Nat} (h : start + length ≤ 4096) :
    m.read start length = .ok ((m.toList.drop start).take length) := by
  rw [read, check_natCast, if_neg (by omega)]
  rfl

/-! ## Stores -/

/-- **A byte after a store** is the one stored there, if one was. -/
theorem getElem_store (m : Memory) (a : Nat) (bytes : List UInt8) {i : Nat} (hi : i < 4096) :
    (m.store a bytes)[i] =
      if a ≤ i ∧ i < a + bytes.length then bytes.getD (i - a) 0 else m[i] := by
  induction bytes generalizing m a with
  | nil =>
    rw [store, if_neg]
    rintro ⟨hle, hlt⟩
    rw [List.length_nil] at hlt
    omega
  | cons b bytes ih =>
    rw [store, ih, Vector.getElem_setIfInBounds hi, List.length_cons]
    by_cases hfirst : a = i
    · -- The first byte is at the address, and the others come behind it.
      rw [if_neg (by omega), if_pos hfirst, if_pos (by omega), hfirst, Nat.sub_self]
      rfl
    · rw [if_neg hfirst]
      by_cases hrest : a + 1 ≤ i ∧ i < a + 1 + bytes.length
      · have hindex : i - a = i - (a + 1) + 1 := by omega
        rw [if_pos hrest, if_pos (by omega), hindex, List.getD_cons_succ]
      · rw [if_neg hrest, if_neg (by omega)]

/-- What was stored is read back. -/
theorem read_store (m : Memory) {a : Nat} {bytes : List UInt8} (h : a + bytes.length ≤ 4096) :
    (m.store a bytes).read a bytes.length = .ok bytes := by
  rw [read_of_le _ h, Except.ok.injEq]
  apply List.ext_getElem
  · rw [List.length_take, List.length_drop, Vector.length_toList]
    omega
  · intro i _ hi
    have hbyte := m.getElem_store a bytes (i := a + i) (by omega)
    rw [if_pos (by omega), Nat.add_sub_cancel_left, List.getD_eq_getElem?_getD,
      List.getElem?_eq_getElem hi, Option.getD_some] at hbyte
    rw [List.getElem_take, List.getElem_drop, Vector.getElem_toList, hbyte]

/-! ## Programs -/

theorem loadProgram_of_lt (m : Memory) {program : List UInt8}
    (h : maxProgramSize < program.length) :
    m.loadProgram program = .error (.programTooLarge program.length) := by
  rw [loadProgram, if_pos h]

/-- A program that fits is stored at the start address; storing the empty one does
nothing, as loading it does. -/
theorem loadProgram_of_le (m : Memory) {program : List UInt8}
    (h : program.length ≤ maxProgramSize) :
    m.loadProgram program = .ok (m.store programStart program) := by
  rw [loadProgram, if_neg (by omega)]
  by_cases hempty : program.isEmpty
  · rw [if_pos hempty, List.isEmpty_iff.mp hempty]
    rfl
  · have hfits : programStart + program.length ≤ 4096 := by
      rw [maxProgramSize] at h
      rw [programStart]
      omega
    rw [if_neg hempty, write, check_natCast, if_neg (by omega)]
    rfl

/-- **The contents of a memory that was just filled**: the font, the program, and
nothing else. -/
theorem getElem_store_fresh (program : List UInt8) {i : Nat} (hi : i < 4096) :
    (fresh.store programStart program)[i] =
      if fontStart ≤ i ∧ i < fontStart + fontData.length then fontData.getD (i - fontStart) 0
      else if programStart ≤ i ∧ i < programStart + program.length then
        program.getD (i - programStart) 0
      else 0 := by
  have hfont : fontStart + fontData.length ≤ programStart := by decide
  rw [getElem_store, fresh, getElem_store, Vector.getElem_replicate]
  by_cases hprogram : programStart ≤ i ∧ i < programStart + program.length
  · rw [if_pos hprogram, if_neg (by omega), if_pos hprogram]
  · rw [if_neg hprogram, if_neg hprogram]

end ChipEight.Memory
