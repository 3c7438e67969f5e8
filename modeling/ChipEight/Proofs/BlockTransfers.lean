/-
Blocks of registers in memory, and the digits of a number.

FX55 and FX65 move sixteen bytes whatever X is: with zeros for those behind the end of the
memory, and with a mask that puts back what is past VX. Seen byte by byte none of this is
left: `stored` and `loaded` are the memory and the registers that come out, told by what is in
each place. The two are inverse to each other on the block: a block is loaded as it was
stored, and stored as it was loaded. `spelled` is the memory behind FX33 in the same way.

Every statement is about whole states, so that nothing else has changed is part of it. The
block may end at the last byte of the memory.
-/
import ChipEight.Proofs.Words
import ChipEight.Proofs.WriteSets

set_option autoImplicit false

namespace ChipEight.State

variable {s : State} {x : Fin 16}

/-! ## One transfer -/

/-- The memory behind FX55: the registers up to VX in a block at the index. -/
def stored (s : State) (x : Fin 16) : Memory :=
  Vector.ofFn fun (a : Fin 4096) =>
    (if s.I.toNat ≤ a ∧ a ≤ s.I.toNat + x then s.V[a - s.I.toNat]? else none).getD
      (s.memory.get a)

/-- The registers behind FX65: the bytes of the block up to VX, and past it the old values. -/
def loaded (s : State) (x : Fin 16) : Vector UInt8 16 :=
  Vector.ofFn fun (i : Fin 16) => if i ≤ x then s.memory.byteAt (s.I.toNat + i) else s.reg i

/-- The memory behind FX33: a digit in each of three places. -/
def spelled (s : State) (x : Fin 16) : Memory :=
  Vector.ofFn fun (a : Fin 4096) =>
    if a = s.I.toNat then UInt8.ofNat ((s.reg x).toNat / 100)
    else if a = s.I.toNat + 1 then UInt8.ofNat ((s.reg x).toNat / 10 % 10)
    else if a = s.I.toNat + 2 then UInt8.ofNat ((s.reg x).toNat % 10)
    else s.memory.get a

theorem getElem_stored (s : State) (x : Fin 16) {a : Nat} (ha : a < 4096) :
    (s.stored x)[a] =
      (if s.I.toNat ≤ a ∧ a ≤ s.I.toNat + x then s.V[a - s.I.toNat]? else none).getD
        s.memory[a] :=
  Vector.getElem_ofFn ha

theorem getElem_spelled (s : State) (x : Fin 16) {a : Nat} (ha : a < 4096) :
    (s.spelled x)[a] =
      if a = s.I.toNat then UInt8.ofNat ((s.reg x).toNat / 100)
      else if a = s.I.toNat + 1 then UInt8.ofNat ((s.reg x).toNat / 10 % 10)
      else if a = s.I.toNat + 2 then UInt8.ofNat ((s.reg x).toNat % 10)
      else s.memory[a] :=
  Vector.getElem_ofFn ha

/-- What FX55 writes past VX is what was there, and so comes to nothing. -/
theorem memory_storeRegisters (s : State) (f : Operands) :
    (s.storeRegisters f).memory = s.stored f.x := by
  apply Vector.ext
  intro a ha
  rw [getElem_stored]
  exact Operation.storeRegisters.getElem_run_memory s f ha

/-- FX65 reads bytes past VX, and they go nowhere. -/
theorem registers_loadRegisters (s : State) (f : Operands) :
    (s.loadRegisters f).V = s.loaded f.x := by
  apply Vector.ext
  intro i hi
  have hload := s.reg_loadRegisters f ⟨i, hi⟩
  rw [List.getD_eq_getElem?_getD, Memory.getElem?_gather _ _ hi] at hload
  rw [loaded, Vector.getElem_ofFn]
  exact hload

/-- FX33 writes a list of three bytes, the first at the index. -/
theorem memory_binaryCodedDecimal (s : State) (f : Operands) :
    (s.binaryCodedDecimal f).memory = s.spelled f.x := by
  apply Vector.ext
  intro a ha
  have hmemory := Operation.binaryCodedDecimal.getElem_run_memory s f ha
  rw [Operation.written?, digits] at hmemory
  rw [getElem_spelled]
  refine Eq.trans hmemory ?_
  by_cases hstart : s.I.toNat ≤ a
  · obtain ⟨k, rfl⟩ := Nat.exists_eq_add_of_le hstart
    rw [if_pos hstart, Nat.add_sub_cancel_left]
    rcases k with _ | _ | _ | k
    · simp
    · simp
    · simp
    · simp
  -- below the index the offset is cut to 0, which is not the first of the places
  · rw [if_neg hstart, if_neg (by omega), if_neg (by omega), if_neg (by omega)]
    rfl

theorem execute_store (hs : s.latch.code = noFault) (h : s.I.toNat + (x + 1) ≤ 4096) :
    s.execute (wordOf 0xF x 0x5 0x5).toNat = .ok { s with memory := s.stored x } := by
  have hcovers : Operation.storeRegisters.Covers (wordOf 0xF x 0x5 0x5) :=
    ⟨first_wordOf .., byte_wordOf ..⟩
  have hx := Operands.ofWord_wordOf_x 0xF x 0x5 0x5
  have hz : Operation.storeRegisters.hazard? s (Operands.ofWord (wordOf 0xF x 0x5 0x5)) = none := by
    rw [Operation.hazard?, hx, rangeHazard?_of_le h]
  have hmemory := s.memory_storeRegisters (Operands.ofWord (wordOf 0xF x 0x5 0x5))
  obtain ⟨M, hM⟩ := s.storeRegisters_shape (Operands.ofWord (wordOf 0xF x 0x5 0x5))
  rw [hM, hx] at hmemory
  rw [execute_of_covers hs hcovers hz, Operation.run, hM, hx, noteRange_latch_of_le h, ← hmemory]

theorem execute_load (hs : s.latch.code = noFault) (h : s.I.toNat + (x + 1) ≤ 4096) :
    s.execute (wordOf 0xF x 0x6 0x5).toNat = .ok { s with V := s.loaded x } := by
  have hcovers : Operation.loadRegisters.Covers (wordOf 0xF x 0x6 0x5) :=
    ⟨first_wordOf .., byte_wordOf ..⟩
  have hx := Operands.ofWord_wordOf_x 0xF x 0x6 0x5
  have hz : Operation.loadRegisters.hazard? s (Operands.ofWord (wordOf 0xF x 0x6 0x5)) = none := by
    rw [Operation.hazard?, hx, rangeHazard?_of_le h]
  have hregisters := s.registers_loadRegisters (Operands.ofWord (wordOf 0xF x 0x6 0x5))
  obtain ⟨V, hV⟩ := s.loadRegisters_shape (Operands.ofWord (wordOf 0xF x 0x6 0x5))
  rw [hV, hx] at hregisters
  rw [execute_of_covers hs hcovers hz, Operation.run, hV, hx, noteRange_latch_of_le h,
    ← hregisters]

theorem execute_spell (hs : s.latch.code = noFault) (h : s.I.toNat + 3 ≤ 4096) :
    s.execute (wordOf 0xF x 0x3 0x3).toNat = .ok { s with memory := s.spelled x } := by
  have hcovers : Operation.binaryCodedDecimal.Covers (wordOf 0xF x 0x3 0x3) :=
    ⟨first_wordOf .., byte_wordOf ..⟩
  have hmemory := s.memory_binaryCodedDecimal (Operands.ofWord (wordOf 0xF x 0x3 0x3))
  obtain ⟨M, hM⟩ := s.binaryCodedDecimal_shape (Operands.ofWord (wordOf 0xF x 0x3 0x3))
  rw [hM, Operands.ofWord_wordOf_x] at hmemory
  rw [execute_of_covers hs hcovers (rangeHazard?_of_le h), Operation.run, hM,
    noteRange_latch_of_le h, ← hmemory]

theorem getElem_stored_of_mem (s : State) {a : Nat} (ha : a < 4096) {i : Fin 16} (hi : i ≤ x)
    (hplace : a = s.I.toNat + i) : (s.stored x)[a] = s.V[i] := by
  have hindex : a - s.I.toNat = i := by omega
  rw [getElem_stored, if_pos (by omega), hindex, Fin.getElem_fin,
    Vector.getElem?_eq_getElem i.isLt]
  rfl

theorem getElem_stored_of_not_mem (s : State) {a : Nat} (ha : a < 4096)
    (h : a < s.I.toNat ∨ s.I.toNat + x < a) : (s.stored x)[a] = s.memory[a] := by
  rw [getElem_stored, if_neg (by omega)]
  rfl

theorem getElem_loaded_of_mem (s : State) {a : Nat} (ha : a < 4096) {i : Fin 16} (hi : i ≤ x)
    (hplace : a = s.I.toNat + i) : (s.loaded x)[i] = s.memory[a] := by
  have hcast : (s.I.toNat : Int) + (i : Nat) = (a : Nat) := by omega
  rw [loaded, Fin.getElem_fin, Vector.getElem_ofFn, if_pos hi, hcast, Memory.byteAt_of_lt _ ha]

theorem getElem_loaded_of_not_mem (s : State) {i : Fin 16} (hi : x < i) :
    (s.loaded x)[i] = s.V[i] := by
  rw [loaded, Fin.getElem_fin, Vector.getElem_ofFn, if_neg (Fin.not_le.mpr hi)]
  rfl

/-! ## One after the other -/

/-- A block that holds the registers up to VX, or what they shall be, is loaded as such. -/
theorem loaded_eq {V : Vector UInt8 16} (h : s.I.toNat + (x + 1) ≤ 4096)
    (hblock : ∀ (i : Fin 16) (a : Nat) (ha : a < 4096), i ≤ x → a = s.I.toNat + i →
      s.memory[a] = V[i])
    (hrest : ∀ i : Fin 16, x < i → s.V[i] = V[i]) : s.loaded x = V := by
  have hall : ∀ i : Fin 16, (s.loaded x)[i] = V[i] := by
    intro i
    by_cases hi : i ≤ x
    · have ha : s.I.toNat + i < 4096 := by
        rw [Fin.le_def] at hi
        omega
      rw [s.getElem_loaded_of_mem ha hi rfl, hblock i _ ha hi rfl]
    · rw [s.getElem_loaded_of_not_mem (Fin.not_le.mp hi), hrest i (Fin.not_le.mp hi)]
  apply Vector.ext
  intro k hk
  exact hall ⟨k, hk⟩

/-- Registers that a block holds already change nothing when they are stored. -/
theorem stored_eq (hblock : ∀ (i : Fin 16) (a : Nat) (ha : a < 4096), i ≤ x →
      a = s.I.toNat + i → s.V[i] = s.memory[a]) : s.stored x = s.memory := by
  apply Vector.ext
  intro a ha
  by_cases hplace : s.I.toNat ≤ a ∧ a ≤ s.I.toNat + x
  -- an address of the block is the address of one register
  · obtain ⟨i, hi⟩ : ∃ i : Fin 16, a = s.I.toNat + i :=
      ⟨⟨a - s.I.toNat, by omega⟩, by simp; omega⟩
    have hix : i ≤ x := by
      rw [Fin.le_def]
      omega
    rw [s.getElem_stored_of_mem ha hix hi, hblock i a ha hix hi]
  · rw [s.getElem_stored_of_not_mem ha (by omega)]

variable {t : State}

/-- **A block is loaded as it was stored**, whatever became of the registers up to VX. -/
theorem loaded_stored (h : s.I.toNat + (x + 1) ≤ 4096) (hI : t.I = s.I)
    (hmemory : t.memory = s.stored x) (hV : ∀ i : Fin 16, x < i → t.V[i] = s.V[i]) :
    t.loaded x = s.V := by
  refine loaded_eq (hI ▸ h) ?_ hV
  intro i a ha hi hplace
  rw [hmemory, s.getElem_stored_of_mem ha hi (hI ▸ hplace)]

/-- **And stored as it was loaded.** -/
theorem stored_loaded (hI : t.I = s.I) (hmemory : t.memory = s.memory) (hV : t.V = s.loaded x) :
    t.stored x = t.memory := by
  refine stored_eq ?_
  intro i a ha hi hplace
  rw [hV, hmemory, s.getElem_loaded_of_mem ha hi (hI ▸ hplace)]

/-- **Blocks are moved exactly, up to the last byte of the memory.** FX55 puts V0 to VX into
the block at the index and changes no other byte. Behind it FX65 restores the register file,
whatever the registers up to VX were changed to. FX65 loads the block and no other register,
and FX55 behind it changes nothing at all. FX33 puts the three digits of VX at the index and
changes no other byte. -/
theorem block_transfers_exact (hs : s.latch.code = noFault) (x : Fin 16) :
    (s.I.toNat + x + 1 ≤ 4096 →
      ∃ (M : Memory) (V : Vector UInt8 16),
        s.execute (wordOf 0xF x 0x5 0x5).toNat = .ok { s with memory := M } ∧
        (∀ (i : Fin 16) (a : Fin 4096), i ≤ x → a = s.I.toNat + i → M[a] = s.V[i]) ∧
        (∀ a : Fin 4096, a < s.I.toNat ∨ s.I.toNat + x < a → M[a] = s.memory[a]) ∧
        (∀ W : Vector UInt8 16, (∀ i : Fin 16, x < i → W[i] = s.V[i]) →
          ({ s with memory := M, V := W } : State).execute (wordOf 0xF x 0x6 0x5).toNat =
            .ok { s with memory := M }) ∧
        s.execute (wordOf 0xF x 0x6 0x5).toNat = .ok { s with V := V } ∧
        (∀ (i : Fin 16) (a : Fin 4096), i ≤ x → a = s.I.toNat + i → V[i] = s.memory[a]) ∧
        (∀ i : Fin 16, x < i → V[i] = s.V[i]) ∧
        ({ s with V := V } : State).execute (wordOf 0xF x 0x5 0x5).toNat =
          .ok { s with V := V }) ∧
    (s.I.toNat + 3 ≤ 4096 →
      ∃ (M : Memory) (hundreds tens units : UInt8),
        s.execute (wordOf 0xF x 0x3 0x3).toNat = .ok { s with memory := M } ∧
        hundreds ≤ 9 ∧ tens ≤ 9 ∧ units ≤ 9 ∧
        100 * hundreds.toNat + 10 * tens.toNat + units.toNat = s.V[x].toNat ∧
        ∀ a : Fin 4096, M[a] =
          if a = s.I.toNat then hundreds
          else if a = s.I.toNat + 1 then tens
          else if a = s.I.toNat + 2 then units
          else s.memory[a]) := by
  constructor
  · intro h
    refine ⟨s.stored x, s.loaded x, execute_store hs h,
      fun i a hi hplace => s.getElem_stored_of_mem a.isLt hi hplace,
      fun a ha => s.getElem_stored_of_not_mem a.isLt ha, ?restored, execute_load hs h,
      fun i a hi hplace => s.getElem_loaded_of_mem a.isLt hi hplace,
      fun i hi => s.getElem_loaded_of_not_mem hi, ?unchanged⟩
    case restored =>
      intro W hW
      have hback : ({ s with memory := s.stored x, V := W } : State).loaded x = s.V :=
        loaded_stored h rfl rfl hW
      have hload := execute_load (s := { s with memory := s.stored x, V := W }) (x := x) hs h
      rw [hback] at hload
      exact hload
    case unchanged =>
      have hsame : ({ s with V := s.loaded x } : State).stored x = s.memory :=
        stored_loaded (s := s) rfl rfl rfl
      have hstore := execute_store (s := { s with V := s.loaded x }) (x := x) hs h
      rw [hsame] at hstore
      exact hstore
  · intro h
    have hV := s.V[x].toNat_lt
    refine ⟨s.spelled x, UInt8.ofNat (s.V[x].toNat / 100), UInt8.ofNat (s.V[x].toNat / 10 % 10),
      UInt8.ofNat (s.V[x].toNat % 10), execute_spell hs h, ?_, ?_, ?_, ?_,
      fun a => s.getElem_spelled x a.isLt⟩
    all_goals
      simp only [UInt8.le_iff_toNat_le, UInt8.toNat_ofNat', UInt8.reduceToNat]
      omega

/-- Three registers at the last three addresses, then cleared and loaded again; and at the
same place the digits of 234. -/
theorem block_at_the_last_byte :
    let s : State := { ((fresh ⟨0, 0⟩).setReg 0x0 7).setReg 0x2 234 with I := 0xFFD }
    ∃ M N : Memory, s.execute 0xF255 = .ok { s with memory := M } ∧
      M.byteAt 0xFFC = 0 ∧ M.byteAt 0xFFD = 7 ∧ M.byteAt 0xFFE = 0 ∧ M.byteAt 0xFFF = 234 ∧
      { ((s.setReg 0x0 0).setReg 0x1 1).setReg 0x2 2 with memory := M }.execute 0xF265 =
        .ok { s with memory := M } ∧
      s.execute 0xF233 = .ok { s with memory := N } ∧
      (N.byteAt 0xFFD).toNat = 2 ∧ (N.byteAt 0xFFE).toNat = 3 ∧ (N.byteAt 0xFFF).toNat = 4 := by
  intro s
  obtain ⟨hblock, hdigits⟩ := block_transfers_exact (s := s) rfl 2
  obtain ⟨M, V, hstore, hinside, houtside, hback, -⟩ := hblock (by decide)
  obtain ⟨N, hundreds, tens, units, hspell, hh, ht, hu, hvalue, hplaces⟩ := hdigits (by decide)
  have hV : s.V[(2 : Fin 16)].toNat = 234 := rfl
  rw [hV] at hvalue
  simp only [UInt8.le_iff_toNat_le, UInt8.reduceToNat] at hh ht hu
  have hbyte : ∀ (L : Memory) (a : Fin 4096), L.byteAt a.val = L[a] :=
    fun L a => L.byteAt_of_lt a.isLt
  have hfirst : N.byteAt 0xFFD = hundreds :=
    (hbyte N 0xFFD).trans ((hplaces 0xFFD).trans (if_pos rfl))
  have hsecond : N.byteAt 0xFFE = tens :=
    (hbyte N 0xFFE).trans ((hplaces 0xFFE).trans ((if_neg (by decide)).trans (if_pos rfl)))
  have hthird : N.byteAt 0xFFF = units :=
    (hbyte N 0xFFF).trans ((hplaces 0xFFF).trans
      ((if_neg (by decide)).trans ((if_neg (by decide)).trans (if_pos rfl))))
  refine ⟨M, N, hstore, ?_, ?_, ?_, ?_, hback _ (by decide), hspell, ?_, ?_, ?_⟩
  · exact (hbyte M 0xFFC).trans ((houtside 0xFFC (.inl (by decide))).trans (by decide +kernel))
  · exact (hbyte M 0xFFD).trans (hinside 0 0xFFD (by decide) (by decide))
  · exact (hbyte M 0xFFE).trans (hinside 1 0xFFE (by decide) (by decide))
  · exact (hbyte M 0xFFF).trans (hinside 2 0xFFF (by decide) (by decide))
  · rw [hfirst]
    omega
  · rw [hsecond]
    omega
  · rw [hthird]
    omega

end ChipEight.State
