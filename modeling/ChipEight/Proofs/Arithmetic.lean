/-
Arithmetic without wrapping.

The words 8XYN compute on bytes, and what leaves a byte goes to VF as a carry, as the
absence of a borrow or as the bit shifted out. Stated on integers all of this is one
equation for each word, between the operands, the result `r` and the flag `c`: a sum is
`r + 256 * c`, a difference is `r - 256 * (1 - c)`. With `r` a byte and `c` a bit
such an equation has one solution, so it says everything about both.

Result and flag are two writes to the same register file, the flag second. Which of them
is left in a register is said of all sixteen at once, so that X, Y and F may coincide
in any way.
-/
import ChipEight.Proofs.Words
import ChipEight.Proofs.WriteSets

set_option autoImplicit false

namespace ChipEight

/-! ## Results -/

namespace Arithmetic

/-- The result is a byte and the flag a bit, and they solve an equation. -/
def Result.Solves (result : Result) (equation : Int → Int → Prop) : Prop :=
  ∃ r c : Nat, r ≤ 255 ∧ c ≤ 1 ∧ result = ⟨r, some c⟩ ∧ equation r c

/-- A condition as a flag is a bit, and says whether the condition holds. -/
theorem exists_flagOf (p : Prop) [Decidable p] :
    ∃ c : Nat, flagOf (decide p) = c ∧ c ≤ 1 ∧ (c = 1 ↔ p) := by
  by_cases h : p
  · exact ⟨1, by simp [flagOf, h], by simp, by simp [h]⟩
  · exact ⟨0, by simp [flagOf, h], by simp, by simp [h]⟩

section

variable {a b : Nat}

theorem add_solves (ha : a < 256) (hb : b < 256) :
    (add a b).Solves fun r c => (a : Int) + b = r + 256 * c := by
  obtain ⟨c, hflag, hc, hcarry⟩ := exists_flagOf (255 < (a : Int) + b)
  refine ⟨(a + b) % 256, c, by omega, hc, ?_, by omega⟩
  rw [add, hflag, Int.natCast_emod, Int.natCast_add]
  rfl

theorem subtract_solves (ha : a < 256) (hb : b < 256) :
    (subtract a b).Solves fun r c => (a : Int) - b = r - 256 * (1 - c) := by
  obtain ⟨c, hflag, hc, hborrow⟩ := exists_flagOf ((b : Int) ≤ a)
  refine ⟨(((a : Int) - b) % 256).toNat, c, by omega, hc, ?_, by omega⟩
  rw [subtract, hflag, Int.toNat_of_nonneg (by omega)]

/-- The reverse subtraction is the subtraction with its operands exchanged. -/
theorem reverseSubtract_eq (a b : Int) : reverseSubtract a b = subtract b a := rfl

theorem shiftRight_solves (ha : a < 256) :
    (shiftRight a b).Solves fun r c => (a : Int) = 2 * r + c := by
  refine ⟨a / 2, a % 2, by omega, by omega, ?_, by omega⟩
  rw [shiftRight, Int.natCast_ediv, Int.natCast_emod]
  rfl

theorem shiftLeft_solves (ha : a < 256) :
    (shiftLeft a b).Solves fun r c => 2 * (a : Int) = r + 256 * c := by
  refine ⟨2 * a % 256, a / 128 % 2, by omega, by omega, ?_, by omega⟩
  rw [shiftLeft, Int.natCast_emod, Int.natCast_emod, Int.natCast_mul, Int.natCast_ediv]
  rfl

end

/-- A bitwise operation gets its bytes as integers, which changes nothing. -/
theorem bitwise_toNat (f : UInt8 → UInt8 → UInt8) (a b : UInt8) :
    bitwise f a.toNat b.toNat = ⟨((f a b).toNat : Int), none⟩ := by
  rw [bitwise, Int.toNat_natCast, Int.toNat_natCast, UInt8.ofNat_toNat, UInt8.ofNat_toNat]

end Arithmetic

/-! ## Registers -/

namespace State

variable {s : State} {x : Fin 16}

/-- The flag is written last, over the result if both go to VF. -/
theorem reg_setResult_flag (s : State) (x i : Fin 16) {r c : Nat} (hr : r ≤ 255) (hc : c ≤ 1) :
    ((s.setResult x ⟨r, some c⟩).reg i).toNat =
      if i = flagRegister then c else if i = x then r else (s.reg i).toNat := by
  have hrbyte : (UInt8.ofNat r).toNat = r := UInt8.toNat_ofNat_of_lt (by simp [UInt8.size]; omega)
  have hcbyte : (UInt8.ofNat c).toNat = c := UInt8.toNat_ofNat_of_lt (by simp [UInt8.size]; omega)
  rw [setResult]
  simp only [Int.toNat_natCast, reg_setReg]
  by_cases hF : i = flagRegister
  · rw [if_pos hF, if_pos hF, hcbyte]
  · rw [if_neg hF, if_neg hF]
    by_cases hx : i = x
    · rw [if_pos hx, if_pos hx, hrbyte]
    · rw [if_neg hx, if_neg hx]

/-- The word is executed and leaves in VX a result and in VF a flag that solve an equation;
nothing else is changed. With X = F the flag is what is left. -/
def Flags (s : State) (w : UInt16) (x : Fin 16) (equation : Int → Int → Prop) : Prop :=
  ∃ (t : State) (r c : Nat), s.execute w.toNat = .ok t ∧ r ≤ 255 ∧ c ≤ 1 ∧ equation r c ∧
    (∀ i, (t.reg i).toNat = if i = flagRegister then c else if i = x then r else (s.reg i).toNat) ∧
    t = { s with V := t.V }

/-- The word is executed and leaves a value in VX, and no flag; nothing else is changed. -/
def Replaces (s : State) (w : UInt16) (x : Fin 16) (value : UInt8) : Prop :=
  ∃ t : State, s.execute w.toNat = .ok t ∧
    (∀ i, t.reg i = if i = x then value else s.reg i) ∧ t = { s with V := t.V }

/-- A result without a flag is one register written. -/
theorem setResult_toNat (s : State) (x : Fin 16) (value : UInt8) :
    s.setResult x ⟨(value.toNat : Int), none⟩ = s.setReg x value := by
  rw [setResult, Int.toNat_natCast, UInt8.ofNat_toNat]

theorem replaces_of_run (hs : s.latch.code = noFault) {o : Operation} {w : UInt16}
    (ho : o.Covers w) (hz : o.hazard? s (Operands.ofWord w) = none) {value : UInt8}
    (hrun : o.run s (Operands.ofWord w) = s.setReg x value) : s.Replaces w x value := by
  refine ⟨_, execute_of_covers hs ho hz, ?_, ?_⟩
  · intro i
    rw [hrun, reg_setReg]
  · rw [hrun]
    rfl

/-! ## The words -/

section

variable {o : Operation} {op : Int → Int → Arithmetic.Result} {n y : Fin 16}

theorem covers_arithmetic (hn : Operation.ofArithmeticDigit? n = some o) :
    o.Covers (wordOf 0x8 x y n) := by
  apply Operation.covers_of_ofArithmeticDigit? (first_wordOf ..)
  rw [Operands.ofWord_wordOf_n, hn]

/-- A word 8XYN whose operation solves an equation. -/
theorem flags_of_arithmetic (hs : s.latch.code = noFault)
    (hn : Operation.ofArithmeticDigit? n = some o) (hz : ∀ f, o.hazard? s f = none)
    (hrun : ∀ f, o.run s f = s.arithmetic f op) {equation : Int → Int → Prop}
    (h : (op (s.reg x).toNat (s.reg y).toNat).Solves equation) :
    s.Flags (wordOf 0x8 x y n) x equation := by
  obtain ⟨r, c, hr, hc, hresult, hequation⟩ := h
  have hcomputed : o.run s (Operands.ofWord (wordOf 0x8 x y n)) = s.setResult x ⟨r, some c⟩ := by
    rw [hrun, arithmetic, Operands.ofWord_wordOf_x, Operands.ofWord_wordOf_y, hresult]
  refine ⟨_, r, c, execute_of_covers hs (covers_arithmetic hn) (hz _), hr, hc, hequation, ?_, ?_⟩
  · intro i
    rw [hcomputed]
    exact s.reg_setResult_flag x i hr hc
  · rw [hcomputed]
    rfl

/-- A word 8XYN whose operation has no flag. -/
theorem replaces_of_arithmetic (hs : s.latch.code = noFault)
    (hn : Operation.ofArithmeticDigit? n = some o) (hz : ∀ f, o.hazard? s f = none)
    (hrun : ∀ f, o.run s f = s.arithmetic f op) {value : UInt8}
    (h : op (s.reg x).toNat (s.reg y).toNat = ⟨(value.toNat : Int), none⟩) :
    s.Replaces (wordOf 0x8 x y n) x value := by
  apply replaces_of_run hs (covers_arithmetic hn) (hz _)
  rw [hrun, arithmetic, Operands.ofWord_wordOf_x, Operands.ofWord_wordOf_y, h, setResult_toNat]

end

/-- FX1E adds to the index within twelve bits, and raises the flag when the sum leaves them. -/
theorem execute_addToIndex (hs : s.latch.code = noFault) (x : Fin 16) :
    ∃ t, s.execute (wordOf 0xF x 0x1 0xE).toNat = .ok t ∧
      t.I.toNat = (s.I.toNat + (s.reg x).toNat) % 4096 ∧
      (∀ i, t.reg i =
        if i = flagRegister ∧ 0xFFF < s.I.toNat + (s.reg x).toNat then 1 else s.reg i) ∧
      t = { s with V := t.V, I := t.I } := by
  have ho : Operation.addToIndex.Covers (wordOf 0xF x 0x1 0xE) :=
    ⟨first_wordOf .., byte_wordOf ..⟩
  refine ⟨_, execute_of_covers hs ho rfl, ?_, ?_, rfl⟩
  · simp only [Operation.run, addToIndex, Operands.ofWord_wordOf_x]
    exact UInt16.toNat_ofNat_of_lt (by simp [UInt16.size]; omega)
  · intro i
    simp only [Operation.run, addToIndex, Operands.ofWord_wordOf_x]
    change State.reg (s.setReg flagRegister _) i = _
    rw [reg_setReg]
    by_cases hF : i = flagRegister
    · simp [hF]
    · simp [hF]

/-- **Arithmetic is exact.** With `a` and `b` what VX and VY hold before it, every word of
the arithmetic that has a flag solves its equation between integers, for every X and Y: VF
holds the flag afterwards, and VX the result if it is not VF itself. The other words of the
family, and 7XNN, give VX its value and touch no other register, and FX1E leaves VF alone
unless the sum leaves twelve bits. -/
theorem arithmetic_exact {s : State} (hs : s.latch.code = noFault) (x y n : Fin 16) :
    let a := (s.reg x).toNat
    let b := (s.reg y).toNat
    (s.Flags (wordOf 0x8 x y 0x4) x fun r c => (a : Int) + b = r + 256 * c) ∧
    (s.Flags (wordOf 0x8 x y 0x5) x fun r c => (a : Int) - b = r - 256 * (1 - c)) ∧
    (s.Flags (wordOf 0x8 x y 0x7) x fun r c => (b : Int) - a = r - 256 * (1 - c)) ∧
    (s.Flags (wordOf 0x8 x y 0x6) x fun r c => (a : Int) = 2 * r + c) ∧
    (s.Flags (wordOf 0x8 x y 0xE) x fun r c => 2 * (a : Int) = r + 256 * c) ∧
    s.Replaces (wordOf 0x8 x y 0x0) x (s.reg y) ∧
    s.Replaces (wordOf 0x8 x y 0x1) x (s.reg x ||| s.reg y) ∧
    s.Replaces (wordOf 0x8 x y 0x2) x (s.reg x &&& s.reg y) ∧
    s.Replaces (wordOf 0x8 x y 0x3) x (s.reg x ^^^ s.reg y) ∧
    s.Replaces (wordOf 0x7 x y n) x (UInt8.ofNat ((a + (0x10 * y + n)) % 256)) ∧
    ∃ t, s.execute (wordOf 0xF x 0x1 0xE).toNat = .ok t ∧
      t.I.toNat = (s.I.toNat + a) % 4096 ∧
      (∀ i, t.reg i = if i = flagRegister ∧ 0xFFF < s.I.toNat + a then 1 else s.reg i) ∧
      t = { s with V := t.V, I := t.I } := by
  intro a b
  have ha : a < 256 := (s.reg x).toNat_lt
  have hb : b < 256 := (s.reg y).toNat_lt
  have h7 : Operation.addImmediate.Covers (wordOf 0x7 x y n) := first_wordOf ..
  refine ⟨?_, ?_, ?_, ?_, ?_, ?_, ?_, ?_, ?_, ?_, execute_addToIndex hs x⟩
  -- the words with a flag
  · exact flags_of_arithmetic hs rfl (fun _ => rfl) (fun _ => rfl)
      (Arithmetic.add_solves ha hb)
  · exact flags_of_arithmetic hs rfl (fun _ => rfl) (fun _ => rfl)
      (Arithmetic.subtract_solves ha hb)
  · apply flags_of_arithmetic hs rfl (fun _ => rfl) (fun _ => rfl)
    rw [Arithmetic.reverseSubtract_eq]
    exact Arithmetic.subtract_solves hb ha
  · exact flags_of_arithmetic hs rfl (fun _ => rfl) (fun _ => rfl)
      (Arithmetic.shiftRight_solves ha)
  · exact flags_of_arithmetic hs rfl (fun _ => rfl) (fun _ => rfl)
      (Arithmetic.shiftLeft_solves ha)
  -- and those without
  · exact replaces_of_arithmetic hs rfl (fun _ => rfl) (fun _ => rfl) rfl
  · exact replaces_of_arithmetic hs rfl (fun _ => rfl) (fun _ => rfl)
      (Arithmetic.bitwise_toNat ..)
  · exact replaces_of_arithmetic hs rfl (fun _ => rfl) (fun _ => rfl)
      (Arithmetic.bitwise_toNat ..)
  · exact replaces_of_arithmetic hs rfl (fun _ => rfl) (fun _ => rfl)
      (Arithmetic.bitwise_toNat ..)
  · apply replaces_of_run hs h7 rfl
    rw [Operation.run, addImmediate, Operands.ofWord_wordOf_x, Operands.toNat_nn_wordOf]

/-- VF added to itself with X = Y = F: the sum of 128 and 128 has the result 0 and the flag 1,
and the flag is what VF holds. -/
theorem add_flag_register_to_itself :
    let s : State := (fresh ⟨0, 0⟩).setReg 0xF 0x80
    s.latch.code = noFault ∧
      ∃ t, s.execute 0x8FF4 = .ok t ∧ (t.reg flagRegister).toNat = 1 := by
  intro s
  have hV : (s.reg flagRegister).toNat = 0x80 := by decide
  obtain ⟨t, r, c, ht, hr, hc, hsum, hreg, -⟩ :=
    (arithmetic_exact (s := s) rfl flagRegister flagRegister 0).1
  refine ⟨rfl, t, ht, ?_⟩
  rw [hreg, if_pos rfl]
  omega

end State
end ChipEight
