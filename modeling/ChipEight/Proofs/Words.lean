/-
Words written down by their digits.

The instruction set names its words by shapes such as 8XY4, with a digit for each
register. `wordOf` makes the word of four digits, and the operand fields of such a word
are its digits again, so a statement about 8XY4 can be made for all X and Y at once. Every
word is of four digits.

A word is executed from the integer it stands for. `execute_of_covers` is the one step from
there to the operation: the digits settle the class, and a word that meets nothing runs it.
-/
import ChipEight.Proofs.Faults

set_option autoImplicit false

namespace ChipEight

/-- The word of four digits, the most significant first. -/
def wordOf (first x y n : Fin 16) : UInt16 :=
  UInt16.ofNat (0x1000 * first + 0x100 * x + 0x10 * y + n)

variable (first x y n : Fin 16)

theorem toNat_wordOf : (wordOf first x y n).toNat = 0x1000 * first + 0x100 * x + 0x10 * y + n := by
  have hlt : 0x1000 * first.val + 0x100 * x + 0x10 * y + n < 2 ^ 16 := by omega
  exact UInt16.toNat_ofNat_of_lt hlt

/-! ## Digits and fields -/

theorem first_wordOf : (wordOf first x y n).toNat / 0x1000 = first := by
  rw [toNat_wordOf]
  omega

theorem byte_wordOf : (wordOf first x y n).toNat % 0x100 = 0x10 * y + n := by
  rw [toNat_wordOf]
  omega

namespace Operands

@[simp] theorem ofWord_wordOf_x : (ofWord (wordOf first x y n)).x = x := by
  apply Fin.ext
  have hword := toNat_wordOf first x y n
  simp only [ofWord]
  omega

@[simp] theorem ofWord_wordOf_y : (ofWord (wordOf first x y n)).y = y := by
  apply Fin.ext
  have hword := toNat_wordOf first x y n
  simp only [ofWord]
  omega

@[simp] theorem ofWord_wordOf_n : (ofWord (wordOf first x y n)).n = n := by
  apply Fin.ext
  have hword := toNat_wordOf first x y n
  simp only [ofWord]
  omega

theorem toNat_nn_wordOf : (ofWord (wordOf first x y n)).nn.toNat = 0x10 * y + n := by
  have hword := toNat_wordOf first x y n
  simp only [ofWord, UInt8.toNat_ofNat']
  omega

theorem eq_nn_wordOf (b : UInt8) :
    b = (ofWord (wordOf first x y n)).nn ↔ b.toNat = 0x10 * y + n := by
  rw [← UInt8.toNat_inj, toNat_nn_wordOf]

theorem nnn_wordOf : ((ofWord (wordOf first x y n)).nnn : Nat) = 0x100 * x + 0x10 * y + n := by
  have hword := toNat_wordOf first x y n
  simp only [ofWord]
  omega

end Operands

/-- Every word is of four digits. -/
theorem exists_eq_wordOf (w : UInt16) : ∃ first x y n, w = wordOf first x y n := by
  have hlt := w.toNat_lt
  refine ⟨(Operands.ofWord w).opcode, (Operands.ofWord w).x, (Operands.ofWord w).y,
    (Operands.ofWord w).n, ?_⟩
  apply UInt16.toNat_inj.mp
  rw [toNat_wordOf]
  simp only [Operands.ofWord]
  omega

/-! ## Carrying out a word -/

namespace State

variable {s : State} {o : Operation} {w : UInt16}

/-- A word of an operation is carried out by running the operation. -/
theorem dispatch_of_covers (ho : o.Covers w) : s.dispatch w = o.run s (Operands.ofWord w) := by
  rw [dispatch, Operation.ofWord?_of_covers ho]

/-- And it is executed so, if the operation meets nothing. -/
theorem execute_of_covers (hs : s.latch.code = noFault) (ho : o.Covers w)
    (hz : o.hazard? s (Operands.ofWord w) = none) :
    s.execute w.toNat = .ok (o.run s (Operands.ofWord w)) := by
  have hnone : s.hazard? w = none := by
    rw [hazard?, Operation.ofWord?_of_covers ho]
    exact hz
  rw [execute_eq hs, wordOfInt_toNat, hnone, ← dispatch_of_covers ho]

end State
end ChipEight
