/-
Numbers that live in fixed widths.

Some quantities are plain integers on the outside and one signed 32-bit lane
inside: a raw instruction, a sprite's place, the stack pointer. An integer that
no lane can hold is refused at the border; a sum formed inside a lane wraps.
-/
set_option autoImplicit false

namespace ChipEight

/-- An integer that one signed 32-bit lane can hold. -/
def fitsLane (n : Int) : Bool :=
  decide (-0x80000000 ≤ n) && decide (n < 0x80000000)

/-- The value a lane holds after wrapping. -/
def wrapLane (n : Int) : Int :=
  n.bmod 0x100000000

/-- The low sixteen bits of an integer of any size and sign. -/
def wordOfInt (w : Int) : UInt16 :=
  UInt16.ofNat (w % 0x10000).toNat

/-- `n` moved into the range from `lo` to `hi`. -/
def clampInt (lo hi n : Int) : Int :=
  min hi (max lo n)

theorem fitsLane_iff {n : Int} : fitsLane n = true ↔ -0x80000000 ≤ n ∧ n < 0x80000000 := by
  rw [fitsLane, Bool.and_eq_true, decide_eq_true_eq, decide_eq_true_eq]

/-- Addresses, places and heights are far below what a lane can hold. -/
theorem fitsLane_of_le {n : Nat} (h : n ≤ 4096) : fitsLane n = true :=
  fitsLane_iff.mpr (by omega)

theorem wrapLane_of_fitsLane {n : Int} (h : fitsLane n = true) : wrapLane n = n := by
  have hn := fitsLane_iff.mp h
  apply Int.bmod_eq_of_le <;> omega

theorem toNat_wordOfInt (w : Int) : ((wordOfInt w).toNat : Int) = w % 0x10000 := by
  have hlo : 0 ≤ w % 0x10000 := Int.emod_nonneg w (by decide)
  have hhi : w % 0x10000 < 0x10000 := Int.emod_lt_of_pos w (by decide)
  rw [wordOfInt, UInt16.toNat_ofNat_of_lt' (by simp [UInt16.size]; omega)]
  omega

/-- A word is cut to itself. -/
theorem wordOfInt_toNat (w : UInt16) : wordOfInt w.toNat = w := by
  have hlt := w.toNat_lt
  have hcut := toNat_wordOfInt w.toNat
  apply UInt16.toNat_inj.mp
  omega

end ChipEight
