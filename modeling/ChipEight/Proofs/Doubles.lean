/-
The doubles of whole numbers.

A rate is given as a whole number of any size and divides as a double. Which whole numbers
have a double is a matter of rounding: those below `doubleLimit`, half a unit past the
greatest double there is; from there on the nearest double is infinite. Every double of a
positive number has an exponent field of its own, neither the lowest nor the highest, and so
is finite and not zero (`exists_finite_ofBits`).

Comparisons with zero are the other half: a double that is not below zero is at or above it,
unless it is not a number at all.
-/
import ChipEight.Schedule.Plan
import Mathlib

set_option autoImplicit false

open Float.Model Float.Model.UnpackedFloat

namespace ChipEight

/-! ## Normal doubles -/

namespace Double

variable {b : BitVec Format.binary64.numBits}

/-- A double whose exponent field is neither the lowest nor the highest is finite, with a
significand of fifty-three bits. -/
theorem unpack_of_normal (hlow : unpackExponent b ≠ 0#_) (hhigh : unpackExponent b ≠ -1#_) :
    ∃ s m p, 2 ^ 52 ≤ m ∧ m < 2 ^ 53 ∧
      unpack Format.binary64 b =
        .finite s m (((unpackExponent b).toNat : Int) - 1075) p := by
  have hfraction : (unpackMantissa b).toNat < 2 ^ 52 := (unpackMantissa b).isLt
  have hsignificand : (1#1 ++ unpackMantissa b).toNat = 2 ^ 52 + (unpackMantissa b).toNat := by
    rw [BitVec.toNat_append, ← Nat.shiftLeft_add_eq_or_of_lt hfraction]
    rfl
  rw [UnpackedFloat.unpack]
  simp only [if_neg hhigh, if_neg hlow]
  exact ⟨_, (1#1 ++ unpackMantissa b).toNat, by omega, by omega, by omega, rfl⟩

theorem pack_of_normal (s : Sign) {m field : Nat} (p : 0 < m) (hlo : 2 ^ 52 ≤ m)
    (hhi : m < 2 ^ 53) (hfield : field < 2047) :
    pack Format.binary64 (.finite s m ((field : Int) - 1075) p) =
      packComponents Format.binary64 s (BitVec.ofNat _ field) (BitVec.ofNat _ m) := by
  have hlog : m.log2 = 52 := (Nat.log2_eq_iff (by omega)).mpr ⟨hlo, hhi⟩
  have hplace : ((field : Int) - 1075 + Format.binary64.exponentBias +
      Format.binary64.mantissaBitsWithoutImplicit).toNat = field := by
    show ((field : Int) - 1075 + 1023 + 52).toNat = field
    omega
  have hbits : m.log2 + 1 = Format.binary64.mantissaBits := by
    show m.log2 + 1 = 53
    omega
  rw [UnpackedFloat.pack]
  simp only [hplace]
  rw [if_neg (show ¬ 2 ^ 11 ≤ field + 1 by omega), if_pos hbits]

/-- Packed and unpacked again it is still one. -/
theorem exists_finite_unpack (hlow : unpackExponent b ≠ 0#_) (hhigh : unpackExponent b ≠ -1#_) :
    ∃ s m e p, unpack Format.binary64 (pack Format.binary64 (unpack Format.binary64 b)) =
      .finite s m e p := by
  have hfield : (unpackExponent b).toNat < 2047 := by
    have hlt : (unpackExponent b).toNat < 2 ^ 11 := (unpackExponent b).isLt
    have hne : (unpackExponent b).toNat ≠ 2047 := fun h => hhigh (BitVec.eq_of_toNat_eq h)
    omega
  obtain ⟨s, m, p, hlo, hhi, hunpack⟩ := unpack_of_normal hlow hhigh
  have hpacked : unpackExponent (pack Format.binary64 (unpack Format.binary64 b)) =
      unpackExponent b := by
    rw [hunpack, pack_of_normal s p hlo hhi hfield, unpackExponent_packComponents,
      BitVec.ofNat_toNat, BitVec.setWidth_eq]
  obtain ⟨t, k, q, -, -, hagain⟩ := unpack_of_normal (hpacked ▸ hlow) (hpacked ▸ hhigh)
  exact ⟨t, k, _, q, hagain⟩

/-- **The doubles from the least normal number up to infinity** are finite. -/
theorem exists_finite_ofBits {n : Nat} (hlo : 2 ^ 52 ≤ n) (hhi : n < 2047 * 2 ^ 52) :
    ∃ s m e p, (Float.ofBits (UInt64.ofNat n)).toModel.unpack = .finite s m e p := by
  have hfield : (@unpackExponent Format.binary64
      (UInt64.ofNat n).toBitVec).toNat = n / 2 ^ 52 := by
    have hword : (UInt64.ofNat n).toBitVec.toNat = n :=
      UInt64.toNat_ofNat_of_lt' (show n < 2 ^ 64 by omega)
    rw [unpackExponent]
    simp only [BitVec.toNat_cast, BitVec.extractLsb_toNat, Nat.shiftRight_eq_div_pow, hword]
    omega
  refine exists_finite_unpack (b := (UInt64.ofNat n).toBitVec) ?_ ?_
  · intro h
    have hzero : n / 2 ^ 52 = 0 := hfield.symm.trans (congrArg BitVec.toNat h)
    omega
  · intro h
    have hones : n / 2 ^ 52 = 2047 := hfield.symm.trans (congrArg BitVec.toNat h)
    omega

/-! ## Comparisons with zero -/

variable {x : Float}

theorem unpack_zero : (0 : Float).toModel.unpack = .zero .positive := rfl

theorem isInf_of_finite {s m e p} (h : x.toModel.unpack = .finite s m e p) :
    x.isInf = false := by
  rw [Float.isInf, Float.Model.isInf, h]
  rfl

theorem beq_zero_of_finite {s m e p} (h : x.toModel.unpack = .finite s m e p) :
    (x == 0) = false := by
  show x.beq 0 = false
  rw [Float.beq]
  show x.toModel.unpack.beq (0 : Float).toModel.unpack = false
  rw [h, unpack_zero]
  cases s with
  | positive => rfl
  | negative => rfl

theorem lt_zero_iff : x < 0 ↔ x.toModel.unpack.compare (.zero .positive) = some .lt := by
  show x.lt 0 = true ↔ _
  rw [Float.lt, decide_eq_true_iff]
  show x.toModel.unpack.lt (0 : Float).toModel.unpack = true ↔ _
  rw [unpack_zero, UnpackedFloat.lt]
  cases x.toModel.unpack.compare (.zero .positive) with
  | none => simp
  | some order => cases order <;> simp

theorem zero_le_iff :
    0 ≤ x ↔ ((UnpackedFloat.zero .positive).compare x.toModel.unpack).any (·.isLE) = true := by
  show (0 : Float).le x = true ↔ _
  rw [Float.le, decide_eq_true_iff]
  show (0 : Float).toModel.unpack.le x.toModel.unpack = true ↔ _
  rw [unpack_zero, UnpackedFloat.le]

/-- **A double that is not below zero** is at or above it, unless it is no number. -/
theorem zero_le_iff_of_not_lt (h : ¬ x < 0) : 0 ≤ x ↔ x.isNaN = false := by
  rw [lt_zero_iff] at h
  rw [zero_le_iff, Float.isNaN, Float.Model.isNaN]
  cases hx : x.toModel.unpack with
  | notANumber => simp [UnpackedFloat.compare, UnpackedFloat.isNaN]
  | zero s => simp [UnpackedFloat.compare, UnpackedFloat.isNaN]
  | infinity s => cases s <;> simp_all [UnpackedFloat.compare, UnpackedFloat.isNaN]
  | finite s m e p => cases s <;> simp_all [UnpackedFloat.compare, UnpackedFloat.isNaN]

end Double

/-! ## Rounded quotients -/

namespace Text

variable {n h k : Nat}

/-- A rounded quotient is the quotient or one more. -/
theorem roundDiv_bounds (n d : Nat) : n / d ≤ roundDiv n d ∧ roundDiv n d ≤ n / d + 1 := by
  rw [roundDiv]
  split
  · omega
  · omega

/-- A quotient that stays below an even bound after rounding stays half a unit below it. -/
theorem roundDiv_lt_iff (hpos : 0 < h) (heven : k % 2 = 0) (hlt : n < k * (2 * h)) :
    roundDiv n (2 * h) < k ↔ n + h < k * (2 * h) := by
  have hquotient : n / (2 * h) < k := Nat.div_lt_of_lt_mul (by rwa [Nat.mul_comm])
  have hwhole := Nat.div_add_mod n (2 * h)
  have hrest : n % (2 * h) < 2 * h := Nat.mod_lt _ (by omega)
  have hbounds := roundDiv_bounds n (2 * h)
  obtain hlast | hbefore : n / (2 * h) + 1 = k ∨ n / (2 * h) + 1 < k := by omega
  · have hodd : (n / (2 * h)) % 2 = 1 := by omega
    have hbound : k * (2 * h) = 2 * h * (n / (2 * h)) + 2 * h := by
      rw [← hlast, Nat.mul_comm, Nat.mul_succ]
    have hround : roundDiv n (2 * h) < k ↔ n % (2 * h) < h := by
      rw [roundDiv]
      simp only [hodd, beq_self_eq_true, Bool.and_true, Bool.or_eq_true, decide_eq_true_eq,
        beq_iff_eq]
      split
      · omega
      · omega
    omega
  · have hbound : 2 * h * (n / (2 * h) + 2) ≤ 2 * h * k := Nat.mul_le_mul_left _ hbefore
    rw [Nat.mul_add, Nat.mul_comm _ k] at hbound
    omega

/-! ## Whole numbers -/

/-- A whole number scaled to fifty-three bits. -/
theorem scaleByTwo_place (hpos : 0 < n) :
    ∃ a b, scaleByTwo n 1 ((n.log2 : Int) - 52) = (a, b) ∧ 0 < b ∧
      2 ^ 52 * b ≤ a ∧ a < 2 ^ 53 * b := by
  have hlo := Nat.log2_self_le (show n ≠ 0 by omega)
  have hhi := Nat.lt_log2_self (n := n)
  rw [scaleByTwo]
  by_cases hsmall : n.log2 < 52
  · have hpower : 2 ^ n.log2 * 2 ^ (52 - n.log2) = 2 ^ 52 := by
      rw [← Nat.pow_add]
      congr 1
      omega
    rw [if_pos (by omega), show (-((n.log2 : Int) - 52)).toNat = 52 - n.log2 by omega]
    refine ⟨_, _, rfl, by omega, ?_, ?_⟩
    · show 2 ^ 52 * 1 ≤ n * 2 ^ (52 - n.log2)
      rw [Nat.mul_one, ← hpower]
      exact Nat.mul_le_mul_right _ hlo
    · show n * 2 ^ (52 - n.log2) < 2 ^ 53 * 1
      rw [Nat.mul_one, Nat.pow_succ, ← hpower, Nat.mul_right_comm, ← Nat.pow_succ]
      exact Nat.mul_lt_mul_of_pos_right hhi (Nat.two_pow_pos _)
  · have hpower : 2 ^ 52 * 2 ^ (n.log2 - 52) = 2 ^ n.log2 := by
      rw [← Nat.pow_add]
      congr 1
      omega
    rw [if_neg (by omega), show ((n.log2 : Int) - 52).toNat = n.log2 - 52 by omega]
    have hone : 1 * twoTo (n.log2 - 52) = 2 ^ (n.log2 - 52) := Nat.one_mul _
    refine ⟨_, _, rfl, ?_, ?_, ?_⟩
    · rw [hone]
      exact Nat.two_pow_pos _
    · rwa [hone, hpower]
    · rwa [hone, Nat.pow_succ, Nat.mul_right_comm, hpower, ← Nat.pow_succ]

theorem placeOf_one (hpos : 0 < n) : placeOf n 1 = (n.log2 : Int) - 52 := by
  obtain ⟨a, b, hscale, hb, hlo, -⟩ := scaleByTwo_place hpos
  have hone : (1 : Nat).log2 = 0 := rfl
  have hquotient : ¬ a / b < twoTo 52 := Nat.not_lt.mpr ((Nat.le_div_iff_mul_le hb).mpr hlo)
  rw [placeOf]
  simp only [hone, Int.natCast_zero, Int.sub_zero, hscale, if_neg hquotient]
  omega

/-- The bits of a whole number: the exponent field from its binary length, and what its
fifty-three bits round to on top. -/
theorem nearestBits_one (hpos : 0 < n) :
    nearestBits n 1 =
      min ((n.log2 + 1022) * 2 ^ 52 +
        roundDiv (scaleByTwo n 1 ((n.log2 : Int) - 52)).1
          (scaleByTwo n 1 ((n.log2 : Int) - 52)).2) (2047 * 2 ^ 52) := by
  rw [nearestBits, if_neg (show n ≠ 0 by omega)]
  simp only [placeOf_one hpos]
  rw [show ((n.log2 : Int) - 52 + 1074).toNat = n.log2 + 1022 by omega]
  rfl

theorem le_nearestBits_one (hpos : 0 < n) : 2 ^ 52 ≤ nearestBits n 1 := by
  rw [nearestBits_one hpos]
  omega

/-- The first whole number whose nearest double is infinite: `2 ^ 1024` is the power of two
past the greatest double, and half of the unit of the doubles below it is `2 ^ 970`. -/
def doubleLimit : Nat := (2 ^ 54 - 1) * twoTo 970

theorem twoTo_pos (n : Nat) : 0 < twoTo n := Nat.two_pow_pos n

theorem twoTo_add (m n : Nat) : twoTo (m + n) = 2 ^ m * twoTo n := Nat.pow_add 2 m n

/-- **A whole number has a finite double** exactly below the limit. -/
theorem nearestBits_one_lt_iff (hpos : 0 < n) :
    nearestBits n 1 < 2047 * 2 ^ 52 ↔ n < doubleLimit := by
  have hlo : twoTo n.log2 ≤ n := Nat.log2_self_le (show n ≠ 0 by omega)
  have hhi : n < twoTo (n.log2 + 1) := Nat.lt_log2_self
  have hmono : ∀ {i j : Nat}, i ≤ j → twoTo i ≤ twoTo j := Nat.pow_le_pow_right (by decide)
  have hhalf := twoTo_pos 970
  rw [nearestBits_one hpos, doubleLimit]
  obtain hbelow | hat | habove : n.log2 ≤ 1022 ∨ n.log2 = 1023 ∨ 1024 ≤ n.log2 := by omega
  · obtain ⟨a, b, hscale, hb, -, hahi⟩ := scaleByTwo_place hpos
    have hquotient : a / b < 2 ^ 53 := Nat.div_lt_of_lt_mul (by rwa [Nat.mul_comm])
    have hround := (roundDiv_bounds a b).2
    have hsmall := Nat.lt_of_lt_of_le hhi (hmono (show n.log2 + 1 ≤ 53 + 970 by omega))
    simp only [twoTo_add, hscale] at hsmall ⊢
    omega
  · -- here the limit lies, and rounding decides
    have hunit : scaleByTwo n 1 ((n.log2 : Int) - 52) = (n, 2 * twoTo 970) := by
      rw [hat, scaleByTwo, if_neg (by omega),
        show (((1023 : Nat) : Int) - 52).toNat = 1 + 970 by omega, twoTo_add, Nat.pow_one,
        Nat.one_mul]
    have hbound := Nat.lt_of_lt_of_le hhi (hmono (show n.log2 + 1 ≤ 54 + 970 by omega))
    rw [twoTo_add] at hbound
    have hround := roundDiv_lt_iff (k := 2 ^ 53) hhalf (by decide)
      (show n < 2 ^ 53 * (2 * twoTo 970) by omega)
    simp only [hunit]
    omega
  · obtain ⟨a, b, hscale, hb, halo, -⟩ := scaleByTwo_place hpos
    have hquotient : 2 ^ 52 ≤ a / b := (Nat.le_div_iff_mul_le hb).mpr halo
    have hround := (roundDiv_bounds a b).1
    have hlarge := Nat.le_trans (hmono (show 54 + 970 ≤ n.log2 by omega)) hlo
    simp only [twoTo_add, hscale] at hlarge ⊢
    omega

theorem floatOfInt?_eq (n : Nat) :
    floatOfInt? n =
      if (Float.ofBits (UInt64.ofNat (nearestBits n 1))).isInf then none
      else some (Float.ofBits (UInt64.ofNat (nearestBits n 1))) := by
  have hsign : decide ((n : Int) < 0) = false := by
    rw [decide_eq_false_iff_not]
    omega
  simp only [floatOfInt?, nearest, hsign, Int.natAbs_natCast, Bool.false_eq_true, if_false]

theorem exists_floatOfInt? {n : Int} (hpos : 1 ≤ n) (hlt : n < doubleLimit) :
    ∃ x, floatOfInt? n = some x ∧ (x == 0) = false := by
  obtain ⟨k, rfl⟩ := Int.eq_ofNat_of_zero_le (show 0 ≤ n by omega)
  have hk : 0 < k := by omega
  obtain ⟨s, m, e, p, hfinite⟩ := Double.exists_finite_ofBits (le_nearestBits_one hk)
    ((nearestBits_one_lt_iff hk).mpr (by omega))
  refine ⟨_, ?_, Double.beq_zero_of_finite hfinite⟩
  rw [floatOfInt?_eq, Double.isInf_of_finite hfinite]
  rfl

theorem floatOfInt?_of_le {n : Int} (hle : doubleLimit ≤ n) : floatOfInt? n = none := by
  have hlimit : 0 < doubleLimit := Nat.mul_pos (by decide) (twoTo_pos 970)
  obtain ⟨k, rfl⟩ := Int.eq_ofNat_of_zero_le (show 0 ≤ n by omega)
  have hk : 0 < k := by omega
  have hlt := nearestBits_one_lt_iff hk
  have hge : 2047 * 2 ^ 52 ≤ nearestBits k 1 := by omega
  have htop : nearestBits k 1 = 2047 * 2 ^ 52 := by
    rw [nearestBits_one hk] at hge ⊢
    omega
  rw [floatOfInt?_eq, htop]
  rfl

end Text

/-! ## Rates -/

namespace Quantity

variable {n : Int}

/-- A positive rate has a period if it has a double. -/
theorem exists_period_whole (hpos : 1 ≤ n) (hlt : n < Text.doubleLimit) :
    ∃ x, (whole n).period = .ok x := by
  obtain ⟨x, hx, hnonzero⟩ := Text.exists_floatOfInt? hpos hlt
  refine ⟨1 / x, ?_⟩
  simp [period, toFloat?, hx, hnonzero]

theorem period_whole_of_le (hle : Text.doubleLimit ≤ n) :
    (whole n).period = .error .numberRange := by
  simp [period, toFloat?, Text.floatOfInt?_of_le hle]

end Quantity
end ChipEight
