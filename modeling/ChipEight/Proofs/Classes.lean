/-
Which words an operation has, as conditions on numbers.

`Operation.ofWord?` sorts a word by looking at its digits in layers. `Covers` says
the same from the side of the operation, without layers: the first digit, and where
that is not enough the last digit or the last byte. The two agree on every word, so
a proof that knows the operation of a word knows its digits, and the other way
round.
-/
import ChipEight.Execute

set_option autoImplicit false

namespace ChipEight.Operation

/-- The words of an operation, by their digits. -/
def Covers (o : Operation) (w : UInt16) : Prop :=
  let first := w.toNat / 0x1000
  let last := w.toNat % 0x10
  let byte := w.toNat % 0x100
  match o with
  | .clear => w = 0x00E0
  | .returnFromCall => w = 0x00EE
  | .jump => first = 0x1
  | .call => first = 0x2
  | .skipIfEqualImmediate => first = 0x3
  | .skipIfNotEqualImmediate => first = 0x4
  | .skipIfEqualRegister => first = 0x5
  | .setRegister => first = 0x6
  | .addImmediate => first = 0x7
  | .copyRegister => first = 0x8 ∧ last = 0x0
  | .bitwiseOr => first = 0x8 ∧ last = 0x1
  | .bitwiseAnd => first = 0x8 ∧ last = 0x2
  | .bitwiseXor => first = 0x8 ∧ last = 0x3
  | .add => first = 0x8 ∧ last = 0x4
  | .subtract => first = 0x8 ∧ last = 0x5
  | .shiftRight => first = 0x8 ∧ last = 0x6
  | .reverseSubtract => first = 0x8 ∧ last = 0x7
  | .shiftLeft => first = 0x8 ∧ last = 0xE
  | .skipIfNotEqualRegister => first = 0x9
  | .setIndex => first = 0xA
  | .jumpWithOffset => first = 0xB
  | .random => first = 0xC
  | .draw => first = 0xD
  | .skipIfKey => first = 0xE ∧ byte = 0x9E
  | .skipIfNotKey => first = 0xE ∧ byte = 0xA1
  | .getDelayTimer => first = 0xF ∧ byte = 0x07
  | .waitForKey => first = 0xF ∧ byte = 0x0A
  | .setDelayTimer => first = 0xF ∧ byte = 0x15
  | .setSoundTimer => first = 0xF ∧ byte = 0x18
  | .addToIndex => first = 0xF ∧ byte = 0x1E
  | .fontCharacter => first = 0xF ∧ byte = 0x29
  | .binaryCodedDecimal => first = 0xF ∧ byte = 0x33
  | .storeRegisters => first = 0xF ∧ byte = 0x55
  | .loadRegisters => first = 0xF ∧ byte = 0x65

/-! ## From the word to its digits -/

variable {w : UInt16} {o : Operation}

theorem nn_eq_iff (k : UInt8) : (Operands.ofWord w).nn = k ↔ w.toNat % 0x100 = k.toNat := by
  rw [← UInt8.toNat_inj]
  exact Iff.of_eq (congrArg (· = k.toNat) UInt8.toNat_ofNat)

theorem covers_of_ofArithmeticDigit? (h8 : w.toNat / 0x1000 = 0x8)
    (h : ofArithmeticDigit? (Operands.ofWord w).n = some o) : o.Covers w := by
  unfold ofArithmeticDigit? at h
  split at h
  all_goals cases h
  all_goals
    rename_i hn
    exact ⟨h8, congrArg Fin.val hn⟩

theorem covers_of_ofKeyByte? (hE : w.toNat / 0x1000 = 0xE)
    (h : ofKeyByte? (Operands.ofWord w).nn = some o) : o.Covers w := by
  unfold ofKeyByte? at h
  repeat' split at h
  all_goals cases h
  all_goals
    rename_i hn
    exact ⟨hE, (nn_eq_iff _).mp hn⟩

theorem covers_of_ofDeviceByte? (hF : w.toNat / 0x1000 = 0xF)
    (h : ofDeviceByte? (Operands.ofWord w).nn = some o) : o.Covers w := by
  unfold ofDeviceByte? at h
  repeat' split at h
  all_goals cases h
  all_goals
    rename_i hn
    exact ⟨hF, (nn_eq_iff _).mp hn⟩

theorem covers_of_ofOperands? (h : ofOperands? (Operands.ofWord w) = some o) : o.Covers w := by
  unfold ofOperands? at h
  split at h
  case h_8 hop => exact covers_of_ofArithmeticDigit? (congrArg Fin.val hop) h
  case h_14 hop => exact covers_of_ofKeyByte? (congrArg Fin.val hop) h
  case h_15 hop => exact covers_of_ofDeviceByte? (congrArg Fin.val hop) h
  all_goals cases h
  all_goals
    rename_i hop
    exact congrArg Fin.val hop

theorem covers_of_ofWord? (h : ofWord? w = some o) : o.Covers w := by
  unfold ofWord? at h
  split at h
  case isTrue hw =>
    cases h
    exact hw
  case isFalse =>
    split at h
    case isTrue hw =>
      cases h
      exact hw
    case isFalse => exact covers_of_ofOperands? h

/-! ## From the digits to the word -/

/-- A word whose first digit is not zero is settled by its fields. -/
theorem ofWord?_of_first_pos (h : 0 < w.toNat / 0x1000) :
    ofWord? w = ofOperands? (Operands.ofWord w) := by
  have h0 : w ≠ 0x00E0 := by
    rintro rfl
    exact absurd h (by decide)
  have hE : w ≠ 0x00EE := by
    rintro rfl
    exact absurd h (by decide)
  rw [ofWord?, if_neg h0, if_neg hE]

theorem ofWord?_of_first (k : Fin 16) (hk : 0 < k.val) (h : w.toNat / 0x1000 = k.val) :
    ofWord? w = ofOperands? { Operands.ofWord w with opcode := k } := by
  have hop : (Operands.ofWord w).opcode = k := Fin.ext h
  rw [ofWord?_of_first_pos (by omega), ← hop]

theorem ofWord?_of_arithmetic (k : Fin 16) (h8 : w.toNat / 0x1000 = 0x8)
    (hk : w.toNat % 0x10 = k.val) : ofWord? w = ofArithmeticDigit? k := by
  have hn : (Operands.ofWord w).n = k := Fin.ext hk
  rw [ofWord?_of_first 8 (by decide) h8, ← hn]
  rfl

theorem ofWord?_of_key (k : UInt8) (hE : w.toNat / 0x1000 = 0xE)
    (hk : w.toNat % 0x100 = k.toNat) : ofWord? w = ofKeyByte? k := by
  rw [ofWord?_of_first 14 (by decide) hE, ← (nn_eq_iff k).mpr hk]
  rfl

theorem ofWord?_of_device (k : UInt8) (hF : w.toNat / 0x1000 = 0xF)
    (hk : w.toNat % 0x100 = k.toNat) : ofWord? w = ofDeviceByte? k := by
  rw [ofWord?_of_first 15 (by decide) hF, ← (nn_eq_iff k).mpr hk]
  rfl

theorem ofWord?_of_covers (h : o.Covers w) : ofWord? w = some o := by
  cases o
  case clear | returnFromCall =>
    rw [show w = _ from h]
    rfl
  case jump => exact ofWord?_of_first 0x1 (by decide) h
  case call => exact ofWord?_of_first 0x2 (by decide) h
  case skipIfEqualImmediate => exact ofWord?_of_first 0x3 (by decide) h
  case skipIfNotEqualImmediate => exact ofWord?_of_first 0x4 (by decide) h
  case skipIfEqualRegister => exact ofWord?_of_first 0x5 (by decide) h
  case setRegister => exact ofWord?_of_first 0x6 (by decide) h
  case addImmediate => exact ofWord?_of_first 0x7 (by decide) h
  case copyRegister => exact ofWord?_of_arithmetic 0x0 h.1 h.2
  case bitwiseOr => exact ofWord?_of_arithmetic 0x1 h.1 h.2
  case bitwiseAnd => exact ofWord?_of_arithmetic 0x2 h.1 h.2
  case bitwiseXor => exact ofWord?_of_arithmetic 0x3 h.1 h.2
  case add => exact ofWord?_of_arithmetic 0x4 h.1 h.2
  case subtract => exact ofWord?_of_arithmetic 0x5 h.1 h.2
  case shiftRight => exact ofWord?_of_arithmetic 0x6 h.1 h.2
  case reverseSubtract => exact ofWord?_of_arithmetic 0x7 h.1 h.2
  case shiftLeft => exact ofWord?_of_arithmetic 0xE h.1 h.2
  case skipIfNotEqualRegister => exact ofWord?_of_first 0x9 (by decide) h
  case setIndex => exact ofWord?_of_first 0xA (by decide) h
  case jumpWithOffset => exact ofWord?_of_first 0xB (by decide) h
  case random => exact ofWord?_of_first 0xC (by decide) h
  case draw => exact ofWord?_of_first 0xD (by decide) h
  case skipIfKey => exact ofWord?_of_key 0x9E h.1 h.2
  case skipIfNotKey => exact ofWord?_of_key 0xA1 h.1 h.2
  case getDelayTimer => exact ofWord?_of_device 0x07 h.1 h.2
  case waitForKey => exact ofWord?_of_device 0x0A h.1 h.2
  case setDelayTimer => exact ofWord?_of_device 0x15 h.1 h.2
  case setSoundTimer => exact ofWord?_of_device 0x18 h.1 h.2
  case addToIndex => exact ofWord?_of_device 0x1E h.1 h.2
  case fontCharacter => exact ofWord?_of_device 0x29 h.1 h.2
  case binaryCodedDecimal => exact ofWord?_of_device 0x33 h.1 h.2
  case storeRegisters => exact ofWord?_of_device 0x55 h.1 h.2
  case loadRegisters => exact ofWord?_of_device 0x65 h.1 h.2

/-- The layers of `ofWord?` and the conditions of `Covers` are two accounts of the
same classes. -/
theorem ofWord?_eq_some_iff : ofWord? w = some o ↔ o.Covers w :=
  ⟨covers_of_ofWord?, ofWord?_of_covers⟩

/-- A word has one operation at most. -/
theorem eq_of_covers {o' : Operation} (h : o.Covers w) (h' : o'.Covers w) : o = o' :=
  Option.some.inj ((ofWord?_of_covers h).symm.trans (ofWord?_of_covers h'))

end ChipEight.Operation
