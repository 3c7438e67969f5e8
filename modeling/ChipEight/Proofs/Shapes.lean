/-
Words and the shapes they are documented by.

The instruction set names the words of an operation by a shape: 8XY4 are the words whose
first digit is 8 and whose last is 4. `Operation.fits` compares a word with a shape digit by
digit, and the classification by which words are decoded looks at digits in layers. Both come
down to conditions on the number of the word, and `fits_iff` puts them side by side: a word
that has a shape is covered by the operation, and a word that is covered has the shape, with
two exceptions. The shapes 5XY0 and 9XY0 end in a digit that the classification never looks
at, so the fifteen other words of the same X and Y are decoded as if they had that shape.

The main statement says for every integer which of the three happens to it: it is decoded by
its shape, refused, or taken for a register skip that it does not have the shape of.
-/
import ChipEight.Proofs.Words

set_option autoImplicit false

namespace ChipEight

/-! ## One character of a shape -/

/-- The digit that a character of a shape stands for. -/
def digitOf (c : Char) : Nat :=
  if c.toNat < 0x40 then c.toNat - 0x30 else c.toNat - 0x37

theorem shapeAdmits_iff {c : Char} (hc : c ∈ (List.finRange 16).map Text.hexDigit)
    (d : Fin 16) : shapeAdmits c d = true ↔ d.val = digitOf c := by
  obtain ⟨k, -, rfl⟩ := List.mem_map.mp hc
  revert k d
  decide +kernel

theorem shapeAdmits_of_wildcard {c : Char} (hc : c ∈ ['X', 'Y', 'N']) (d : Fin 16) :
    shapeAdmits c d = true := by
  simp only [List.mem_cons, List.not_mem_nil, or_false] at hc
  rcases hc with rfl | rfl | rfl
  all_goals rfl

/-! ## Shapes and classes -/

namespace Operation

/-- The operations whose shape ends in a digit that no word is sorted by. -/
def looselyShaped : List Operation :=
  [skipIfEqualRegister, skipIfNotEqualRegister]

variable {o o' : Operation} {w : UInt16}

/-- **A shape is a class with its last digit.** Only for two classes is that a condition of
its own. -/
theorem fits_iff (o : Operation) (w : UInt16) :
    o.fits w = true ↔ o.Covers w ∧ (o ∈ looselyShaped → w.toNat % 0x10 = 0) := by
  cases o
  -- these two are taken whole, and the other way round four digits make one word
  case clear | returnFromCall =>
    simp (disch := decide) [fits, shape, Operands.digits, Operands.ofWord, Covers,
      looselyShaped, digitOf, shapeAdmits_iff, ← UInt16.toNat_inj]
    omega
  case skipIfKey | skipIfNotKey | getDelayTimer | waitForKey | setDelayTimer | setSoundTimer
      | addToIndex | fontCharacter | binaryCodedDecimal | storeRegisters | loadRegisters =>
    -- a byte of the word is two digits of the shape
    simp (disch := decide) [fits, shape, Operands.digits, Operands.ofWord, Covers,
      looselyShaped, digitOf, shapeAdmits_iff, shapeAdmits_of_wildcard]
    omega
  all_goals
    simp (disch := decide) [fits, shape, Operands.digits, Operands.ofWord, Covers,
      looselyShaped, digitOf, shapeAdmits_iff, shapeAdmits_of_wildcard]

theorem covers_of_fits (h : o.fits w = true) : o.Covers w :=
  ((fits_iff o w).mp h).1

/-- A word has one shape at most. -/
theorem eq_of_fits (h : o.fits w = true) (h' : o'.fits w = true) : o = o' :=
  eq_of_covers (covers_of_fits h) (covers_of_fits h')

/-- A covered word of no shape is a register skip. -/
theorem mem_looselyShaped_of_covers (h : o.Covers w) (hnone : ∀ o : Operation, o.fits w = false) :
    o ∈ looselyShaped := by
  apply Decidable.byContradiction
  intro hstrict
  have hfits := (fits_iff o w).mpr ⟨h, fun hloose => absurd hloose hstrict⟩
  rw [hnone o] at hfits
  cases hfits

end Operation

/-! ## Decoding and carrying out -/

/-- The word has the shape of no operation. -/
def Shapeless (w : UInt16) : Prop :=
  ∀ o : Operation, o.fits w = false

/-- An integer is decoded as an operation with the digits of its word, and in every state it
is executed by carrying out that operation. -/
structure RunsAs (w : Int) (o : Operation) : Prop where
  decode : decode w = .ok ⟨Operands.ofWord (wordOfInt w), o⟩
  execute : ∀ s : State, s.execute w =
    (o.run s (Operands.ofWord (wordOfInt w))).commit (some (w % 0x10000)) none

/-- An integer is neither decoded nor, in a state with nothing noted, executed. -/
structure Refused (w : Int) : Prop where
  decode : decode w = .error ⟨.invalidOpcode, some (w % 0x10000), none⟩
  execute : ∀ s : State, s.latch.code = noFault →
    s.execute w = .error ⟨.invalidOpcode, some (w % 0x10000), none⟩

section

variable {o : Operation} {w : Int}

theorem RunsAs.of_covers (h : o.Covers (wordOfInt w)) : RunsAs w o where
  decode := by rw [ChipEight.decode, Operation.ofWord?_of_covers h]
  execute s := by rw [State.execute, State.dispatch_of_covers h, toNat_wordOfInt]

theorem Refused.of_none (h : Operation.ofWord? (wordOfInt w) = none) : Refused w where
  decode := by rw [ChipEight.decode, h, toNat_wordOfInt]
  execute s hs := by
    have hhazard : s.hazard? (wordOfInt w) = some .invalidOpcode := by
      rw [State.hazard?, h]
    rw [State.execute_eq hs, hhazard, toNat_wordOfInt]

theorem RunsAs.not_refused (h : RunsAs w o) : ¬ Refused w := by
  intro hrefused
  have hdecode := h.decode
  rw [hrefused.decode] at hdecode
  cases hdecode

/-- A shapeless word is refused unless its first digit makes it a register skip. -/
theorem Shapeless.ofWord?_eq_none {u : UInt16} (h : Shapeless u) (h5 : u.toNat / 0x1000 ≠ 0x5)
    (h9 : u.toNat / 0x1000 ≠ 0x9) : Operation.ofWord? u = none := by
  rcases ho : Operation.ofWord? u with _ | o
  · rfl
  · have hcovers := Operation.covers_of_ofWord? ho
    have hloose := Operation.mem_looselyShaped_of_covers hcovers h
    simp only [Operation.looselyShaped, List.mem_cons, List.not_mem_nil, or_false] at hloose
    rcases hloose with rfl | rfl
    · exact absurd hcovers h5
    · exact absurd hcovers h9

/-- **Decoding follows the shapes, but for the register skips.** No word has two shapes. An
integer whose low sixteen bits have the shape of an operation is decoded as that operation and
executed by it. One whose low sixteen bits have no shape is refused if and only if their first
digit is neither 5 nor 9: the words 5XYN and 9XYN with another last digit than 0 are decoded
as 5XY0 and 9XY0 are, and executed like these. -/
theorem decoding_follows_shapes (w : Int) :
    ((wordOfInt w).toNat : Int) = w % 0x10000 ∧
      (∀ o o' : Operation, o.fits (wordOfInt w) = true → o'.fits (wordOfInt w) = true →
        o = o') ∧
      (∀ o : Operation, o.fits (wordOfInt w) = true → RunsAs w o) ∧
      (Shapeless (wordOfInt w) →
        (Refused w ↔ (wordOfInt w).toNat / 0x1000 ≠ 0x5 ∧ (wordOfInt w).toNat / 0x1000 ≠ 0x9) ∧
        ((wordOfInt w).toNat / 0x1000 = 0x5 → RunsAs w .skipIfEqualRegister) ∧
        ((wordOfInt w).toNat / 0x1000 = 0x9 → RunsAs w .skipIfNotEqualRegister)) := by
  have hequal : (wordOfInt w).toNat / 0x1000 = 0x5 → RunsAs w .skipIfEqualRegister :=
    fun h5 => RunsAs.of_covers (o := .skipIfEqualRegister) h5
  have hunequal : (wordOfInt w).toNat / 0x1000 = 0x9 → RunsAs w .skipIfNotEqualRegister :=
    fun h9 => RunsAs.of_covers (o := .skipIfNotEqualRegister) h9
  refine ⟨toNat_wordOfInt w, fun _ _ => Operation.eq_of_fits,
    fun _ h => RunsAs.of_covers (Operation.covers_of_fits h), ?_⟩
  intro hshapeless
  refine ⟨⟨?_, ?_⟩, hequal, hunequal⟩
  · intro hrefused
    exact ⟨fun h5 => (hequal h5).not_refused hrefused,
      fun h9 => (hunequal h9).not_refused hrefused⟩
  · rintro ⟨h5, h9⟩
    exact Refused.of_none (hshapeless.ofWord?_eq_none h5 h9)

/-- 5AB1, here as a negative integer, has no shape and is carried out as a skip. -/
theorem shapeless_word_skips :
    Shapeless (wordOfInt (-0xA54F)) ∧ RunsAs (-0xA54F) .skipIfEqualRegister ∧
      ¬ Refused (-0xA54F) := by
  have hword : wordOfInt (-0xA54F) = 0x5AB1 := by decide
  have hshapeless : Shapeless (wordOfInt (-0xA54F)) := by
    intro o
    rw [hword]
    cases o <;> decide +kernel
  obtain ⟨-, -, -, hrest⟩ := decoding_follows_shapes (-0xA54F)
  obtain ⟨hrefused, hequal, -⟩ := hrest hshapeless
  have h5 : (wordOfInt (-0xA54F)).toNat / 0x1000 = 0x5 := by
    rw [hword]
    rfl
  exact ⟨hshapeless, hequal h5, fun h => (hrefused.mp h).1 h5⟩

end

end ChipEight
