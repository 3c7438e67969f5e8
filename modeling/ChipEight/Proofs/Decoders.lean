/-
Two decoders and three ways to execute.

`decode` takes an integer of any size, cuts it to sixteen bits and divides; `decodeLane`
takes one 32-bit lane apart with masks and arithmetic shifts, and names the class by its
place in the list of operations. They share nothing but the classification, and yet on
every integer that a lane can hold they see the same fields. The bridge between them is one
fact about a field of a lane, `toInt_field`: a mask that leaves the sign bit out, followed
by a shift to the right, is a quotient and a remainder.

The place decides what is carried out. `State.branches` is the list it selects from, one
longer than the list of operations, and a word of no class, whose place is `-1`, is sent to
the last entry. So executing an integer, executing its low sixteen bits and executing what
it was decoded to come to the same.
-/
import ChipEight.Proofs.Faults
import Mathlib.Algebra.Group.Nat.Defs

set_option autoImplicit false

namespace ChipEight

/-! ## One field of a lane -/

/-- A mask that leaves out the sign bit is a natural number of its own. -/
theorem mask_lt {width shift : Nat} (h : shift + width < 32) :
    (2 ^ width - 1) <<< shift < 2 ^ 31 := by
  have hwidth : 2 ^ width - 1 < 2 ^ width := Nat.sub_lt (Nat.two_pow_pos _) Nat.one_pos
  calc (2 ^ width - 1) <<< shift = (2 ^ width - 1) * 2 ^ shift := Nat.shiftLeft_eq _ _
    _ < 2 ^ width * 2 ^ shift := Nat.mul_lt_mul_of_pos_right hwidth (Nat.two_pow_pos _)
    _ = 2 ^ (width + shift) := (Nat.pow_add 2 width shift).symm
    _ ≤ 2 ^ 31 := Nat.pow_le_pow_right (by decide) (by omega)

/-- **A field of a lane**, masked where it is and shifted down. The sign bit is not in the
field, so the arithmetic shift brings in zeros. -/
theorem toInt_field (v : BitVec 32) {width shift : Nat} (h : shift + width < 32) :
    ((v &&& BitVec.ofNat 32 ((2 ^ width - 1) <<< shift)).sshiftRight shift).toInt =
      ((v.toNat / 2 ^ shift % 2 ^ width : Nat) : Int) := by
  have hmask := mask_lt h
  have hmasked : (v &&& BitVec.ofNat 32 ((2 ^ width - 1) <<< shift)).toNat =
      v.toNat &&& (2 ^ width - 1) <<< shift := by
    rw [BitVec.toNat_and, BitVec.toNat_ofNat, Nat.mod_eq_of_lt (by omega)]
  have hle : v.toNat &&& (2 ^ width - 1) <<< shift ≤ (2 ^ width - 1) <<< shift := Nat.and_le_right
  -- Shifted back, the mask is at the low end, where it takes a remainder.
  have hfield : (v.toNat &&& (2 ^ width - 1) <<< shift) >>> shift =
      v.toNat / 2 ^ shift % 2 ^ width := by
    rw [Nat.shiftRight_and_distrib, Nat.shiftLeft_shiftRight, Nat.and_two_pow_sub_one_eq_mod,
      Nat.shiftRight_eq_div_pow]
  rw [BitVec.toInt_sshiftRight, BitVec.toInt_eq_toNat_of_lt (by omega), hmasked, ← hfield]
  rfl

/-! ## All fields -/

/-- The fields of a word and a place, as numbers a lane can hold. -/
def Operands.fields (f : Operands) (tag : Int) : LaneFields where
  raw := f.raw.toNat
  tag := tag
  opcode := f.opcode.val
  x := f.x.val
  y := f.y.val
  n := f.n.val
  nn := f.nn.toNat
  nnn := f.nnn.val

/-- A decoded instruction as the other decoder puts it. -/
def Instruction.fields (i : Instruction) : LaneFields :=
  i.operands.fields i.operation.index

/-- The fields of a word, with the place of its class. -/
def LaneFields.ofWord (w : UInt16) : LaneFields :=
  (Operands.ofWord w).fields (Operation.indexOfWord w)

/-- **A lane taken apart** is its low sixteen bits taken apart by division. -/
theorem LaneFields.ofLane_eq (lane : BitVec 32) :
    ofLane lane = ofWord (UInt16.ofNat lane.toNat) := by
  have hlow : (lane &&& 0xFFFF#32).toNat = lane.toNat % 2 ^ 16 := by
    rw [BitVec.toNat_and]
    exact Nat.and_two_pow_sub_one_eq_mod lane.toNat 16
  have hword : (UInt16.ofNat lane.toNat).toNat = lane.toNat % 2 ^ 16 := rfl
  have hcut : UInt16.ofNat (lane.toNat % 2 ^ 16) = UInt16.ofNat lane.toNat := by
    apply UInt16.toNat_inj.mp
    rw [hword]
    exact Nat.mod_mod _ _
  have hraw : (lane &&& 0xFFFF#32).toInt = ((lane.toNat % 2 ^ 16 : Nat) : Int) := by
    rw [BitVec.toInt_eq_toNat_of_lt (by omega), hlow]
  -- Each field of the lane is one instance; those at the low end are shifted by nothing.
  have hfield := fun (width shift : Nat) (h : shift + width < 32) =>
    toInt_field (lane &&& 0xFFFF#32) h
  simp only [hlow] at hfield
  have hopcode := hfield 4 12 (by decide)
  have hx := hfield 4 8 (by decide)
  have hy := hfield 4 4 (by decide)
  have hn := hfield 4 0 (by decide)
  have hnn := hfield 8 0 (by decide)
  have hnnn := hfield 12 0 (by decide)
  simp only [BitVec.sshiftRight_zero, Nat.pow_zero, Nat.div_one] at hn hnn hnnn
  simp only [ofLane, ofWord, Operands.fields, Operands.ofWord, hword, hraw, hlow, hcut, mk.injEq,
    UInt8.toNat_ofNat']
  refine ⟨trivial, trivial, hopcode.trans ?_, hx.trans ?_, hy.trans ?_, hn.trans ?_, hnn.trans ?_,
    hnnn.trans ?_⟩
  all_goals omega

/-- The low sixteen bits of a lane are those of the integer in it. -/
theorem ofNat_toNat_ofInt (w : Int) : UInt16.ofNat (BitVec.ofInt 32 w).toNat = wordOfInt w := by
  have hword := toNat_wordOfInt w
  apply UInt16.toNat_inj.mp
  rw [UInt16.toNat_ofNat', BitVec.toNat_ofInt]
  omega

/-- The fields overlap: a byte is two digits, and an address is a digit and a byte. -/
theorem LaneFields.digits_ofWord (w : UInt16) :
    (ofWord w).raw = 4096 * (ofWord w).opcode + (ofWord w).nnn ∧
      (ofWord w).nnn = 256 * (ofWord w).x + (ofWord w).nn ∧
      (ofWord w).nn = 16 * (ofWord w).y + (ofWord w).n := by
  simp only [ofWord, Operands.fields, Operands.ofWord, UInt8.toNat_ofNat']
  omega

theorem decodeLane_of_fitsLane {w : Int} (h : fitsLane w = true) :
    decodeLane w = some (LaneFields.ofWord (wordOfInt w)) := by
  rw [decodeLane, if_pos h, LaneFields.ofLane_eq, ofNat_toNat_ofInt]

/-! ## Places -/

namespace Operation

theorem indexOfWord_of_none {w : UInt16} (h : ofWord? w = none) : indexOfWord w = -1 := by
  rw [indexOfWord, h]

theorem indexOfWord_of_some {w : UInt16} {o : Operation} (h : ofWord? w = some o) :
    indexOfWord w = o.index := by
  rw [indexOfWord, h]

/-- No operation has the place of a word of no class. -/
theorem indexOfWord_eq_neg_one_iff {w : UInt16} : indexOfWord w = -1 ↔ ofWord? w = none := by
  rcases h : ofWord? w with _ | o
  · simp [indexOfWord_of_none h]
  · simp [indexOfWord_of_some h]

end Operation

/-- What every place does, in order, and behind them what a word of no class does. -/
def State.branches : List (State → Operands → State) :=
  Operation.all.map (fun o s f => o.run s f) ++
    [fun s _ => s.note true Cause.invalidOpcode.code 0 0]

namespace LaneFields

/-- The branch that is taken: the place, or the one behind the last place. -/
def branch (f : LaneFields) : Nat :=
  if f.tag < 0 then Operation.all.length else f.tag.toNat

/-- The operand fields as digits, bytes and addresses. -/
def operands (f : LaneFields) : Operands where
  raw := UInt16.ofNat f.raw.toNat
  opcode := ⟨f.opcode.toNat % 16, Nat.mod_lt _ (by decide)⟩
  x := ⟨f.x.toNat % 16, Nat.mod_lt _ (by decide)⟩
  y := ⟨f.y.toNat % 16, Nat.mod_lt _ (by decide)⟩
  n := ⟨f.n.toNat % 16, Nat.mod_lt _ (by decide)⟩
  nn := UInt8.ofNat f.nn.toNat
  nnn := ⟨f.nnn.toNat % 4096, Nat.mod_lt _ (by decide)⟩

theorem operands_fields (f : Operands) (tag : Int) : (f.fields tag).operands = f := by
  simp [operands, Operands.fields, Nat.mod_eq_of_lt]

end LaneFields

/-- **The place of a word selects its effect**: the operation for a word that has one, and the
last branch, which no operation has, for a word that has none. -/
theorem exists_branch (w : UInt16) :
    ∃ b, State.branches[(LaneFields.ofWord w).branch]? = some b ∧
      ∀ s : State, s.dispatch w = b s (Operands.ofWord w) := by
  rcases h : Operation.ofWord? w with _ | o
  · have hplace : (LaneFields.ofWord w).branch = Operation.all.length := by
      simp [LaneFields.branch, LaneFields.ofWord, Operands.fields, Operation.indexOfWord_of_none h]
    refine ⟨fun s _ => s.note true Cause.invalidOpcode.code 0 0, ?_, ?_⟩
    -- the place is the number of the operations, and so just past the last of them
    · rw [hplace, State.branches, List.getElem?_append_right (by simp)]
      simp
    · intro s
      rw [State.dispatch, h]
  · have htag : (LaneFields.ofWord w).tag = o.index := Operation.indexOfWord_of_some h
    have hplace : (LaneFields.ofWord w).branch = o.index := by
      rw [LaneFields.branch, htag, if_neg (by omega), Int.toNat_natCast]
    have ho : Operation.all[o.index]? = some o := by
      simpa [Operation.ofIndex?] using Operation.ofIndex?_index o
    refine ⟨fun s f => o.run s f, ?_, ?_⟩
    · rw [hplace, State.branches, List.getElem?_append_left ?_, List.getElem?_map, ho]
      · rfl
      · rw [List.length_map]
        exact (List.getElem?_eq_some_iff.mp ho).1
    · intro s
      rw [State.dispatch, h]

/-! ## Decoding and executing -/

section

variable {w : Int} {i : Instruction} {e : Fault}

theorem decode_eq_ok_iff : decode w = .ok i ↔
    ∃ o, Operation.ofWord? (wordOfInt w) = some o ∧
      i = ⟨Operands.ofWord (wordOfInt w), o⟩ := by
  rw [decode]
  rcases Operation.ofWord? (wordOfInt w) with _ | o
  · simp
  · simp [eq_comm]

theorem decode_eq_error_iff : decode w = .error e ↔
    Operation.ofWord? (wordOfInt w) = none ∧
      e = ⟨.invalidOpcode, some (wordOfInt w).toNat, none⟩ := by
  rw [decode]
  rcases Operation.ofWord? (wordOfInt w) with _ | o
  · simp [eq_comm]
  · simp

/-- **What one decoder gives is what the other gives.** -/
theorem fields_of_decode_eq_ok (h : decode w = .ok i) :
    i.fields = LaneFields.ofWord (wordOfInt w) := by
  obtain ⟨o, ho, rfl⟩ := decode_eq_ok_iff.mp h
  rw [LaneFields.ofWord, Operation.indexOfWord_of_some ho]
  rfl

/-- An executed integer is cut to sixteen bits, so that it may be cut before. -/
theorem wordOfInt_emod (w : Int) : wordOfInt (w % 0x10000) = wordOfInt w := by
  rw [wordOfInt, wordOfInt, Int.emod_emod]

namespace State

variable {s : State}

theorem execute_emod (s : State) (w : Int) : s.execute (w % 0x10000) = s.execute w := by
  rw [execute, execute, wordOfInt_emod]

/-- An execution is refused for its word exactly when the word is not decoded, and then in
the same way. -/
theorem execute_eq_error_iff_decode (hs : s.latch.code = noFault)
    (he : e.cause = .invalidOpcode) : s.execute w = .error e ↔ decode w = .error e := by
  rw [execute_eq hs, outcome_eq_error_iff, decode_eq_error_iff]
  constructor
  · rintro ⟨c, hc, rfl⟩
    -- no operation notes this cause, so it was noted for want of a class
    obtain rfl : c = .invalidOpcode := he
    cases hc with
    | invalidOpcode hnone => exact ⟨hnone, rfl⟩
  · rintro ⟨hnone, rfl⟩
    exact ⟨_, .invalidOpcode hnone, rfl⟩

theorem executeDecoded_of_decode_eq_ok (s : State) (h : decode w = .ok i) :
    s.executeDecoded i = s.execute w := by
  obtain ⟨o, -, rfl⟩ := decode_eq_ok_iff.mp h
  have hraw : (Operands.ofWord (wordOfInt w)).raw = wordOfInt w := rfl
  rw [executeDecoded, hraw, execute, execute, wordOfInt_toNat]

end State

/-- **The decoders agree, and so do the executions.** On every integer that a lane can hold,
the two decoders see the same fields, which are the digits of its low sixteen bits; one
refuses the word exactly when the other gives it the place `-1`, and otherwise both give it the
same place. In every state with nothing noted, an integer of any size is executed as its low
sixteen bits are, by the branch that their place selects; it is refused as a word without a
class exactly when it is not decoded; and what it was decoded to is executed as it is. -/
theorem decoders_and_executions_agree :
    (∀ w : Int, fitsLane w = true → ∃ f, decodeLane w = some f ∧
      f.raw = w % 0x10000 ∧ f.raw = 4096 * f.opcode + f.nnn ∧ f.nnn = 256 * f.x + f.nn ∧
      f.nn = 16 * f.y + f.n ∧
      ((∃ e, decode w = .error e) ↔ f.tag = -1) ∧
      ∀ i, decode w = .ok i → i.fields = f) ∧
    (∀ w e, decode w = .error e → e = ⟨.invalidOpcode, some (w % 0x10000), none⟩) ∧
    ∀ s : State, s.latch.code = noFault → ∀ w : Int,
      s.execute (w % 0x10000) = s.execute w ∧
      (∃ f b, decodeLane (w % 0x10000) = some f ∧ State.branches[f.branch]? = some b ∧
        s.execute w = (b s f.operands).commit (some (w % 0x10000)) none) ∧
      (∀ e, e.cause = .invalidOpcode → (s.execute w = .error e ↔ decode w = .error e)) ∧
      ∀ i, decode w = .ok i → s.executeDecoded i = s.execute w := by
  refine ⟨?_, ?_, ?_⟩
  · intro w hw
    obtain ⟨hraw, hnnn, hnn⟩ := LaneFields.digits_ofWord (wordOfInt w)
    refine ⟨_, decodeLane_of_fitsLane hw, toNat_wordOfInt w, hraw, hnnn, hnn, ?_, ?_⟩
    · have htag : (LaneFields.ofWord (wordOfInt w)).tag = Operation.indexOfWord (wordOfInt w) := rfl
      rw [htag, Operation.indexOfWord_eq_neg_one_iff]
      simp [decode_eq_error_iff]
    · intro i
      exact fields_of_decode_eq_ok
  · intro w e he
    rw [(decode_eq_error_iff.mp he).2, toNat_wordOfInt]
  · intro s hs w
    have hlane : fitsLane (w % 0x10000) = true := fitsLane_iff.mpr (by omega)
    obtain ⟨b, hb, hdispatch⟩ := exists_branch (wordOfInt w)
    refine ⟨s.execute_emod w, ⟨_, b, decodeLane_of_fitsLane hlane, ?_, ?_⟩, ?_, ?_⟩
    · rw [wordOfInt_emod, hb]
    · rw [wordOfInt_emod, LaneFields.ofWord, LaneFields.operands_fields, ← hdispatch,
        State.execute, toNat_wordOfInt]
    · intro e he
      exact State.execute_eq_error_iff_decode hs he
    · intro i hi
      exact s.executeDecoded_of_decode_eq_ok hi

/-- 8014 in three disguises: as a negative number in a lane, as a number no lane can hold, and
decoded. -/
theorem disguised_word_adds :
    let s : State := ((State.fresh ⟨0, 0⟩).setReg 0 200).setReg 1 100
    let i : Instruction := ⟨Operands.ofWord 0x8014, .add⟩
    fitsLane (-0x7FEC) = true ∧ s.latch.code = noFault ∧
      (∃ f, decodeLane (-0x7FEC) = some f ∧ f.raw = 0x8014 ∧ f.tag = 13) ∧
      s.execute 0x8014 = s.execute 0x1000000008014 ∧
      s.executeDecoded i = s.execute 0x1000000008014 := by
  intro s i
  obtain ⟨hfields, -, hexecute⟩ := decoders_and_executions_agree
  have hlane : decode (-0x7FEC) = .ok i := rfl
  have hlarge : decode 0x1000000008014 = .ok i := rfl
  obtain ⟨f, hf, hraw, -, -, -, -, hsame⟩ := hfields (-0x7FEC) rfl
  obtain ⟨hcut, -, -, hdecoded⟩ := hexecute s rfl 0x1000000008014
  have htag : f.tag = 13 := by
    rw [← hsame i hlane]
    rfl
  exact ⟨rfl, rfl, ⟨f, hf, hraw, htag⟩, hcut, hdecoded i hlarge⟩

end

end ChipEight
