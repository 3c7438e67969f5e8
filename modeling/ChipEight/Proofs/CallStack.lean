/-
The call stack between its limits.

`push` and `pop` are total and move a pointer that may be any integer. On a stack
that pushing and popping can make, with the pointer from 0 to 16, neither clamps
nor wraps: `push_of_room` and `pop_of_pos` say what they do where there is room and
where there is an address, `push_of_full` and `pop_of_empty` that they write back what
was there where there is none. Later proofs use only these four.

`CallStack.Sound` is what every run keeps. The slots at and above the pointer are
part of it, because a pop clears the slot it leaves.
-/
import ChipEight.CallStack

set_option autoImplicit false

namespace ChipEight.CallStack

/-! ## The two operations between the limits -/

variable {s : CallStack}

theorem place_of_nonneg {i : Int} (h : 0 ≤ i) : place i = i :=
  if_neg (by omega)

theorem setSlot_of_nonneg (s : CallStack) {i : Int} (h : 0 ≤ i) (value : UInt16) :
    s.setSlot i value = { s with slots := s.slots.setIfInBounds i.toNat value } := by
  rw [setSlot, place_of_nonneg h, if_neg (by omega)]

theorem slotAt_of_lt (s : CallStack) {i : Nat} (h : i < 16) : s.slotAt i = s.slots[i] := by
  have hclamp : (clampInt 0 15 (i : Int)).toNat = i := by
    rw [clampInt]
    omega
  rw [slotAt, place_of_nonneg (by omega), hclamp, Array.getD_eq_getD_getElem?]
  simp [h]

/-- A push where there is room: the free slot takes the address. -/
theorem push_of_room (h0 : 0 ≤ s.pointer) (h : s.pointer < 16) (a : Int) :
    s.push a =
      (⟨s.slots.setIfInBounds s.pointer.toNat (wordOfInt a), s.pointer + 1⟩, false) := by
  have hfull : ¬ (stackCapacity : Int) ≤ s.pointer := Int.not_le.mpr h
  have hslot : min s.pointer 15 = s.pointer := by omega
  have hwrap : wrapLane (s.pointer + 1) = s.pointer + 1 :=
    wrapLane_of_fitsLane (fitsLane_iff.mpr (by omega))
  rw [push, decide_eq_false hfull, hslot, hwrap]
  dsimp only
  rw [setSlot_of_nonneg s h0]
  rfl

/-- A pop where there is an address: its slot is cleared. -/
theorem pop_of_pos (h0 : 0 < s.pointer) (h : s.pointer ≤ 16) :
    s.pop =
      (⟨s.slots.setIfInBounds (s.pointer - 1).toNat 0, s.pointer - 1⟩,
        s.slotAt (s.pointer - 1), false) := by
  have hempty : ¬ s.pointer ≤ 0 := Int.not_le.mpr h0
  have hwrap : wrapLane (s.pointer - 1) = s.pointer - 1 :=
    wrapLane_of_fitsLane (fitsLane_iff.mpr (by omega))
  have hmax : max (s.pointer - 1) 0 = s.pointer - 1 := by omega
  rw [pop, decide_eq_false hempty, hwrap, hmax]
  dsimp only
  rw [setSlot_of_nonneg s (by omega)]
  rfl

/-- A slot that is written back as it was read changes nothing. -/
theorem setSlot_slotAt (s : CallStack) {i : Nat} (h : i < 16) : s.setSlot i (s.slotAt i) = s := by
  have hslots : s.slots.setIfInBounds i s.slots[i] = s.slots := by
    apply Vector.ext
    intro j hj
    rw [Vector.getElem_setIfInBounds hj]
    by_cases heq : i = j
    · subst heq
      rw [if_pos rfl]
    · rw [if_neg heq]
  rw [setSlot_of_nonneg s (by omega), s.slotAt_of_lt h, Int.toNat_natCast, hslots]

/-- A push on a full stack: the last slot is written back, and the pointer stays. -/
theorem push_of_full (h : 16 ≤ s.pointer) (a : Int) : s.push a = (s, true) := by
  have hfull : (stackCapacity : Int) ≤ s.pointer := h
  have hslot : min s.pointer 15 = (15 : Nat) := by omega
  rw [push, decide_eq_true hfull, hslot]
  simp only [if_true, s.setSlot_slotAt (by decide : 15 < 16)]

/-- A pop on an empty stack: the first slot is written back, and the pointer stays. -/
theorem pop_of_empty (h : s.pointer = 0) : s.pop = (s, s.slotAt 0, true) := by
  have hwrap : max (wrapLane (s.pointer - 1)) 0 = (0 : Nat) := by
    rw [h]
    decide
  have hback : s.setSlot (0 : Nat) (s.slotAt (0 : Nat)) = s := s.setSlot_slotAt (by decide)
  rw [pop, decide_eq_true (Int.le_of_eq h), hwrap]
  simp only [if_true, hback]
  rw [Int.natCast_zero, ← h]

/-! ## What every run keeps -/

/-- A call stack between its limits: return addresses below the pointer, and nothing
at or above it. A return address is the address behind a word of the memory. -/
structure Sound (s : CallStack) : Prop where
  pointer_nonneg : 0 ≤ s.pointer
  pointer_le : s.pointer ≤ 16
  returns (i : Nat) (hi : i < 16) : (i : Int) < s.pointer →
    2 ≤ s.slots[i].toNat ∧ s.slots[i].toNat ≤ 0x1000
  cleared (i : Nat) (hi : i < 16) : s.pointer ≤ i → s.slots[i] = 0

theorem sound_empty : empty.Sound where
  pointer_nonneg := Int.le_refl 0
  pointer_le := by decide
  returns i _ hi := absurd (show (i : Int) < 0 from hi) (by omega)
  cleared i hi _ := Vector.getElem_replicate hi

/-- The address on top of a sound stack is a return address. -/
theorem Sound.slotAt_top (h : s.Sound) (h0 : 0 < s.pointer) :
    2 ≤ (s.slotAt (s.pointer - 1)).toNat ∧ (s.slotAt (s.pointer - 1)).toNat ≤ 0x1000 := by
  have hle := h.pointer_le
  have htop : s.pointer - 1 = ((s.pointer - 1).toNat : Int) := by omega
  rw [htop, s.slotAt_of_lt (by omega)]
  exact h.returns _ _ (by omega)

theorem Sound.push (h : s.Sound) (hroom : s.pointer < 16) {a : UInt16}
    (hlo : 2 ≤ a.toNat) (hhi : a.toNat ≤ 0x1000) : (s.push a.toNat).1.Sound := by
  have h0 := h.pointer_nonneg
  rw [push_of_room h0 hroom, wordOfInt_toNat]
  refine ⟨?_, ?_, ?_, ?_⟩
  · show 0 ≤ s.pointer + 1
    omega
  · show s.pointer + 1 ≤ 16
    omega
  · -- The address is on top, in the slot of the old pointer, and below it nothing changed.
    intro i hi hlt
    replace hlt : (i : Int) < s.pointer + 1 := hlt
    rw [Vector.getElem_setIfInBounds hi]
    by_cases heq : s.pointer.toNat = i
    · rw [if_pos heq]
      exact ⟨hlo, hhi⟩
    · rw [if_neg heq]
      exact h.returns i hi (by omega)
  · intro i hi hle
    replace hle : s.pointer + 1 ≤ (i : Int) := hle
    rw [Vector.getElem_setIfInBounds hi, if_neg (by omega)]
    exact h.cleared i hi (by omega)

theorem Sound.pop (h : s.Sound) (h0 : 0 < s.pointer) : s.pop.1.Sound := by
  have hle := h.pointer_le
  rw [pop_of_pos h0 hle]
  refine ⟨?_, ?_, ?_, ?_⟩
  · show 0 ≤ s.pointer - 1
    omega
  · show s.pointer - 1 ≤ 16
    omega
  · intro i hi hlt
    replace hlt : (i : Int) < s.pointer - 1 := hlt
    rw [Vector.getElem_setIfInBounds hi, if_neg (by omega)]
    exact h.returns i hi (by omega)
  · -- The slot the pointer comes down to is the one that was cleared.
    intro i hi hge
    replace hge : s.pointer - 1 ≤ (i : Int) := hge
    rw [Vector.getElem_setIfInBounds hi]
    by_cases heq : (s.pointer - 1).toNat = i
    · rw [if_pos heq]
    · rw [if_neg heq]
      exact h.cleared i hi (by omega)

end ChipEight.CallStack
