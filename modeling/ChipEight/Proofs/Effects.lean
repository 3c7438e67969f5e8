/-
What an operation does to one field at a time.

`Operation.run` is laid out by operation: one handler each, and a handler says
what it does to the whole state. Invariants are laid out the other way round,
field by field. This file is the change of layout. For a field there
is a function, such as `pcAfter`, `stackAfter` or `hazard?`, and an equation saying
that the field after the operation is that function of the state before. Proofs
about whole cycles read these equations and never open a handler.

Nothing is assumed about the state: the equations hold on states no run reaches,
and on a latch that has something noted already.
-/
import ChipEight.Machine

set_option autoImplicit false

namespace ChipEight

/-! ## The latch -/

namespace FaultLatch

/-- What is noted first stays. -/
theorem note_of_noted {l : FaultLatch} (h : l.code ≠ noFault) (condition : Bool)
    (code start length : Int) : l.note condition code start length = l := by
  rw [note, decide_eq_false h, Bool.and_false]
  rfl

theorem note_of_clear {l : FaultLatch} (h : l.code = noFault) (code start length : Int) :
    l.note true code start length = ⟨code, start, length⟩ := by
  rw [note, decide_eq_true h]
  rfl

/-- Meets a cause, or nothing: notes the cause under its code, with its range if it
is about memory. -/
def meet (l : FaultLatch) : Option Cause → FaultLatch
  | none => l
  | some (.memoryRange start length) => l.note true (Cause.memoryRange 0 0).code start length
  | some c => l.note true c.code 0 0

/-- A cause met on a clear latch is read back from it. -/
theorem cause?_meet {l : FaultLatch} (h : l.code = noFault) {c : Cause}
    (hc : ∀ code, c ≠ .unknownCode code) : (l.meet (some c)).cause? = some c := by
  cases c with
  | unknownCode code => exact absurd rfl (hc code)
  | _ => exact congrArg cause? (note_of_clear h _ _ _)

/-- What is noted first stays: nothing is met on a latch that has something noted. -/
theorem meet_of_noted {l : FaultLatch} (h : l.code ≠ noFault) (c? : Option Cause) :
    l.meet c? = l := by
  cases c? with
  | none => rfl
  | some c => cases c <;> exact note_of_noted h _ _ _ _

/-- Noting on a condition is meeting a cause or nothing. -/
theorem note_eq_meet (l : FaultLatch) (p : Prop) [Decidable p] (c : Cause)
    (hc : ∀ start length, c ≠ .memoryRange start length) :
    l.note (decide p) c.code 0 0 = l.meet (if p then some c else none) := by
  by_cases hp : p
  · rw [decide_eq_true hp, if_pos hp]
    cases c with
    | memoryRange start length => exact absurd rfl (hc start length)
    | _ => rfl
  · rw [decide_eq_false hp, if_neg hp]
    rfl

end FaultLatch

/-- A range of natural numbers never begins before the memory. -/
theorem Memory.inRange_natCast (start length : Nat) :
    Memory.inRange start length = decide (start + length ≤ 4096) := by
  rw [Memory.inRange, decide_eq_true (Int.natCast_nonneg start), Bool.true_and]
  exact decide_eq_decide.mpr (by omega)

/-! ## Shapes

The handlers that note a range go on with the state the note leaves, and that
state is the old one but for its latch. The length of the range is a variable in
the first two lemmas on purpose: at a numeral the kernel would compare two latches
by counting to the size of the memory. -/

namespace State

theorem skipIf_eq (s : State) (c : Bool) :
    s.skipIf c = { s with pc := if c then s.pc + 2 else s.pc } := by
  rw [skipIf]
  cases c <;> rfl

theorem noteRange_withMemory (s : State) (length : Nat) (M : Memory) :
    { s.noteRange length with memory := M } =
      { s with memory := M, latch := (s.noteRange length).latch } := rfl

theorem noteRange_withRegisters (s : State) (length : Nat) (V : Vector UInt8 16) :
    { s.noteRange length with V := V } =
      { s with V := V, latch := (s.noteRange length).latch } := rfl

theorem binaryCodedDecimal_shape (s : State) (f : Operands) :
    ∃ M, s.binaryCodedDecimal f = { s with memory := M, latch := (s.noteRange 3).latch } :=
  ⟨_, noteRange_withMemory s 3 _⟩

theorem storeRegisters_shape (s : State) (f : Operands) :
    ∃ M, s.storeRegisters f =
      { s with memory := M, latch := (s.noteRange (f.x.val + 1)).latch } :=
  ⟨_, noteRange_withMemory s _ _⟩

theorem loadRegisters_shape (s : State) (f : Operands) :
    ∃ V, s.loadRegisters f = { s with V := V, latch := (s.noteRange (f.x.val + 1)).latch } :=
  ⟨_, noteRange_withRegisters s _ _⟩

/-- What DXYN draws. -/
def drawing (s : State) (f : Operands) : Drawing :=
  Sprite.draw s.display (s.memory.gather s.I.toNat maxSpriteHeight)
    ((s.reg f.x).toNat % 64 : Nat) ((s.reg f.y).toNat % 32 : Nat) f.n.val

theorem draw_eq (s : State) (f : Operands) :
    s.draw f = { s with
      V := s.V.set flagRegister (if (s.drawing f).collision then 1 else 0)
      display := (s.drawing f).display
      displayChanged := s.displayChanged || (s.drawing f).toggled
      latch := (s.noteRange f.n.val).latch } := by
  rw [draw, drawing]
  rfl

/-- The cause met by an access to `length` bytes at the index, if they leave the
memory. -/
def rangeHazard? (s : State) (length : Nat) : Option Cause :=
  if 4096 < s.I.toNat + length then some (.memoryRange s.I.toNat length) else none

theorem noteRange_latch (s : State) (length : Nat) :
    (s.noteRange length).latch = s.latch.meet (s.rangeHazard? length) := by
  have hrange : (!Memory.inRange s.I.toNat length) = decide (4096 < s.I.toNat + length) := by
    rw [Memory.inRange_natCast, ← decide_not]
    exact decide_eq_decide.mpr Nat.not_le
  rw [noteRange, note, hrange, rangeHazard?]
  by_cases h : 4096 < s.I.toNat + length
  · rw [if_pos h, decide_eq_true h]
    rfl
  · rw [if_neg h, decide_eq_false h]
    rfl

/-- An access that stays inside the memory meets nothing. -/
theorem rangeHazard?_of_le {s : State} {length : Nat} (h : s.I.toNat + length ≤ 4096) :
    s.rangeHazard? length = none :=
  if_neg (Nat.not_lt.mpr h)

theorem noteRange_latch_of_le {s : State} {length : Nat} (h : s.I.toNat + length ≤ 4096) :
    (s.noteRange length).latch = s.latch := by
  rw [noteRange_latch, rangeHazard?_of_le h]
  rfl

end State

/-! ## Fields -/

namespace Operation

variable (o : Operation) (s : State) (f : Operands)

/-- Does a skip go over a word? No other operation does. -/
def skips : Bool :=
  match o with
  | .skipIfEqualImmediate => s.reg f.x == f.nn
  | .skipIfNotEqualImmediate => s.reg f.x != f.nn
  | .skipIfEqualRegister => s.reg f.x == s.reg f.y
  | .skipIfNotEqualRegister => s.reg f.x != s.reg f.y
  | .skipIfKey => s.keypad.isHeld (s.reg f.x).toNat
  | .skipIfNotKey => !s.keypad.isHeld (s.reg f.x).toNat
  | _ => false

/-- Where an operation goes on. The state is past the word of the operation. -/
def pcAfter : UInt16 :=
  match o with
  | .returnFromCall => s.stack.pop.2.1
  | .jump | .call => UInt16.ofNat f.nnn
  | .jumpWithOffset => UInt16.ofNat (f.nnn + (s.reg ⟨0, Nat.zero_lt_succ 15⟩).toNat)
  | .waitForKey => if s.keypad.lastPressed < 0 then s.pc - 2 else s.pc
  | _ => if o.skips s f then s.pc + 2 else s.pc

/-- Where a cycle goes on with an operation, in integers, which do not wrap. The state
is the one before the cycle. -/
def exactPc : Int :=
  match o with
  | .returnFromCall => s.stack.pop.2.1.toNat
  | .jump | .call => f.nnn
  | .jumpWithOffset => f.nnn + (s.reg ⟨0, Nat.zero_lt_succ 15⟩).toNat
  | .waitForKey =>
    if s.keypad.lastPressed < 0 then (s.pc.toNat : Int) + 2 - 2 else s.pc.toNat + 2
  | _ => if o.skips s f then s.pc.toNat + 2 + 2 else s.pc.toNat + 2

/-- The call stack after an operation. -/
def stackAfter : CallStack :=
  match o with
  | .call => (s.stack.push s.pc.toNat).1
  | .returnFromCall => s.stack.pop.1
  | _ => s.stack

/-- The index after an operation. -/
def indexAfter : UInt16 :=
  match o with
  | .setIndex => UInt16.ofNat f.nnn
  | .addToIndex => UInt16.ofNat ((s.I.toNat + (s.reg f.x).toNat) % 0x1000)
  | .fontCharacter => UInt16.ofNat (fontStart + (s.reg f.x).toNat % 16 * glyphSize)
  | _ => s.I

/-- The display after an operation. -/
def displayAfter : Grid :=
  match o with
  | .clear => Grid.blank
  | .draw => (s.drawing f).display
  | _ => s.display

/-- Whether the display counts as written after an operation. -/
def changedAfter : Bool :=
  match o with
  | .clear => true
  | .draw => s.displayChanged || (s.drawing f).toggled
  | _ => s.displayChanged

/-- The random key after an operation. -/
def rngAfter : RandomKey :=
  match o with
  | .random => s.rng.next
  | _ => s.rng

/-- The delay timer after an operation. -/
def delayAfter : UInt8 :=
  match o with
  | .setDelayTimer => s.reg f.x
  | _ => s.delayTimer

/-- The sound timer after an operation. -/
def soundAfter : UInt8 :=
  match o with
  | .setSoundTimer => s.reg f.x
  | _ => s.soundTimer

/-- Why an operation cannot be carried out, if it cannot. -/
def hazard? : Option Cause :=
  match o with
  | .returnFromCall => if s.stack.pointer ≤ 0 then some .stackUnderflow else none
  | .call => if (stackCapacity : Int) ≤ s.stack.pointer then some .stackOverflow else none
  | .draw => s.rangeHazard? f.n.val
  | .binaryCodedDecimal => s.rangeHazard? 3
  | .storeRegisters | .loadRegisters => s.rangeHazard? (f.x.val + 1)
  | _ => none

/-- **The fields of a state after an operation**, all but the memory and the registers.
The case split over the operations stands here once. -/
theorem run_fields :
    o.run s f =
      { o.run s f with
        rng := o.rngAfter s
        pc := o.pcAfter s f
        display := o.displayAfter s f
        displayChanged := o.changedAfter s f
        stack := o.stackAfter s
        delayTimer := o.delayAfter s f
        soundTimer := o.soundAfter s f
        keypad := s.keypad
        I := o.indexAfter s f
        latch := s.latch.meet (o.hazard? s f) } := by
  cases o
  case returnFromCall =>
    have hlatch := s.latch.note_eq_meet (s.stack.pointer ≤ 0) .stackUnderflow (by simp)
    rw [hazard?, ← hlatch]
    rfl
  case call =>
    have hlatch := s.latch.note_eq_meet ((stackCapacity : Int) ≤ s.stack.pointer)
      .stackOverflow (by simp)
    rw [hazard?, ← hlatch]
    rfl
  case draw =>
    rw [hazard?, ← s.noteRange_latch]
    rfl
  case waitForKey =>
    -- the handler asks a Bool, the column the comparison behind it
    rw [run, State.waitForKey, pcAfter]
    simp only [decide_eq_true_eq]
    rfl
  -- these three go on from the state their range note leaves
  case binaryCodedDecimal =>
    obtain ⟨M, h⟩ := s.binaryCodedDecimal_shape f
    rw [run, h, s.noteRange_latch]
    rfl
  case storeRegisters =>
    obtain ⟨M, h⟩ := s.storeRegisters_shape f
    rw [run, h, s.noteRange_latch]
    rfl
  case loadRegisters =>
    obtain ⟨V, h⟩ := s.loadRegisters_shape f
    rw [run, h, s.noteRange_latch]
    rfl
  -- what is left notes nothing and moves the program counter by a skip at most
  all_goals first | rfl | (rw [run, State.skipIf_eq]; rfl)

theorem run_rng : (o.run s f).rng = o.rngAfter s := by
  rw [run_fields]

theorem run_pc : (o.run s f).pc = o.pcAfter s f := by
  rw [run_fields]

theorem run_display : (o.run s f).display = o.displayAfter s f := by
  rw [run_fields]

theorem run_displayChanged : (o.run s f).displayChanged = o.changedAfter s f := by
  rw [run_fields]

theorem run_stack : (o.run s f).stack = o.stackAfter s := by
  rw [run_fields]

theorem run_delayTimer : (o.run s f).delayTimer = o.delayAfter s f := by
  rw [run_fields]

theorem run_soundTimer : (o.run s f).soundTimer = o.soundAfter s f := by
  rw [run_fields]

/-- No operation touches the keypad. -/
theorem run_keypad : (o.run s f).keypad = s.keypad := by
  rw [run_fields]

theorem run_index : (o.run s f).I = o.indexAfter s f := by
  rw [run_fields]

theorem run_latch : (o.run s f).latch = s.latch.meet (o.hazard? s f) := by
  rw [run_fields]

end Operation
end ChipEight
