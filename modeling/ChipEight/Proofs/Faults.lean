/-
When a cycle faults, and with what.

A cycle never stops on a fault: a failed fetch goes on with the word it read, the
word is dispatched, and its handler may note more. So that the outcome is the
first fault of the cycle, and nothing else, is a fact about the latch.
`Operation.run_latch` says what one operation notes; here the note of the fetch
comes before it, and `State.commit` reads the latch after it.

`Meets` and `CycleFault` are the other side: they say in terms of the numbers in
the state, and without a latch, which fault there is to meet. The main statement
is that `State.step` and `State.execute` raise these faults and no others.
-/
import ChipEight.Proofs.Classes
import ChipEight.Proofs.Effects

set_option autoImplicit false

namespace ChipEight

/-! ## The faults there are -/

/-- How many bytes at the index a word accesses, if it is one of the words that
access the memory there. -/
def accessLength? (w : UInt16) : Option Nat :=
  if w.toNat / 0x1000 = 0xD then some (w.toNat % 0x10)
  else if w.toNat / 0x1000 = 0xF ∧ w.toNat % 0x100 = 0x33 then some 3
  else if w.toNat / 0x1000 = 0xF ∧ (w.toNat % 0x100 = 0x55 ∨ w.toNat % 0x100 = 0x65) then
    some (w.toNat / 0x100 % 0x10 + 1)
  else none

/-- The cause that keeps a word from being carried out in a state. -/
inductive Meets (s : State) (w : UInt16) : Cause → Prop where
  | invalidOpcode : Operation.ofWord? w = none → Meets s w .invalidOpcode
  | stackOverflow : w.toNat / 0x1000 = 0x2 → 16 ≤ s.stack.pointer → Meets s w .stackOverflow
  | stackUnderflow : w = 0x00EE → s.stack.pointer ≤ 0 → Meets s w .stackUnderflow
  | memoryRange {length : Nat} : accessLength? w = some length → 4096 < s.I.toNat + length →
      Meets s w (.memoryRange s.I.toNat length)

/-- The fault of a whole cycle: a fetch that leaves the memory, else whatever its word
meets. The word is the two bytes at the program counter, the high one first. -/
inductive CycleFault (s : State) : Fault → Prop where
  | fetch : 0xFFE < s.pc.toNat →
      CycleFault s ⟨.memoryRange s.pc.toNat 2, none, some s.pc.toNat⟩
  | word (hpc : s.pc.toNat + 1 < 4096) (w : UInt16) (c : Cause) :
      w.toNat = 256 * s.memory[s.pc.toNat].toNat + s.memory[s.pc.toNat + 1].toNat →
      Meets s w c → CycleFault s ⟨c, some w.toNat, some s.pc.toNat⟩

/-! ## Words and what they meet -/

namespace Memory

/-- Inside the memory a byte is read as it is. -/
theorem byteAt_of_lt (m : Memory) {a : Nat} (h : a < 4096) : m.byteAt a = m[a] := by
  rw [byteAt, if_neg (by omega : ¬ (a : Int) < 0), if_neg (by omega : ¬ (a : Int) < 0),
    Int.toNat_natCast, Array.getD_eq_getD_getElem?]
  simp [h]

theorem toNat_word (m : Memory) {a : Nat} (h : a + 1 < 4096) :
    (m.word a).toNat = 256 * m[a].toNat + m[a + 1].toNat := by
  have hnext : m.byteAt ((a : Int) + 1) = m[a + 1] := m.byteAt_of_lt h
  have hhi : m[a].toNat < 256 := m[a].toNat_lt
  have hlo : m[a + 1].toNat < 2 ^ 8 := m[a + 1].toNat_lt
  rw [word, m.byteAt_of_lt (by omega), hnext, UInt16.toNat_or, UInt16.toNat_shiftLeft,
    UInt8.toNat_toUInt16, UInt8.toNat_toUInt16]
  -- A byte moved up by eight fits sixteen bits, so nothing of it is cut off.
  have hshift : m[a].toNat <<< ((8 : UInt16).toNat % 16) % 2 ^ 16 = m[a].toNat <<< 8 := by
    rw [show (8 : UInt16).toNat % 16 = 8 from rfl, Nat.shiftLeft_eq]
    omega
  rw [hshift, ← Nat.shiftLeft_add_eq_or_of_lt hlo, Nat.shiftLeft_eq]
  omega

end Memory

namespace State

/-- The state behind the word at the program counter. -/
def past (s : State) : State :=
  { s with pc := s.pc + 2 }

/-- Why a word cannot be carried out, if it cannot. -/
def hazard? (s : State) (w : UInt16) : Option Cause :=
  match Operation.ofWord? w with
  | some o => o.hazard? s (Operands.ofWord w)
  | none => some .invalidOpcode

theorem dispatch_latch (s : State) (w : UInt16) :
    (s.dispatch w).latch = s.latch.meet (s.hazard? w) := by
  rw [dispatch, hazard?]
  rcases Operation.ofWord? w with _ | o
  · rfl
  · exact o.run_latch s _

theorem rangeHazard?_eq_some_iff (s : State) (length : Nat) (c : Cause) :
    s.rangeHazard? length = some c ↔
      4096 < s.I.toNat + length ∧ c = .memoryRange s.I.toNat length := by
  rw [rangeHazard?]
  by_cases h : 4096 < s.I.toNat + length
  · rw [if_pos h, Option.some.injEq, eq_comm]
    exact ⟨fun hc => ⟨h, hc⟩, And.right⟩
  · rw [if_neg h]
    constructor
    · intro hc
      exact absurd hc (Option.some_ne_none c).symm
    · rintro ⟨hlt, -⟩
      exact absurd hlt h

end State

section AccessLength

variable {w : UInt16}

theorem accessLength?_draw (h : Operation.draw.Covers w) :
    accessLength? w = some (Operands.ofWord w).n.val :=
  if_pos h

theorem accessLength?_binaryCodedDecimal (h : Operation.binaryCodedDecimal.Covers w) :
    accessLength? w = some 3 := by
  obtain ⟨hF, hbyte⟩ := h
  rw [accessLength?, if_neg (by omega), if_pos ⟨hF, hbyte⟩]

theorem accessLength?_registers
    (h : Operation.storeRegisters.Covers w ∨ Operation.loadRegisters.Covers w) :
    accessLength? w = some ((Operands.ofWord w).x.val + 1) := by
  have hfields : w.toNat / 0x1000 = 0xF ∧
      (w.toNat % 0x100 = 0x55 ∨ w.toNat % 0x100 = 0x65) := by
    rcases h with ⟨hF, hstore⟩ | ⟨hF, hload⟩
    · exact ⟨hF, .inl hstore⟩
    · exact ⟨hF, .inr hload⟩
  rw [accessLength?, if_neg (by omega), if_neg (by omega), if_pos hfields]
  rfl

/-- A word that accesses memory has an operation, and all the operation can meet is
the range it accesses. -/
theorem hazard?_of_accessLength? {length : Nat} (h : accessLength? w = some length) :
    ∃ o : Operation, o.Covers w ∧
      ∀ s : State, o.hazard? s (Operands.ofWord w) = s.rangeHazard? length := by
  rw [accessLength?] at h
  split at h
  case isTrue hD =>
    cases h
    exact ⟨.draw, hD, fun _ => rfl⟩
  case isFalse =>
    split at h
    case isTrue hF =>
      cases h
      exact ⟨.binaryCodedDecimal, hF, fun _ => rfl⟩
    case isFalse =>
      split at h
      case isTrue hF =>
        cases h
        rcases hF with ⟨hF, hstore | hload⟩
        · exact ⟨.storeRegisters, ⟨hF, hstore⟩, fun _ => rfl⟩
        · exact ⟨.loadRegisters, ⟨hF, hload⟩, fun _ => rfl⟩
      case isFalse => cases h

end AccessLength

namespace State

variable {s : State} {w : UInt16} {c : Cause}

theorem meets_of_operation {o : Operation} (hw : o.Covers w)
    (h : o.hazard? s (Operands.ofWord w) = some c) : Meets s w c := by
  cases o
  case returnFromCall =>
    rw [Operation.hazard?, Option.ite_none_right_eq_some] at h
    obtain ⟨hp, hc⟩ := h
    cases hc
    exact .stackUnderflow hw hp
  case call =>
    rw [Operation.hazard?, Option.ite_none_right_eq_some] at h
    obtain ⟨hp, hc⟩ := h
    cases hc
    exact .stackOverflow hw hp
  case draw =>
    obtain ⟨hr, rfl⟩ := (s.rangeHazard?_eq_some_iff _ c).mp h
    exact .memoryRange (accessLength?_draw hw) hr
  case binaryCodedDecimal =>
    obtain ⟨hr, rfl⟩ := (s.rangeHazard?_eq_some_iff _ c).mp h
    exact .memoryRange (accessLength?_binaryCodedDecimal hw) hr
  case storeRegisters =>
    obtain ⟨hr, rfl⟩ := (s.rangeHazard?_eq_some_iff _ c).mp h
    exact .memoryRange (accessLength?_registers (.inl hw)) hr
  case loadRegisters =>
    obtain ⟨hr, rfl⟩ := (s.rangeHazard?_eq_some_iff _ c).mp h
    exact .memoryRange (accessLength?_registers (.inr hw)) hr
  -- no other operation notes anything
  all_goals exact absurd h (Option.some_ne_none c).symm

/-- What dispatching a word notes is what the numbers in the state say. -/
theorem hazard?_eq_some_iff : s.hazard? w = some c ↔ Meets s w c := by
  constructor
  · intro h
    rw [hazard?] at h
    rcases ho : Operation.ofWord? w with _ | o
    · rw [ho] at h
      cases h
      exact .invalidOpcode ho
    · rw [ho] at h
      exact meets_of_operation (Operation.covers_of_ofWord? ho) h
  · intro h
    rw [hazard?]
    rcases h with hn | ⟨hw, hp⟩ | ⟨hw, hp⟩ | ⟨hl, hr⟩
    · rw [hn]
    · rw [Operation.ofWord?_of_covers (o := .call) hw]
      exact if_pos hp
    · rw [Operation.ofWord?_of_covers (o := .returnFromCall) hw]
      exact if_pos hp
    · obtain ⟨o, hw, hz⟩ := hazard?_of_accessLength? hl
      rw [Operation.ofWord?_of_covers hw]
      exact (hz s).trans ((s.rangeHazard?_eq_some_iff _ _).mpr ⟨hr, rfl⟩)

/-! ## From the latch to the outcome -/

/-- The program counter has no part in what an operation meets. -/
theorem past_operation_hazard? (s : State) (o : Operation) (f : Operands) :
    o.hazard? s.past f = o.hazard? s f := by
  cases o <;> rfl

theorem past_hazard? (s : State) (w : UInt16) : s.past.hazard? w = s.hazard? w := by
  rw [hazard?, hazard?]
  rcases Operation.ofWord? w with _ | o
  · rfl
  · exact s.past_operation_hazard? o _

theorem hazard?_ne_unknownCode (code : Int) : s.hazard? w ≠ some (.unknownCode code) := by
  intro h
  cases hazard?_eq_some_iff.mp h

/-- Over a clear latch, a state commits unless its cycle met a cause. -/
theorem commit_of_clear {t : State} {l : FaultLatch} (hl : l.code = noFault)
    (ht : t.latch = l.meet (s.hazard? w)) (instruction address : Option Int) :
    t.commit instruction address =
      match s.hazard? w with
      | none => .ok t
      | some c => .error ⟨c, instruction, address⟩ := by
  rw [commit, ht]
  rcases hz : s.hazard? w with _ | c
  · rw [FaultLatch.meet, FaultLatch.cause?, if_pos hl]
  · have hknown : ∀ code, c ≠ .unknownCode code := by
      rintro code rfl
      exact hazard?_ne_unknownCode code hz
    rw [FaultLatch.cause?_meet hl hknown]

/-- **An executed word**, over a clear latch. -/
theorem execute_eq (hs : s.latch.code = noFault) (n : Int) :
    s.execute n =
      match s.hazard? (wordOfInt n) with
      | none => .ok (s.dispatch (wordOfInt n))
      | some c => .error ⟨c, some (wordOfInt n).toNat, none⟩ :=
  commit_of_clear hs (s.dispatch_latch _) _ _

/-- A failed fetch is noted before the word is dispatched, so nothing the word notes
comes after it. -/
theorem cycle_latch_of_fetch (hs : s.latch.code = noFault)
    (h : Memory.inRange s.pc.toNat 2 = false) :
    s.cycle.1.latch = ⟨(Cause.memoryRange 0 0).code, s.pc.toNat, 2⟩ := by
  have hnote := FaultLatch.note_of_clear hs (Cause.memoryRange 0 0).code s.pc.toNat 2
  rw [cycle, h]
  refine (dispatch_latch _ _).trans ?_
  refine (FaultLatch.meet_of_noted ?_ _).trans hnote
  have hcode : (Cause.memoryRange 0 0).code ≠ noFault := by decide
  intro hclear
  exact hcode ((congrArg FaultLatch.code hnote).symm.trans hclear)

/-- After a fetch inside the memory the word is dispatched from the address behind it. -/
theorem cycle_of_fetch (h : Memory.inRange s.pc.toNat 2 = true) :
    s.cycle = (s.past.dispatch (s.memory.word s.pc.toNat), s.memory.word s.pc.toNat) := by
  rw [cycle, h]
  rfl

theorem step_eq_commit : s.step = s.cycle.1.commit
    (if Memory.inRange s.pc.toNat 2 then some s.cycle.2.toNat else none) (some s.pc.toNat) := rfl

/-- A cycle that succeeds found nothing noted: what is noted before it stays. -/
theorem latch_clear_of_step_eq_ok {t : State} (h : s.step = .ok t) : s.latch.code = noFault := by
  apply Decidable.byContradiction
  intro hnoted
  have hfetch := FaultLatch.note_of_noted hnoted (!Memory.inRange s.pc.toNat 2)
    (Cause.memoryRange 0 0).code s.pc.toNat 2
  have hlatch : s.cycle.1.latch = s.latch := by
    refine (dispatch_latch _ _).trans ?_
    show (s.latch.note _ _ _ _).meet _ = s.latch
    rw [hfetch]
    exact FaultLatch.meet_of_noted hnoted _
  rw [step_eq_commit, commit, hlatch, FaultLatch.cause?, if_neg hnoted] at h
  cases h

/-- **A cycle**, over a clear latch: the fetch first, then the word. -/
theorem step_eq (hs : s.latch.code = noFault) :
    s.step =
      if 0xFFE < s.pc.toNat then
        .error ⟨.memoryRange s.pc.toNat 2, none, some s.pc.toNat⟩
      else
        match s.hazard? (s.memory.word s.pc.toNat) with
        | none => .ok (s.past.dispatch (s.memory.word s.pc.toNat))
        | some c => .error ⟨c, some (s.memory.word s.pc.toNat).toNat, some s.pc.toNat⟩ := by
  have hrange : Memory.inRange s.pc.toNat 2 = decide (s.pc.toNat + 2 ≤ 4096) :=
    Memory.inRange_natCast s.pc.toNat 2
  by_cases hpc : 0xFFE < s.pc.toNat
  · -- The fetch failed, and the latch is no longer clear when the word is dispatched.
    rw [decide_eq_false (by omega)] at hrange
    rw [if_pos hpc, step_eq_commit, commit, cycle_latch_of_fetch hs hrange, hrange]
    rfl
  · -- Nothing is noted yet, so the word is dispatched over a clear latch.
    rw [decide_eq_true (by omega)] at hrange
    rw [if_neg hpc, step_eq_commit, cycle_of_fetch hrange, hrange, if_pos rfl, ← s.past_hazard?]
    exact commit_of_clear (s := s.past) hs (s.past.dispatch_latch _) _ _

/-! ## The faults that are raised -/

/-- An outcome read off a word's cause fails exactly on the causes there are. -/
theorem outcome_eq_error_iff {t : State} {fault : Cause → Fault} {f : Fault} :
    (match s.hazard? w with
      | none => .ok t
      | some c => .error (fault c)) = (.error f : Except Fault State) ↔
      ∃ c, Meets s w c ∧ f = fault c := by
  constructor
  · intro h
    rcases hz : s.hazard? w with _ | c
    · rw [hz] at h
      simp at h
    · rw [hz] at h
      cases h
      exact ⟨c, hazard?_eq_some_iff.mp hz, rfl⟩
  · rintro ⟨c, hc, rfl⟩
    rw [hazard?_eq_some_iff.mpr hc]

/-- It succeeds with its state alone, and then nothing is met. -/
theorem outcome_eq_ok {t u : State} {fault : Cause → Fault}
    (h : (match s.hazard? w with
      | none => .ok t
      | some c => .error (fault c)) = (.ok u : Except Fault State)) :
    s.hazard? w = none ∧ u = t := by
  rcases hz : s.hazard? w with _ | c
  · rw [hz] at h
    cases h
    exact ⟨rfl, rfl⟩
  · rw [hz] at h
    simp at h

/-- The word of a fetch inside the memory is the one its two bytes make. -/
theorem cycleFault_iff_of_fetch (hpc : s.pc.toNat + 1 < 4096) {f : Fault} :
    CycleFault s f ↔ ∃ c, Meets s (s.memory.word s.pc.toNat) c ∧
      f = ⟨c, some (s.memory.word s.pc.toNat).toNat, some s.pc.toNat⟩ := by
  have hword := s.memory.toNat_word hpc
  constructor
  · rintro (hfetch | ⟨_, w, c, hw, hc⟩)
    · omega
    · obtain rfl : w = s.memory.word s.pc.toNat := UInt16.toNat_inj.mp (hw.trans hword.symm)
      exact ⟨c, hc, rfl⟩
  · rintro ⟨c, hc, rfl⟩
    exact .word hpc _ c hword hc

theorem step_eq_error_iff (hs : s.latch.code = noFault) (f : Fault) :
    s.step = .error f ↔ CycleFault s f := by
  rw [step_eq hs]
  by_cases hpc : 0xFFE < s.pc.toNat
  · rw [if_pos hpc, Except.error.injEq]
    constructor
    · rintro rfl
      exact .fetch hpc
    · rintro (hfetch | ⟨hinside, _, _, _, _⟩)
      · rfl
      · omega
  · rw [if_neg hpc, cycleFault_iff_of_fetch (by omega)]
    exact outcome_eq_error_iff

/-- What a cycle that does not fault has done. -/
theorem step_eq_ok {t : State} (hs : s.latch.code = noFault) (h : s.step = .ok t) :
    s.pc.toNat ≤ 0xFFE ∧ s.hazard? (s.memory.word s.pc.toNat) = none ∧
      t = s.past.dispatch (s.memory.word s.pc.toNat) := by
  rw [step_eq hs] at h
  by_cases hpc : 0xFFE < s.pc.toNat
  · rw [if_pos hpc] at h
    simp at h
  · rw [if_neg hpc] at h
    exact ⟨by omega, outcome_eq_ok h⟩

/-- A word that meets nothing has an operation, and dispatching it is running that. -/
theorem exists_run_of_hazard?_eq_none (h : s.hazard? w = none) :
    ∃ o, Operation.ofWord? w = some o ∧ o.hazard? s (Operands.ofWord w) = none ∧
      ∀ t : State, t.dispatch w = o.run t (Operands.ofWord w) := by
  rw [hazard?] at h
  rcases ho : Operation.ofWord? w with _ | o
  · rw [ho] at h
    simp at h
  · rw [ho] at h
    refine ⟨o, rfl, h, ?_⟩
    intro t
    rw [dispatch, ho]

/-- A cycle that does not fault runs the operation of the word it fetched. -/
theorem exists_run_of_step {t : State} (hs : s.latch.code = noFault) (h : s.step = .ok t) :
    s.pc.toNat ≤ 0xFFE ∧ ∃ o, Operation.ofWord? (s.memory.word s.pc.toNat) = some o ∧
      o.hazard? s (Operands.ofWord (s.memory.word s.pc.toNat)) = none ∧
      t = o.run s.past (Operands.ofWord (s.memory.word s.pc.toNat)) := by
  obtain ⟨hpc, hz, rfl⟩ := step_eq_ok hs h
  obtain ⟨o, ho, hoz, hrun⟩ := exists_run_of_hazard?_eq_none hz
  exact ⟨hpc, o, ho, hoz, hrun s.past⟩

/-- Carrying out a word that meets nothing notes nothing. -/
theorem dispatch_latch_of_hazard?_eq_none (h : s.hazard? w = none) :
    (s.dispatch w).latch = s.latch := by
  rw [dispatch_latch, h]
  rfl

/-- **The faults of a cycle.** In a state with nothing noted, a cycle and an executed
word fail with the faults there are to meet and with no others, and where they do
not fail they leave nothing noted. -/
theorem step_and_execute_faults (s : State) (hs : s.latch = {}) :
    (∀ f, s.step = .error f ↔ CycleFault s f) ∧
      (∀ t, s.step = .ok t → t.latch = {}) ∧
      (∀ (n : Int) (f : Fault), s.execute n = .error f ↔
        ∃ c, Meets s (wordOfInt n) c ∧ f = ⟨c, some (n % 0x10000), none⟩) ∧
      ∀ (n : Int) (t : State), s.execute n = .ok t → t.latch = {} := by
  have hclear : s.latch.code = noFault := hs ▸ rfl
  refine ⟨step_eq_error_iff hclear, ?_, ?_, ?_⟩
  · intro t h
    obtain ⟨-, hz, rfl⟩ := step_eq_ok hclear h
    rw [dispatch_latch_of_hazard?_eq_none ((s.past_hazard? _).trans hz)]
    exact hs
  · intro n f
    rw [execute_eq hclear, toNat_wordOfInt]
    exact outcome_eq_error_iff
  · intro n t h
    rw [execute_eq hclear] at h
    obtain ⟨hz, rfl⟩ := outcome_eq_ok h
    rw [dispatch_latch_of_hazard?_eq_none hz, hs]

/-- FX33 two bytes before the end of the memory: the third digit has no place. -/
theorem digits_past_the_end_fault :
    let s : State := { fresh ⟨0, 0⟩ with
      I := 0xFFE
      memory := ((Vector.replicate 4096 0).set 0x200 0xF1).set 0x201 0x33 }
    s.latch = {} ∧ s.step = .error ⟨.memoryRange 0xFFE 3, some 0xF133, some 0x200⟩ := by
  refine ⟨rfl, ((step_and_execute_faults _ rfl).1 _).mpr ?_⟩
  refine .word (by decide) 0xF133 (.memoryRange 0xFFE 3) ?_ (.memoryRange (by decide) (by decide))
  simp [fresh]

end State
end ChipEight
