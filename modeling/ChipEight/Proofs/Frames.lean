/-
Calls and returns match, on every run.

A call stack between its limits is a list of return addresses, the latest last, in
sixteen slots of which the rest are clear. `CallStack.Holds` is that view. Through it a
push appends and a pop takes the last one away, and what a cycle does to the stack is
one of three things, `FrameChange`: nothing, one address more, or one less.

The bracket theorem follows without a look at the operations in between. While the
pointer stays above the place of a call, the addresses up to that place are a prefix of
what the stack holds; the cycle that comes down to the place takes exactly one address
away, and that is the one the call left.
-/
import ChipEight.Proofs.Invariant

set_option autoImplicit false

namespace ChipEight

namespace CallStack

variable {s t : CallStack} {frames : List UInt16}

/-- The stack holds these return addresses, the latest last, and nothing behind them. -/
structure Holds (s : CallStack) (frames : List UInt16) : Prop where
  pointer : s.pointer = frames.length
  length_le : frames.length ≤ 16
  slot (i : Nat) (hi : i < 16) : s.slots[i] = frames.getD i 0

/-- A stack is determined by what it holds. -/
theorem Holds.unique (hs : s.Holds frames) (ht : t.Holds frames) : s = t := by
  have hslots : s.slots = t.slots := by
    apply Vector.ext
    intro i hi
    rw [hs.slot i hi, ht.slot i hi]
  rw [CallStack.mk.injEq]
  exact ⟨hslots, hs.pointer.trans ht.pointer.symm⟩

/-- The slots below the pointer. -/
def live (s : CallStack) : List UInt16 :=
  s.slots.toList.take s.pointer.toNat

/-- A stack between its limits, with nothing at or above its pointer, holds the slots
below. -/
theorem holds_live (h0 : 0 ≤ s.pointer) (h16 : s.pointer ≤ 16)
    (hclear : ∀ (i : Nat) (hi : i < 16), s.pointer ≤ i → s.slots[i] = 0) :
    s.Holds s.live := by
  have hlength : s.live.length = s.pointer.toNat := by
    rw [live, List.length_take, Vector.length_toList]
    omega
  refine ⟨?_, ?_, ?_⟩
  · omega
  · omega
  · intro i hi
    rw [List.getD_eq_getElem?_getD, live]
    by_cases hlt : i < s.pointer.toNat
    · rw [List.getElem?_take_of_lt hlt, Vector.getElem?_toList, Vector.getElem?_eq_getElem hi]
      rfl
    · rw [List.getElem?_take_eq_none (by omega)]
      exact hclear i hi (by omega)

/-- Behind a list that got one longer there is one entry, and the default after it. -/
theorem getD_concat (frames : List UInt16) (a : UInt16) (i : Nat) :
    (frames ++ [a]).getD i 0 = if i = frames.length then a else frames.getD i 0 := by
  simp only [List.getD_eq_getElem?_getD]
  by_cases hlt : i < frames.length
  · rw [if_neg (by omega), List.getElem?_append_left hlt]
  · by_cases heq : i = frames.length
    · rw [if_pos heq, heq, List.getElem?_concat_length]
      rfl
    · have hlong : (frames ++ [a]).length ≤ i := by
        rw [List.length_append, List.length_singleton]
        omega
      rw [if_neg heq, List.getElem?_eq_none hlong, List.getElem?_eq_none (by omega)]

/-- A push where there is room appends. -/
theorem Holds.push (h : s.Holds frames) (hroom : frames.length < 16) (a : Int) :
    (s.push a).1.Holds (frames ++ [wordOfInt a]) := by
  have hp := h.pointer
  rw [push_of_room (by omega) (by omega)]
  refine ⟨?_, ?_, ?_⟩
  · show s.pointer + 1 = _
    rw [hp, List.length_append, List.length_singleton]
    rfl
  · rw [List.length_append, List.length_singleton]
    omega
  · intro i hi
    rw [Vector.getElem_setIfInBounds hi, getD_concat, h.slot i hi]
    by_cases heq : i = frames.length
    · rw [if_pos (by omega), if_pos heq]
    · rw [if_neg (by omega), if_neg heq]

/-- A pop where there is an address takes the last one away. -/
theorem Holds.pop {a : UInt16} (h : s.Holds (frames ++ [a])) :
    s.pop.2.1 = a ∧ s.pop.1.Holds frames := by
  have hp := h.pointer
  have hle := h.length_le
  rw [List.length_append, List.length_singleton] at hp hle
  have htop : s.pointer - 1 = (frames.length : Int) := by omega
  rw [pop_of_pos (by omega) (by omega), htop]
  refine ⟨?_, rfl, by omega, ?_⟩
  · have hlast := h.slot frames.length (by omega)
    rw [getD_concat, if_pos rfl] at hlast
    exact (s.slotAt_of_lt (by omega)).trans hlast
  · intro i hi
    have hslot := h.slot i hi
    rw [getD_concat] at hslot
    rw [Int.toNat_natCast, Vector.getElem_setIfInBounds hi]
    by_cases heq : i = frames.length
    · -- The slot that was cleared is the first one behind the rest.
      rw [if_pos heq.symm, heq, List.getD_eq_getElem?_getD, List.getElem?_eq_none (Nat.le_refl _)]
      rfl
    · rw [if_neg (Ne.symm heq), hslot, if_neg heq]

end CallStack

/-- The call stack of a machine is always of this kind, whatever was done to it. -/
theorem Machine.exists_holds_after {program : List UInt8} {seed : Int} {m : Machine}
    {notices : List Notice} (h : create program seed = .ok (m, notices))
    (actions : List Action) : ∃ frames, (m.after actions).state.stack.Holds frames := by
  have hsound := (sound_after h actions).stack
  exact ⟨_, CallStack.holds_live hsound.pointer_nonneg hsound.pointer_le hsound.cleared⟩

/-! ## One cycle -/

/-- What one cycle can do to the return addresses: leave them, add the address `next`
behind its word, or take the last one away and go on there, at `target`. -/
inductive FrameChange (next target : UInt16) : List UInt16 → List UInt16 → Prop where
  | kept (frames : List UInt16) : FrameChange next target frames frames
  | pushed (frames : List UInt16) : FrameChange next target frames (frames ++ [next])
  | popped (frames : List UInt16) : FrameChange next target (frames ++ [target]) frames

namespace FrameChange

variable {next target a : UInt16} {base frames frames' : List UInt16}

/-- Addresses at the bottom stay, as long as they are not returned from. -/
theorem prefix_kept (h : FrameChange next target frames frames') (hbase : base <+: frames)
    (hlength : base.length ≤ frames'.length) : base <+: frames' := by
  cases h with
  | kept => exact hbase
  | pushed => exact hbase.trans (List.prefix_append _ _)
  | popped => exact List.prefix_of_prefix_length_le hbase (List.prefix_append _ _) hlength

/-- A cycle that comes down below an address was a return to it. -/
theorem of_length_eq (h : FrameChange next target frames frames') (hbase : base ++ [a] <+: frames)
    (hlength : frames'.length = base.length) : target = a ∧ frames' = base := by
  have hle := hbase.length_le
  rw [List.length_append, List.length_singleton] at hle
  cases h with
  | kept => omega
  | pushed =>
    rw [List.length_append] at hlength
    omega
  | popped =>
    have hall : base ++ [a] = frames' ++ [target] := hbase.eq_of_length (by simp [hlength])
    obtain ⟨hframes, htarget⟩ := List.append_inj' hall rfl
    exact ⟨(List.singleton_inj.mp htarget).symm, hframes.symm⟩

end FrameChange

namespace State

variable {s t : State} {frames : List UInt16}

/-- A call without a fault leaves the address behind its word. -/
theorem holds_stackAfter_call (h : s.stack.Holds frames) {f : Operands}
    (hz : Operation.call.hazard? s f = none) :
    (Operation.call.stackAfter s.past).Holds (frames ++ [s.past.pc]) := by
  have hroom : s.stack.pointer < 16 := lt_capacity_of_hazard? hz
  have hp := h.pointer
  have hpush := h.push (by omega) s.past.pc.toNat
  rw [wordOfInt_toNat] at hpush
  exact hpush

/-- **One cycle** and the return addresses. -/
theorem frameChange_of_step (h : s.stack.Holds frames) (ht : s.step = .ok t) :
    ∃ frames', t.stack.Holds frames' ∧ FrameChange s.past.pc t.pc frames frames' := by
  obtain ⟨-, o, -, hz, rfl⟩ := exists_run_of_step (latch_clear_of_step_eq_ok ht) ht
  rw [Operation.run_stack, Operation.run_pc]
  cases o
  case call => exact ⟨_, holds_stackAfter_call h hz, .pushed _⟩
  case returnFromCall =>
    have hsome := pos_of_hazard? hz
    have hp := h.pointer
    -- The pointer is above zero, so there is a last address to go on at.
    have hne : frames ≠ [] := by
      rintro rfl
      rw [List.length_nil] at hp
      omega
    obtain ⟨rest, a, rfl⟩ : ∃ rest a, frames = rest ++ [a] :=
      ⟨_, _, (List.dropLast_concat_getLast hne).symm⟩
    obtain ⟨htarget, hrest⟩ := h.pop
    refine ⟨rest, hrest, ?_⟩
    rw [show Operation.returnFromCall.pcAfter s.past _ = a from htarget]
    exact .popped rest
  all_goals exact ⟨frames, h, .kept frames⟩

/-- A word 2NNN that does not fault is a call. -/
theorem holds_of_call (h : s.stack.Holds frames)
    (hcall : (s.memory.word s.pc.toNat).toNat / 0x1000 = 0x2) (ht : s.step = .ok t) :
    t.stack.Holds (frames ++ [s.past.pc]) := by
  obtain ⟨-, o, ho, hz, rfl⟩ := exists_run_of_step (latch_clear_of_step_eq_ok ht) ht
  rw [Operation.ofWord?_of_covers (o := .call) hcall] at ho
  cases ho
  rw [Operation.run_stack]
  exact holds_stackAfter_call h hz

/-! ## Every run -/

variable {run : Nat → State} {n : Nat} {base : List UInt16}

/-- **Inside a call**, the addresses up to it are at the bottom of what the stack holds. -/
theorem prefix_of_run (hbase : (run 1).stack.Holds base)
    (hstep : ∀ i < n, (run i).step = .ok (run (i + 1)))
    (hinside : ∀ i, 1 ≤ i → i < n → (base.length : Int) ≤ (run i).stack.pointer)
    (k : Nat) (hk : k + 1 < n) :
    ∃ frames, (run (k + 1)).stack.Holds frames ∧ base <+: frames := by
  -- Each cycle leaves the stack at least as high as the base, and so leaves the base alone.
  induction k with
  | zero => exact ⟨base, hbase, List.prefix_refl base⟩
  | succ k ih =>
    obtain ⟨frames, hframes, hprefix⟩ := ih (by omega)
    obtain ⟨frames', hframes', hchange⟩ := frameChange_of_step hframes (hstep (k + 1) (by omega))
    have hpointer := hframes'.pointer
    have habove := hinside (k + 1 + 1) (by omega) hk
    exact ⟨frames', hframes', hchange.prefix_kept hprefix (by omega)⟩

/-- **Calls and returns match.** Let a run start with a call over a stack with room and
nothing above its pointer, and let the pointer first come down to its place again in
the last state of the run. Then that state goes on behind the call, and its call stack
is the one from before the call. -/
theorem return_matches_call (run : Nat → State) (n : Nat) (hn : 2 ≤ n)
    (h0 : 0 ≤ (run 0).stack.pointer) (hroom : (run 0).stack.pointer < 16)
    (hclear : ∀ (i : Nat) (hi : i < 16),
      (run 0).stack.pointer ≤ i → (run 0).stack.slots[i] = 0)
    (hcall : ((run 0).memory.word (run 0).pc.toNat).toNat / 0x1000 = 0x2)
    (hstep : ∀ i < n, (run i).step = .ok (run (i + 1)))
    (hinside : ∀ i, 1 ≤ i → i < n → (run 0).stack.pointer + 1 ≤ (run i).stack.pointer)
    (hend : (run n).stack.pointer = (run 0).stack.pointer) :
    (run n).pc.toNat = (run 0).pc.toNat + 2 ∧ (run n).stack = (run 0).stack := by
  obtain ⟨base, hbase⟩ : ∃ base, (run 0).stack.Holds base :=
    ⟨_, CallStack.holds_live h0 (by omega) hclear⟩
  have hp := hbase.pointer
  have hfirst := hstep 0 (by omega)
  have hpc := (exists_run_of_step (latch_clear_of_step_eq_ok hfirst) hfirst).1
  -- The call leaves its address on top, and everything after it happens above.
  have hafter := holds_of_call hbase hcall hfirst
  obtain ⟨k, rfl⟩ : ∃ k, n = k + 2 := ⟨n - 2, by omega⟩
  obtain ⟨frames, hframes, hprefix⟩ :=
    prefix_of_run hafter hstep (by simpa [hp] using hinside) k (by omega)
  -- The last cycle comes down to it.
  have hlast : (run (k + 1)).step = .ok (run (k + 2)) := hstep (k + 1) (by omega)
  obtain ⟨frames', hframes', hchange⟩ := frameChange_of_step hframes hlast
  have hp' := hframes'.pointer
  obtain ⟨htarget, rfl⟩ := hchange.of_length_eq hprefix (by omega)
  refine ⟨?_, hframes'.unique hbase⟩
  rw [htarget]
  exact toNat_past_pc hpc

theorem step_eq_ok_getD (h : s.step.toOption.isSome = true) :
    s.step = .ok (s.step.toOption.getD s) := by
  rcases hs : s.step with f | t
  · rw [hs] at h
    cases h
  · rfl

/-- A call into a call, and the two returns from them. -/
theorem nested_calls_return :
    let first : State := { fresh ⟨0, 0⟩ with
      memory := Memory.store (Vector.replicate 4096 0) 0x200
        [0x22, 0x04, 0x12, 0x02, 0x22, 0x08, 0x00, 0xEE, 0x00, 0xEE] }
    let run (i : Nat) : State := Nat.repeat (fun s => s.step.toOption.getD s) i first
    (run 2).stack.pointer = 2 ∧ (run 4).pc.toNat = 0x200 + 2 ∧ (run 4).stack = first.stack := by
  intro first run
  have hrun : ∀ i < 4, (run i).step.toOption.isSome = true ∧
      (1 ≤ i → 1 ≤ (run i).stack.pointer) := by decide +kernel
  have hdepth : (run 2).stack.pointer = 2 ∧ (run 4).stack.pointer = 0 := by decide +kernel
  refine ⟨hdepth.1, return_matches_call run 4 (by decide) (by decide) (by decide) ?_
    (by decide +kernel) ?_ ?_ hdepth.2⟩
  · intro i hi _
    exact Vector.getElem_replicate hi
  · intro i hi
    exact step_eq_ok_getD (hrun i hi).1
  · intro i h1 hi
    exact (hrun i hi).2 h1

end State
end ChipEight
