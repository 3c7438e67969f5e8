/-
What a cycle reads of the memory.

The handlers gather more than they need: fifteen rows for a sprite of any height, sixteen
bytes for FX55 and FX65 whatever X is, with zeros behind the end. The excess is cut off by
the height or by X, and FX55 puts its own back. So two machines that differ only in bytes
a cycle has no business with must go through that cycle together, and this is what is
proved: the same fault, or states that differ in nothing but those bytes.

`Operation.reads` says how many bytes at the index an operation is entitled to. The
memory after a cycle is no part of the comparison; what is written there is, and
`Operation.written?` does not ask the memory.
-/
import ChipEight.Proofs.Sprites
import ChipEight.Proofs.Success
import ChipEight.Proofs.WriteSets

set_option autoImplicit false

namespace ChipEight

/-! ## A state over another memory -/

namespace State

/-- The state with another memory in place of its own. -/
def withMemory (s : State) (M : Memory) : State :=
  { s with memory := M }

variable (s : State) (M : Memory)

@[simp] theorem withMemory_memory : (s.withMemory M).memory = M := rfl

@[simp] theorem withMemory_pc : (s.withMemory M).pc = s.pc := rfl

@[simp] theorem withMemory_latch : (s.withMemory M).latch = s.latch := rfl

theorem past_withMemory : (s.withMemory M).past = s.past.withMemory M := rfl

/-- What is noted decides a cycle, and the memory has no part in it. -/
theorem commit_withMemory (instruction address : Option Int) :
    (s.withMemory M).commit instruction address =
      (s.commit instruction address).map fun t => t.withMemory M := by
  rw [commit, commit, withMemory_latch]
  rcases s.latch.cause? with _ | cause
  · rfl
  · rfl

end State

namespace Memory

theorem byteAt_of_le (m : Memory) {a : Nat} (h : 4096 ≤ a) : m.byteAt a = 0 := by
  rw [byteAt, if_neg (by omega : ¬ (a : Int) < 0), if_neg (by omega : ¬ (a : Int) < 0),
    Int.toNat_natCast, Array.getD_eq_getD_getElem?]
  simp [h]

/-- Behind the end all memories read alike. -/
theorem byteAt_congr {m m' : Memory} {a : Nat} (h : ∀ ha : a < 4096, m[a] = m'[a]) :
    m.byteAt a = m'.byteAt a := by
  by_cases ha : a < 4096
  · rw [m.byteAt_of_lt ha, m'.byteAt_of_lt ha, h ha]
  · rw [m.byteAt_of_le (Nat.le_of_not_lt ha), m'.byteAt_of_le (Nat.le_of_not_lt ha)]

end Memory

/-! ## Operations -/

namespace Operation

/-- How many bytes at the index an operation is entitled to read. -/
def reads (o : Operation) (f : Operands) : Nat :=
  match o with
  | .draw => f.n.val
  | .loadRegisters => f.x.val + 1
  | _ => 0

variable {o : Operation} {s : State} {f : Operands} {M : Memory}

/-- A gathered byte that an operation is entitled to is the same in both memories. -/
theorem getD_gather_congr {length k : Nat} (hk : k < length)
    (h : M.byteAt (s.I.toNat + k) = s.memory.byteAt (s.I.toNat + k)) :
    (M.gather s.I.toNat length).getD k 0 = (s.memory.gather s.I.toNat length).getD k 0 := by
  rw [List.getD_eq_getElem?_getD, List.getD_eq_getElem?_getD, Memory.getElem?_gather _ _ hk,
    Memory.getElem?_gather _ _ hk, h]

/-- **An operation over another memory**, where it agrees on what is read, does the same
to everything but the memory. -/
theorem run_withMemory
    (h : ∀ k < o.reads f, M.byteAt (s.I.toNat + k) = s.memory.byteAt (s.I.toNat + k)) :
    o.run (s.withMemory M) f = (o.run s f).withMemory (o.run (s.withMemory M) f).memory := by
  cases o
  case draw =>
    have hheight : f.n.val ≤ maxSpriteHeight := Nat.le_of_lt_succ f.n.isLt
    have hdrawing : (s.withMemory M).drawing f = s.drawing f := by
      apply Sprite.draw_congr (Nat.le_of_lt (Nat.mod_lt _ (by decide))) hheight
      intro k hk
      exact getD_gather_congr (Nat.lt_of_lt_of_le hk hheight) (h k hk)
    rw [run, run, State.draw_eq, State.draw_eq, hdrawing]
    rfl
  case loadRegisters =>
    have hV : ((s.withMemory M).loadRegisters f).V = (s.loadRegisters f).V := by
      apply Vector.ext
      intro i hi
      have hload : ∀ u : State, (u.loadRegisters f).V[i] = _ :=
        fun u => u.reg_loadRegisters f ⟨i, hi⟩
      rw [hload, hload]
      by_cases hx : (⟨i, hi⟩ : Fin 16) ≤ f.x
      · rw [if_pos hx, if_pos hx]
        exact getD_gather_congr hi (h i (Nat.lt_succ_of_le hx))
      · rw [if_neg hx, if_neg hx]
        rfl
    obtain ⟨V, hold⟩ := s.loadRegisters_shape f
    obtain ⟨V', hnew⟩ := (s.withMemory M).loadRegisters_shape f
    rw [hnew, hold] at hV
    obtain rfl : V' = V := hV
    rw [run, run, hnew, hold]
    rfl
  -- the others read no memory
  all_goals first | rfl | (rw [run, run, State.skipIf_eq, State.skipIf_eq]; rfl)

/-- What is written does not depend on the memory it is written to. -/
theorem written?_withMemory (o : Operation) (s : State) (f : Operands) (M : Memory) (a : Nat) :
    o.written? (s.withMemory M) f a = o.written? s f a := by
  cases o <;> rfl

end Operation

/-! ## Words and cycles -/

namespace State

/-- The byte that a word writes to an address, if it writes there. -/
def written? (s : State) (w : UInt16) (a : Nat) : Option UInt8 :=
  match Operation.ofWord? w with
  | some o => o.written? s (Operands.ofWord w) a
  | none => none

variable {s t : State} {M : Memory} {w : UInt16}

theorem getElem_dispatch_memory (s : State) (w : UInt16) {a : Nat} (ha : a < 4096) :
    (s.dispatch w).memory[a] = (s.written? w a).getD s.memory[a] := by
  unfold dispatch written?
  rcases Operation.ofWord? w with _ | o
  · rfl
  · exact o.getElem_run_memory s (Operands.ofWord w) ha

theorem written?_withMemory (s : State) (M : Memory) (w : UInt16) (a : Nat) :
    (s.withMemory M).written? w a = s.written? w a := by
  unfold written?
  rcases Operation.ofWord? w with _ | o
  · rfl
  · exact o.written?_withMemory s _ M a

theorem dispatch_withMemory
    (h : ∀ o : Operation, o.Covers w → ∀ k < o.reads (Operands.ofWord w),
      M.byteAt (s.I.toNat + k) = s.memory.byteAt (s.I.toNat + k)) :
    (s.withMemory M).dispatch w =
      (s.dispatch w).withMemory ((s.withMemory M).dispatch w).memory := by
  unfold dispatch
  rcases ho : Operation.ofWord? w with _ | o
  · rfl
  · exact Operation.run_withMemory (h o (Operation.covers_of_ofWord? ho))

/-- The addresses a cycle is entitled to read: those of its word, and of the bytes at the
index that the word reads. -/
inductive Entitled (s : State) (a : Nat) : Prop where
  | word : s.pc.toNat ≤ a → a < s.pc.toNat + 2 → Entitled s a
  | operand (o : Operation) : o.Covers (s.memory.word s.pc.toNat) → s.I.toNat ≤ a →
      a < s.I.toNat + o.reads (Operands.ofWord (s.memory.word s.pc.toNat)) → Entitled s a

/-- Inside the memory a cycle is its word over the state behind it. -/
theorem step_eq_commit_of_le (h : s.pc.toNat ≤ 0xFFE) :
    s.step = (s.past.dispatch (s.memory.word s.pc.toNat)).commit
      (some (s.memory.word s.pc.toNat).toNat) (some s.pc.toNat) := by
  have hrange : Memory.inRange s.pc.toNat 2 = true :=
    (Memory.inRange_natCast s.pc.toNat 2).trans (decide_eq_true (by omega))
  rw [step_eq_commit, cycle_of_fetch hrange, if_pos hrange]

/-- A state that commits is the state that comes out. -/
theorem eq_of_commit_eq_ok {instruction address : Option Int}
    (h : s.commit instruction address = .ok t) : t = s := by
  rw [commit] at h
  rcases hnoted : s.latch.cause? with _ | cause
  · rw [hnoted] at h
    cases h
    rfl
  · rw [hnoted] at h
    cases h

/-- **A cycle over another memory**, where it agrees on what the cycle is entitled to
read, has the same outcome but for the memory. -/
theorem step_withMemory (hpc : s.pc.toNat ≤ 0xFFE)
    (h : ∀ a : Nat, s.Entitled a → M.byteAt a = s.memory.byteAt a) :
    (s.withMemory M).step = s.step.map fun u =>
      u.withMemory ((s.past.withMemory M).dispatch (s.memory.word s.pc.toNat)).memory := by
  have hnext : M.byteAt ((s.pc.toNat : Int) + 1) = s.memory.byteAt ((s.pc.toNat : Int) + 1) :=
    h (s.pc.toNat + 1) (.word (by omega) (by omega))
  have hword : M.word s.pc.toNat = s.memory.word s.pc.toNat := by
    rw [Memory.word, Memory.word, h _ (.word (by omega) (by omega)), hnext]
  have hcycle : (s.withMemory M).step = _ := step_eq_commit_of_le hpc
  rw [hcycle, withMemory_memory, withMemory_pc, hword, past_withMemory,
    dispatch_withMemory ?operands, commit_withMemory, ← step_eq_commit_of_le hpc]
  · rfl
  · intro o ho k hk
    exact h (s.I.toNat + k) (.operand o ho (by omega) (by omega))

/-- The memory after a cycle holds what the word wrote, and elsewhere the old bytes. -/
theorem getElem_step_memory (hpc : s.pc.toNat ≤ 0xFFE) (h : s.step = .ok t) {a : Nat}
    (ha : a < 4096) :
    t.memory[a] = (s.past.written? (s.memory.word s.pc.toNat) a).getD s.memory[a] := by
  rw [step_eq_commit_of_le hpc] at h
  rw [eq_of_commit_eq_ok h]
  exact s.past.getElem_dispatch_memory _ ha

/-- **Read sets.** Let two states differ in the memory alone, and there at no address that
a cycle of the first is entitled to read. Then a cycle fails with the same fault on both,
or succeeds on both; and if it succeeds, the new states differ in the memory alone, and
each address holds the same written byte in both or its old byte in each. Whether
anything was noted before is not asked. -/
theorem step_reads_only (hst : t = { s with memory := t.memory }) (hpc : s.pc.toNat ≤ 0xFFE)
    (hbytes : ∀ (a : Nat) (ha : a < 4096), s.Entitled a → t.memory[a] = s.memory[a]) :
    (∀ f, s.step = .error f ↔ t.step = .error f) ∧
      ∀ s', s.step = .ok s' → ∃ t', t.step = .ok t' ∧
        t' = { s' with memory := t'.memory } ∧
        ∃ written : Nat → Option UInt8, ∀ (a : Nat) (ha : a < 4096),
          s'.memory[a] = (written a).getD s.memory[a] ∧
          t'.memory[a] = (written a).getD t.memory[a] := by
  have hstep : t.step = _ := (congrArg step hst).trans (step_withMemory hpc fun a ha =>
    Memory.byteAt_congr fun hlt => hbytes a hlt ha)
  constructor
  · intro f
    rw [hstep, map_eq_error_iff]
  · intro s' hs
    rw [hs] at hstep
    refine ⟨_, hstep, rfl, s.past.written? (s.memory.word s.pc.toNat), ?_⟩
    intro a ha
    -- Both memories are the old ones with the same bytes written.
    have hboth := (s.past.withMemory t.memory).getElem_dispatch_memory
      (s.memory.word s.pc.toNat) ha
    rw [written?_withMemory] at hboth
    exact ⟨getElem_step_memory hpc hs ha, hboth⟩

/-- A sprite of one row is drawn from fifteen gathered ones, and the second is not seen:
two memories that differ there give the same display. -/
theorem second_row_is_not_read :
    let s : State := { fresh ⟨0, 0⟩ with
      I := 0x300
      memory := Memory.store (Vector.replicate 4096 0) 0x200 [0xD0, 0x01] }
    let t : State := s.withMemory (s.memory.setIfInBounds 0x301 0xFF)
    ∃ s' t', s.step = .ok s' ∧ t.step = .ok t' ∧ t' = { s' with memory := t'.memory } := by
  intro s t
  have hword : s.memory.word s.pc.toNat = 0xD001 := by decide +kernel
  have hbytes : ∀ (a : Nat) (ha : a < 4096), s.Entitled a → t.memory[a] = s.memory[a] := by
    intro a ha hentitled
    refine Vector.getElem_setIfInBounds_ne ha ?_
    rintro rfl
    rcases hentitled with ⟨-, hlt⟩ | ⟨o, ho, -, hlt⟩
    · have hpc : s.pc.toNat = 0x200 := rfl
      omega
    · have hdraw : Operation.draw.Covers 0xD001 := rfl
      rw [hword] at ho hlt
      obtain rfl := Operation.eq_of_covers ho hdraw
      revert hlt
      decide
  have hsome : s.step.toOption.isSome = true := by decide +kernel
  rcases hs : s.step with f | s'
  · rw [hs] at hsome
    cases hsome
  · obtain ⟨t', ht, heq, -⟩ := (step_reads_only rfl (by decide) hbytes).2 s' hs
    exact ⟨s', t', rfl, ht, heq⟩

end State
end ChipEight
