/-
Where the program counter goes.

The program counter has sixteen bits and its arithmetic wraps. `Operation.exactPc` says
where a cycle goes on in integers, where nothing can wrap: the next word, the word behind
it, the word itself again, or an address the operation names. After a fetch inside
the memory the two agree, so no cycle that succeeds has wrapped.

`Operation.nextAddress` is the law that programs are written by. It speaks of the digits of
the word and of what is held in registers, slots and keys, and knows nothing of the two
writes, one by the fetch and one by the operation, that the program counter is made from.
-/
import ChipEight.Proofs.CallStack
import ChipEight.Proofs.Words

set_option autoImplicit false

namespace ChipEight

namespace State

variable {s : State}

/-- A fetch inside the memory moves the program counter by two. -/
theorem toNat_past_pc (h : s.pc.toNat ≤ 0xFFE) : s.past.pc.toNat = s.pc.toNat + 2 := by
  rw [past, UInt16.toNat_add]
  exact Nat.mod_eq_of_lt (by simp; omega)

/-- And a skip moves it by two more. -/
theorem toNat_skip_pc (h : s.pc.toNat ≤ 0xFFE) (skips : Bool) :
    ((if skips then s.past.pc + 2 else s.past.pc).toNat : Int) =
      if skips then (s.pc.toNat : Int) + 2 + 2 else s.pc.toNat + 2 := by
  have hnext := toNat_past_pc h
  cases skips
  · exact congrArg _ hnext
  · have hskip : (s.past.pc + 2).toNat = s.pc.toNat + 2 + 2 := by
      rw [UInt16.toNat_add, hnext]
      exact Nat.mod_eq_of_lt (by simp; omega)
    exact congrArg _ hskip

/-- Coming back to a word undoes the fetch, at every address. -/
theorem past_pc_sub (s : State) : s.past.pc - 2 = s.pc := by
  rw [past]
  exact UInt16.add_sub_cancel _ _

end State

namespace Operation

theorem toNat_ofNat_nnn (f : Operands) (k : Nat) (hk : k ≤ 0xFF) :
    (UInt16.ofNat (f.nnn + k)).toNat = f.nnn + k := by
  have hn := f.nnn.isLt
  exact UInt16.toNat_ofNat_of_lt (by simp [UInt16.size]; omega)

/-- **No wrapping.** After a fetch inside the memory an operation goes on where it
would in integers. -/
theorem toNat_pcAfter {s : State} (h : s.pc.toNat ≤ 0xFFE) (o : Operation) (f : Operands) :
    ((o.pcAfter s.past f).toNat : Int) = o.exactPc s f := by
  cases o
  case returnFromCall => rfl
  case jump => exact congrArg _ (toNat_ofNat_nnn f 0 (by omega))
  case call => exact congrArg _ (toNat_ofNat_nnn f 0 (by omega))
  case jumpWithOffset =>
    have hV := (s.reg ⟨0, Nat.zero_lt_succ 15⟩).toNat_lt
    have hk : (s.reg ⟨0, Nat.zero_lt_succ 15⟩).toNat ≤ 0xFF := by omega
    exact congrArg _ (toNat_ofNat_nnn f _ hk)
  case waitForKey =>
    show ((if s.keypad.lastPressed < 0 then s.past.pc - 2 else s.past.pc).toNat : Int)
      = if s.keypad.lastPressed < 0 then (s.pc.toNat : Int) + 2 - 2 else s.pc.toNat + 2
    by_cases hw : s.keypad.lastPressed < 0
    · rw [if_pos hw, if_pos hw, s.past_pc_sub]
      omega
    · rw [if_neg hw, if_neg hw, State.toNat_past_pc h]
      rfl
  -- the skips, and what goes on with the next word
  all_goals exact State.toNat_skip_pc h _

end Operation

/-! ## The law -/

/-- The low digit of a byte. -/
def lowDigit (b : UInt8) : Fin 16 := ⟨b.toNat % 16, Nat.mod_lt _ (by decide)⟩

theorem Keypad.isHeld_toNat (k : Keypad) (b : UInt8) :
    k.isHeld b.toNat = k.held.get (lowDigit b) := by
  have hdigit : (((b.toNat : Nat) : Int) % 16).toNat = (lowDigit b).val := by
    simp only [lowDigit]
    omega
  rw [isHeld, hdigit, Array.getD_eq_getD_getElem?]
  simp [Vector.get]

/-- The slot below the pointer is the one that is popped, when there is one. -/
theorem CallStack.pop_address {c : CallStack} (h0 : 0 < c.pointer)
    (hlane : fitsLane c.pointer = true) : c.pop.2.1 = c.slotAt (c.pointer - 1) := by
  have hbelow : fitsLane (c.pointer - 1) = true := by
    rw [fitsLane_iff] at hlane ⊢
    omega
  have hmax : max (c.pointer - 1) 0 = c.pointer - 1 := by omega
  rw [pop, wrapLane_of_fitsLane hbelow, hmax]

namespace Operation

/-- Where a cycle goes on, by its operation and the last three digits of its word: at an
address the word names, at the return address on top of the stack, at the word itself again,
over the next word, or with the next word. -/
def nextAddress (o : Operation) (s : State) (x y n : Fin 16) : Nat :=
  let p := s.pc.toNat
  match o with
  | .jump | .call => 0x100 * x + 0x10 * y + n
  | .jumpWithOffset => 0x100 * x + 0x10 * y + n + (s.V.toArray.getD 0 0).toNat
  | .returnFromCall => (s.stack.slotAt (s.stack.pointer - 1)).toNat
  | .waitForKey => if s.keypad.lastPressed < 0 then p else p + 2
  | .skipIfEqualImmediate => if (s.reg x).toNat = 0x10 * y + n then p + 4 else p + 2
  | .skipIfNotEqualImmediate => if (s.reg x).toNat ≠ 0x10 * y + n then p + 4 else p + 2
  | .skipIfEqualRegister => if s.reg x = s.reg y then p + 4 else p + 2
  | .skipIfNotEqualRegister => if s.reg x ≠ s.reg y then p + 4 else p + 2
  | .skipIfKey => if s.keypad.held.get (lowDigit (s.reg x)) = true then p + 4 else p + 2
  | .skipIfNotKey => if s.keypad.held.get (lowDigit (s.reg x)) = false then p + 4 else p + 2
  | _ => p + 2

theorem exact_of_skip {c : Bool} {q : Prop} [Decidable q] {p : Nat} (h : c = true ↔ q) :
    (if c then (p : Int) + 2 + 2 else p + 2) = ((if q then p + 4 else p + 2 : Nat) : Int) := by
  by_cases hq : q
  · rw [if_pos (h.mpr hq), if_pos hq]
    omega
  · rw [if_neg fun hc => hq (h.mp hc), if_neg hq]
    omega

/-- The law says of every operation where it goes on, as long as a return finds an address. -/
theorem exactPc_eq_nextAddress {s : State} (hlane : fitsLane s.stack.pointer = true)
    {o : Operation} {first x y n : Fin 16}
    (hz : o.hazard? s (Operands.ofWord (wordOf first x y n)) = none) :
    o.exactPc s (Operands.ofWord (wordOf first x y n)) = o.nextAddress s x y n := by
  have hnnn := Operands.nnn_wordOf first x y n
  cases o
  case returnFromCall =>
    have hpos : 0 < s.stack.pointer := by
      apply Int.not_le.mp
      intro hempty
      rw [hazard?, if_pos hempty] at hz
      cases hz
    rw [exactPc, nextAddress, CallStack.pop_address hpos hlane]
  case jump | call =>
    rw [exactPc, nextAddress, hnnn]
  case jumpWithOffset =>
    have hV0 : s.V.toArray.getD 0 0 = s.reg ⟨0, Nat.zero_lt_succ 15⟩ := by
      rw [Array.getD_eq_getD_getElem?]
      simp [State.reg]
    rw [exactPc, nextAddress, hnnn, hV0]
    rfl
  case waitForKey =>
    rw [exactPc, nextAddress]
    by_cases hw : s.keypad.lastPressed < 0
    · rw [if_pos hw, if_pos hw]
      omega
    · rw [if_neg hw, if_neg hw]
      rfl
  case skipIfEqualImmediate =>
    refine exact_of_skip ?_
    rw [skips, Operands.ofWord_wordOf_x, beq_iff_eq, Operands.eq_nn_wordOf]
  case skipIfNotEqualImmediate =>
    refine exact_of_skip ?_
    rw [skips, Operands.ofWord_wordOf_x, bne_iff_ne, Ne, Operands.eq_nn_wordOf]
  case skipIfEqualRegister =>
    refine exact_of_skip ?_
    rw [skips, Operands.ofWord_wordOf_x, Operands.ofWord_wordOf_y, beq_iff_eq]
  case skipIfNotEqualRegister =>
    refine exact_of_skip ?_
    rw [skips, Operands.ofWord_wordOf_x, Operands.ofWord_wordOf_y, bne_iff_ne]
  case skipIfKey =>
    refine exact_of_skip ?_
    rw [skips, Operands.ofWord_wordOf_x, Keypad.isHeld_toNat]
  case skipIfNotKey =>
    refine exact_of_skip ?_
    rw [skips, Operands.ofWord_wordOf_x, Keypad.isHeld_toNat, Bool.not_eq_true']
  -- the others go on with the next word
  all_goals rfl

end Operation

namespace State

/-- Of two words exactly one, carried out on the same state, goes over the next word; and
where nothing is noted yet, neither is refused. -/
def OneSkips (s : State) (w v : UInt16) : Prop :=
  ((s.dispatch w).pc = s.pc + 2 ∧ (s.dispatch v).pc = s.pc ∨
    (s.dispatch w).pc = s.pc ∧ (s.dispatch v).pc = s.pc + 2) ∧
  (s.latch.code = noFault →
    s.execute w.toNat = .ok (s.dispatch w) ∧ s.execute v.toNat = .ok (s.dispatch v))

/-- A word that skips moves the program counter or leaves it alone, and meets nothing. -/
structure Skips (s : State) (w : UInt16) (c : Bool) : Prop where
  pc : (s.dispatch w).pc = if c then s.pc + 2 else s.pc
  execute : s.latch.code = noFault → s.execute w.toNat = .ok (s.dispatch w)

theorem skips_of_covers {s : State} {o : Operation} {w : UInt16} (ho : o.Covers w)
    (hz : o.hazard? s (Operands.ofWord w) = none)
    (hpc : o.pcAfter s (Operands.ofWord w) =
      if o.skips s (Operands.ofWord w) then s.pc + 2 else s.pc) :
    s.Skips w (o.skips s (Operands.ofWord w)) where
  pc := by rw [dispatch_of_covers ho, Operation.run_pc, hpc]
  execute hs := by rw [dispatch_of_covers ho, execute_of_covers hs ho hz]

theorem OneSkips.of_skips {s : State} {w v : UInt16} {c : Bool} (hw : s.Skips w c)
    (hv : s.Skips v (!c)) : s.OneSkips w v := by
  refine ⟨?_, fun hs => ⟨hw.execute hs, hv.execute hs⟩⟩
  rw [hw.pc, hv.pc]
  cases c <;> simp

theorem oneSkips_immediate (s : State) (x y n : Fin 16) :
    s.OneSkips (wordOf 0x3 x y n) (wordOf 0x4 x y n) := by
  have h3 : Operation.skipIfEqualImmediate.Covers (wordOf 0x3 x y n) := first_wordOf ..
  have h4 : Operation.skipIfNotEqualImmediate.Covers (wordOf 0x4 x y n) := first_wordOf ..
  -- the immediate is the same number in both words, though the words differ
  have hnn : (Operands.ofWord (wordOf 0x4 x y n)).nn =
      (Operands.ofWord (wordOf 0x3 x y n)).nn := by
    rw [Operands.eq_nn_wordOf, Operands.toNat_nn_wordOf]
  apply OneSkips.of_skips (s.skips_of_covers h3 rfl rfl)
  have hskips := s.skips_of_covers h4 rfl rfl
  simpa [Operation.skips, hnn, bne] using hskips

theorem oneSkips_register (s : State) (x y n n' : Fin 16) :
    s.OneSkips (wordOf 0x5 x y n) (wordOf 0x9 x y n') := by
  have h5 : Operation.skipIfEqualRegister.Covers (wordOf 0x5 x y n) := first_wordOf ..
  have h9 : Operation.skipIfNotEqualRegister.Covers (wordOf 0x9 x y n') := first_wordOf ..
  apply OneSkips.of_skips (s.skips_of_covers h5 rfl rfl)
  have hskips := s.skips_of_covers h9 rfl rfl
  simpa [Operation.skips, bne] using hskips

theorem oneSkips_key (s : State) (x : Fin 16) :
    s.OneSkips (wordOf 0xE x 0x9 0xE) (wordOf 0xE x 0xA 0x1) := by
  have hE : Operation.skipIfKey.Covers (wordOf 0xE x 0x9 0xE) :=
    ⟨first_wordOf .., byte_wordOf ..⟩
  have hA : Operation.skipIfNotKey.Covers (wordOf 0xE x 0xA 0x1) :=
    ⟨first_wordOf .., byte_wordOf ..⟩
  apply OneSkips.of_skips (s.skips_of_covers hE rfl rfl)
  have hskips := s.skips_of_covers hA rfl rfl
  simpa [Operation.skips] using hskips

/-- **The law of the program counter.** A cycle that succeeds goes on at the address that
its operation and the digits of its word name, and this address has not been wrapped; the
pointer of the stack is held in a lane, as it always is. And on every state exactly one of
3XNN and 4XNN goes over the next word, of 5XYN and 9XYN, and of EX9E and EXA1, whatever the
registers are. -/
theorem program_counter_law (s : State) :
    (∀ t, fitsLane s.stack.pointer = true → s.step = .ok t →
      ∃ (first x y n : Fin 16) (o : Operation), s.pc.toNat + 1 < 4096 ∧
        (s.memory.byteAt s.pc.toNat).toNat = 0x10 * first + x ∧
        (s.memory.byteAt (s.pc.toNat + 1)).toNat = 0x10 * y + n ∧
        o.Covers (wordOf first x y n) ∧ t.pc.toNat = o.nextAddress s x y n) ∧
      ∀ x y n n' : Fin 16,
        s.OneSkips (wordOf 0x3 x y n) (wordOf 0x4 x y n) ∧
        s.OneSkips (wordOf 0x5 x y n) (wordOf 0x9 x y n') ∧
        s.OneSkips (wordOf 0xE x 0x9 0xE) (wordOf 0xE x 0xA 0x1) := by
  constructor
  · intro t hlane h
    obtain ⟨hpc, o, ho, hz, rfl⟩ := exists_run_of_step (latch_clear_of_step_eq_ok h) h
    have hbytes := s.memory.toNat_word (a := s.pc.toNat) (by omega)
    obtain ⟨first, x, y, n, hword⟩ := exists_eq_wordOf (s.memory.word s.pc.toNat)
    rw [hword] at ho hz hbytes ⊢
    rw [toNat_wordOf] at hbytes
    have hhigh : s.memory.byteAt s.pc.toNat = s.memory[s.pc.toNat] :=
      s.memory.byteAt_of_lt (by omega)
    have hlow : s.memory.byteAt (s.pc.toNat + 1) = s.memory[s.pc.toNat + 1] :=
      s.memory.byteAt_of_lt (a := s.pc.toNat + 1) (by omega)
    rw [← hhigh, ← hlow] at hbytes
    have hhighByte := (s.memory.byteAt s.pc.toNat).toNat_lt
    have hlowByte := (s.memory.byteAt (s.pc.toNat + 1)).toNat_lt
    refine ⟨first, x, y, n, o, by omega, by omega, by omega, Operation.covers_of_ofWord? ho, ?_⟩
    have hexact := Operation.toNat_pcAfter hpc o (Operands.ofWord (wordOf first x y n))
    rw [Operation.exactPc_eq_nextAddress hlane hz] at hexact
    rw [Operation.run_pc]
    omega
  · intro x y n n'
    exact ⟨s.oneSkips_immediate x y n, s.oneSkips_register x y n n', s.oneSkips_key x⟩

/-- A skip at the last word of the memory: the cycle succeeds and goes on behind the end,
at an address that no fetch can read and that is not wrapped to the beginning. -/
theorem skip_from_the_last_word :
    let s : State := { fresh ⟨0, 0⟩ with
      pc := 0xFFE
      memory := (Vector.replicate 4096 0).setIfInBounds 0xFFE 0x30 }
    ∃ t, fitsLane s.stack.pointer = true ∧ s.step = .ok t ∧ t.pc.toNat = 0x1002 := by
  intro s
  have hhigh : s.memory[0xFFE] = 0x30 := by simp [s]
  have hlow : s.memory[0xFFF] = 0x00 := by simp [s]
  have hcovers : Operation.skipIfEqualImmediate.Covers (wordOf 0x3 0 0 0) := first_wordOf ..
  have hword : s.memory.word s.pc.toNat = wordOf 0x3 0 0 0 := by
    apply UInt16.toNat_inj.mp
    rw [show (s.pc.toNat : Int) = (0xFFE : Nat) from rfl, s.memory.toNat_word (by decide),
      hhigh, hlow]
    rfl
  have hstep : s.step = .ok (s.past.dispatch (wordOf 0x3 0 0 0)) := by
    have hnone : s.hazard? (wordOf 0x3 0 0 0) = none := by
      rw [hazard?, Operation.ofWord?_of_covers hcovers]
      rfl
    rw [step_eq rfl, if_neg (by decide), hword, hnone]
  obtain ⟨first, x, y, n, o, -, hfirst, hrest, ho, hpc⟩ :=
    (program_counter_law s).1 _ (by decide) hstep
  refine ⟨_, by decide, hstep, ?_⟩
  -- the digits are those of the two bytes, so the word is 3000 and VX is V0
  have hhighByte : s.memory.byteAt s.pc.toNat = 0x30 :=
    (s.memory.byteAt_of_lt (a := 0xFFE) (by decide)).trans hhigh
  have hlowByte : s.memory.byteAt (s.pc.toNat + 1) = 0x00 :=
    (s.memory.byteAt_of_lt (a := 0xFFF) (by decide)).trans hlow
  rw [hhighByte] at hfirst
  rw [hlowByte] at hrest
  have hhighDigits : 0x30 = 0x10 * first.val + x := hfirst
  have hlowDigits : 0x00 = 0x10 * y.val + n := hrest
  obtain rfl : first = 0x3 := by omega
  obtain rfl : x = 0 := by omega
  obtain rfl : y = 0 := by omega
  obtain rfl : n = 0 := by omega
  rw [hpc, Operation.eq_of_covers ho hcovers]
  rfl

end State
end ChipEight
