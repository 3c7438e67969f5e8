/-
The cycle and its two halves.

`State.step` runs a cycle in one piece: a fetch that leaves the memory is noted, and
the cycle goes on with whatever it read. `State.fetch` checks the range and reads
nothing behind the memory, and `State.execute` takes its word from outside, as an
integer that is cut to sixteen bits. So the two ways share neither the range check nor
the way of the word, and this file shows that they agree: over every program counter,
every memory and every word.

What the halves cannot know is the address. A fault of the cycle is the fault of
`State.execute` with the address of the word filled in.
-/
import ChipEight.Proofs.Faults
import ChipEight.Proofs.Memory
import ChipEight.Proofs.Success

set_option autoImplicit false

namespace ChipEight

/-- A fault with the address of its word. -/
def Fault.locatedAt (f : Fault) (address : Int) : Fault :=
  { f with address := some address }

namespace State

variable {s t : State} {w : UInt16}

/-! ## The first half -/

theorem fetch_of_lt (h : 0xFFE < s.pc.toNat) :
    s.fetch = .error (.fault ⟨.memoryRange s.pc.toNat 2, none, none⟩) := by
  have hcheck : Memory.check s.pc.toNat 2 = _ := Memory.check_natCast s.pc.toNat 2
  rw [if_pos (by omega)] at hcheck
  rw [fetch, hcheck]
  rfl

theorem fetch_of_le (h : s.pc.toNat ≤ 0xFFE) :
    s.fetch = .ok (s.past, s.memory.word s.pc.toNat) := by
  have hcheck : Memory.check s.pc.toNat 2 = _ := Memory.check_natCast s.pc.toNat 2
  rw [if_neg (by omega)] at hcheck
  rw [fetch, hcheck]
  rfl

/-- A fetch that is carried out was inside the memory, and goes past its word. -/
theorem fetch_eq_ok (h : s.fetch = .ok (t, w)) :
    s.pc.toNat ≤ 0xFFE ∧ t = s.past ∧ w = s.memory.word s.pc.toNat := by
  by_cases hpc : 0xFFE < s.pc.toNat
  · rw [fetch_of_lt hpc] at h
    cases h
  · have hin : s.pc.toNat ≤ 0xFFE := by omega
    rw [fetch_of_le hin] at h
    cases h
    exact ⟨hin, rfl, rfl⟩

/-! ## The second half -/

/-- The word that was fetched, executed behind itself. -/
theorem execute_past (hs : s.latch.code = noFault) (w : UInt16) :
    s.past.execute w.toNat =
      match s.hazard? w with
      | none => .ok (s.past.dispatch w)
      | some c => .error ⟨c, some w.toNat, none⟩ := by
  have hexec := execute_eq (s := s.past) hs w.toNat
  rw [wordOfInt_toNat, past_hazard?] at hexec
  exact hexec

/-- What is executed has no address to tell. -/
theorem address_of_execute_eq_error {n : Int} {f : Fault} (h : s.execute n = .error f) :
    f.address = none := by
  rw [execute, commit] at h
  split at h
  · cases h
  · cases h
    rfl

/-! ## The whole -/

/-- **After a fetch, the cycle is the execution of the fetched word**, with the address
filled in where it faults. -/
theorem step_of_fetch (hs : s.latch.code = noFault) (h : s.fetch = .ok (t, w)) :
    s.step = (t.execute w.toNat).mapError (Fault.locatedAt · s.pc.toNat) := by
  obtain ⟨hpc, rfl, rfl⟩ := fetch_eq_ok h
  rw [step_eq hs, if_neg (by omega), execute_past hs]
  rcases s.hazard? (s.memory.word s.pc.toNat) with _ | c
  · rfl
  · rfl

/-- A word that faults is known to its fault, whatever it met. -/
theorem instruction_of_step_eq_error (hs : s.latch.code = noFault) (hpc : s.pc.toNat ≤ 0xFFE)
    {f : Fault} (h : s.step = .error f) : f.instruction ≠ none := by
  have hfault := (step_eq_error_iff hs f).mp h
  obtain ⟨c, -, rfl⟩ := (cycleFault_iff_of_fetch (by omega)).mp hfault
  exact Option.some_ne_none _

/-- A failed fetch is the fault of the cycle that has no word. -/
theorem fetch_eq_error_iff (hs : s.latch.code = noFault) (start length : Int) :
    s.fetch = .error (.fault ⟨.memoryRange start length, none, none⟩) ↔
      s.step = .error ⟨.memoryRange start length, none, some s.pc.toNat⟩ := by
  by_cases hpc : 0xFFE < s.pc.toNat
  · rw [fetch_of_lt hpc, step_eq hs, if_pos hpc]
    simp only [Except.error.injEq, Error.fault.injEq, Fault.mk.injEq, and_true]
  · have hin : s.pc.toNat ≤ 0xFFE := by omega
    constructor
    · intro h
      rw [fetch_of_le hin] at h
      cases h
    · intro h
      exact absurd rfl (instruction_of_step_eq_error hs hin h)

/-- **The cycle is its fetch followed by its word.** A fetch is refused, always for a
range, exactly when the cycle faults for that range without a word. Otherwise the cycle
and the executed word end in the same state, or in the same fault but for the address,
which the cycle knows and the executed word does not. -/
theorem step_iff_fetch_execute (s : State) (hs : s.latch.code = noFault) :
    (∀ e, s.fetch = .error e →
        ∃ start length, e = .fault ⟨.memoryRange start length, none, none⟩) ∧
      (∀ start length, s.fetch = .error (.fault ⟨.memoryRange start length, none, none⟩) ↔
        ∃ address, s.step = .error ⟨.memoryRange start length, none, address⟩) ∧
      ∀ t w, s.fetch = .ok (t, w) →
        (∀ u, s.step = .ok u ↔ t.execute w.toNat = .ok u) ∧
          ∀ f, s.step = .error f ↔
            ∃ g, t.execute w.toNat = .error g ∧ g.address = none ∧
              f = g.locatedAt s.pc.toNat := by
  refine ⟨?_, ?_, ?_⟩
  · intro e h
    by_cases hpc : 0xFFE < s.pc.toNat
    · rw [fetch_of_lt hpc] at h
      cases h
      exact ⟨_, _, rfl⟩
    · rw [fetch_of_le (by omega)] at h
      cases h
  · intro start length
    rw [fetch_eq_error_iff hs]
    constructor
    · intro h
      exact ⟨_, h⟩
    · rintro ⟨address, h⟩
      -- Every fault of a cycle tells the program counter as its address.
      cases (step_eq_error_iff hs _).mp h with
      | fetch _ => exact h
  · intro t w h
    rw [step_of_fetch hs h]
    refine ⟨fun u => mapError_eq_ok_iff, fun f => ?_⟩
    rw [mapError_eq_error_iff]
    constructor
    · rintro ⟨g, hg, rfl⟩
      exact ⟨g, hg, address_of_execute_eq_error hg, rfl⟩
    · rintro ⟨g, hg, -, rfl⟩
      exact ⟨g, hg, rfl⟩

/-- A drawing fetched from the last word of the memory, with its rows behind the end. -/
theorem draw_from_the_last_word :
    let s : State := { fresh ⟨0, 0⟩ with
      pc := 0xFFE
      I := 0xFFF
      memory := ((Vector.replicate 4096 0).set 0xFFE 0xD0).set 0xFFF 0x05 }
    s.latch.code = noFault ∧
      s.step = .error ⟨.memoryRange 0xFFF 5, some 0xD005, some 0xFFE⟩ := by
  intro s
  have hword : s.memory.word s.pc.toNat = 0xD005 := by
    apply UInt16.toNat_inj.mp
    rw [show (s.pc.toNat : Int) = (0xFFE : Nat) from rfl, s.memory.toNat_word (by decide)]
    simp [s]
  have hfetch : s.fetch = .ok (s.past, 0xD005) := hword ▸ fetch_of_le (by decide)
  have hrange : s.hazard? 0xD005 = some (.memoryRange 0xFFF 5) :=
    hazard?_eq_some_iff.mpr (.memoryRange rfl (by decide))
  have hexec : s.past.execute (0xD005 : UInt16).toNat =
      .error ⟨.memoryRange 0xFFF 5, some 0xD005, none⟩ := by
    rw [execute_past rfl, hrange]
    rfl
  exact ⟨rfl, ((step_iff_fetch_execute s rfl).2.2 _ _ hfetch).2 _ |>.mpr ⟨_, hexec, rfl, rfl⟩⟩

end State
end ChipEight
