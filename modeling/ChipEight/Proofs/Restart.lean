/-
A reset leaves nothing of what happened.

A reset is a load of the program there is, and a load puts a machine in place of the
old one that depends on three things only: the seed, its key and the program. The first
two are never changed, and the third is what the transcript says was loaded last. So a
machine after any history and a reset is the machine that is created with that program,
whatever the program did to its own memory, and whatever happens to either from then on
happens to both.

A load that does not fit is refused before anything is put in place. The limit is the
memory behind the start address, which is why every program up to it is read back whole.
-/
import ChipEight.Proofs.Transcripts

set_option autoImplicit false

namespace ChipEight.Machine

variable {program : List UInt8} {seed : Int} {m : Machine} {notices : List Notice}

/-! ## What no history changes -/

theorem seed_after (m : Machine) (actions : List Action) :
    (m.after actions).seed = m.seed ∧ (m.after actions).key = m.key := by
  refine after_of_perform (P := fun n => n.seed = m.seed ∧ n.key = m.key) ?_ m ⟨rfl, rfl⟩ actions
  intro n a hn
  have hsame := (n.move_perform a).seed_eq
  exact ⟨hsame.1.trans hn.1, hsame.2.trans hn.2⟩

theorem program_length_after {m : Machine} (h : m.program.length ≤ maxProgramSize)
    (actions : List Action) : (m.after actions).program.length ≤ maxProgramSize :=
  after_of_perform (fun n a => (n.move_perform a).program_length_le) m h actions

/-! ## A reset -/

/-- **A reset after any history** gives the machine that was just created with the
program loaded last. -/
theorem reset_after (h : create program seed = .ok (m, notices)) (actions : List Action) :
    ∃ key, RandomKey.ofSeed seed = .ok key ∧
      (lastLoaded program (m.transcript actions)).length ≤ maxProgramSize ∧
      (m.after actions).perform .reset =
        ⟨booted seed key (lastLoaded program (m.transcript actions)), .ok .done,
          [.loaded "reset" (lastLoaded program (m.transcript actions)).length]⟩ := by
  obtain ⟨key, hkey, hfits, rfl⟩ := create_eq_ok h
  have hprogram := program_after (booted seed key program) actions
  have hlength := program_length_after (m := booted seed key program) hfits actions
  obtain ⟨hseed', hkey'⟩ := seed_after (booted seed key program) actions
  rw [perform_reset, perform_load_of_le _ hlength, hprogram, hseed', hkey']
  rw [hprogram] at hlength
  exact ⟨key, hkey, hlength, rfl⟩

/-- **A reset erases the history.** Let `P` be the program loaded last. After any history
a reset is carried out, and gives the machine that is created with `P` from the same
seed: with `P` and the font in the memory and nothing else, and every other field as it
is before the first cycle. So whatever is done afterwards has the same answers and the
same effects as on the new machine. And after any history a load of more than 3584 bytes
changes nothing, while a load of up to 3584 bytes is carried out and read back whole. -/
theorem reset_erases_history (h : create program seed = .ok (m, notices))
    (actions : List Action) (P : List UInt8)
    (hP : P = lastLoaded program (m.transcript actions)) :
    (∃ key new news, RandomKey.ofSeed seed = .ok key ∧ create P seed = .ok (new, news) ∧
        (m.after actions).perform .reset = ⟨new, .ok .done, [.loaded "reset" P.length]⟩ ∧
        (∀ later, m.after (actions ++ [.reset] ++ later) = new.after later ∧
          m.transcript (actions ++ [.reset] ++ later) =
            m.transcript (actions ++ [.reset]) ++ new.transcript later) ∧
        new.program = P ∧ new.fault = none ∧ new.cycles = 0 ∧
        new.state = { State.fresh key with pc := 0x200, memory := new.state.memory } ∧
        ∀ (i : Nat) (hi : i < 4096), new.state.memory[i] =
          if 0x50 ≤ i ∧ i < 0x50 + 80 then fontData.getD (i - 0x50) 0
          else if 0x200 ≤ i ∧ i < 0x200 + P.length then P.getD (i - 0x200) 0
          else 0) ∧
      ∀ (Q : List UInt8) (source : String),
        (3584 < Q.length →
          (m.after actions).perform (.load Q source) =
            ⟨m.after actions, .error (.programTooLarge Q.length), []⟩) ∧
        (Q.length ≤ 3584 →
          ∃ n, (m.after actions).perform (.load Q source) =
              ⟨n, .ok .done, [.loaded source Q.length]⟩ ∧
            n.readMemory 0x200 Q.length = .ok Q) := by
  subst hP
  constructor
  · obtain ⟨key, hkey, hfits, hreset⟩ := reset_after h actions
    have hcreate := create_eq hkey (lastLoaded program (m.transcript actions))
    rw [if_neg (by omega)] at hcreate
    refine ⟨key, _, _, hkey, hcreate, hreset, ?_, rfl, rfl, rfl, rfl, ?_⟩
    · intro later
      have hafter : m.after (actions ++ [.reset]) = _ :=
        (after_concat m actions .reset).trans (congrArg Reply.machine hreset)
      rw [after_append, transcript_append, hafter]
      exact ⟨rfl, rfl⟩
    · intro i hi
      exact Memory.getElem_store_fresh _ hi
  · intro Q source
    constructor
    · intro hlarge
      exact perform_load_of_lt _ hlarge source
    · intro hfits
      exact ⟨_, perform_load_of_le _ hfits source, readMemory_booted _ _ hfits⟩

/-- A program that overwrites itself and then faults, and a program that is too large to
be loaded after it. -/
theorem reset_erases_self_modification :
    ∃ m notices, create [0xA2, 0x00, 0xF0, 0x55, 0x00, 0xEE] 0 = .ok (m, notices) ∧
      (m.after [.step, .step, .step]).state.memory[0x200]? = some 0 ∧
      ∃ new news, create [0xA2, 0x00, 0xF0, 0x55, 0x00, 0xEE] 0 = .ok (new, news) ∧
        (m.after [.step, .step, .step, .load (List.replicate 3585 0) "large"]).perform .reset =
          ⟨new, .ok .done, [.loaded "reset" 6]⟩ := by
  have h : create [0xA2, 0x00, 0xF0, 0x55, 0x00, 0xEE] 0 = .ok _ := rfl
  refine ⟨_, _, h, by decide +kernel, ?_⟩
  obtain ⟨key, new, news, -, hnew, hreset, -⟩ :=
    (reset_erases_history h [.step, .step, .step, .load (List.replicate 3585 0) "large"]
      [0xA2, 0x00, 0xF0, 0x55, 0x00, 0xEE] (by decide +kernel)).1
  exact ⟨new, news, hnew, hreset⟩

end ChipEight.Machine
