/-
What is seen of a history from outside.

The transcript of a history lists its actions, each with its answer and with what was
reported. It holds no machine, and yet it settles the bookkeeping of one: which program
is loaded, and how many cycles were completed since.

`Change` says what an action does to the state. `Move` says what it does to the whole
machine, beside what is seen of it, and sorts the actions by that: starting over,
completing a cycle, faulting, and everything else, which leaves the bookkeeping alone
and the state as it is but for the timers, the keypad and the flag of the display.
-/
import ChipEight.Proofs.Starting
import Mathlib.Data.List.Induction

set_option autoImplicit false

namespace ChipEight

/-! ## Events -/

/-- An action as it was seen: with its answer, and with what was reported. -/
structure Event where
  action : Action
  answer : Except Error Answer
  notices : List Notice

namespace Event

/-- Did the machine start over? It does by a load or a reset that is carried out. -/
def starts (e : Event) : Bool :=
  match e.action, e.answer with
  | .load _ _, .ok _ => true
  | .reset, .ok _ => true
  | _, _ => false

/-- Was a cycle completed? -/
def completes (e : Event) : Bool :=
  match e.action, e.answer with
  | .step, .ok _ => true
  | _, _ => false

/-- The program that was loaded, if one was. -/
def loaded? (e : Event) : Option (List UInt8) :=
  match e.action, e.answer with
  | .load program _, .ok _ => some program
  | _, _ => none

/-- Neither a start nor a completed cycle: the bookkeeping does not see it. -/
def Passes (e : Event) : Prop :=
  e.starts = false ∧ e.completes = false ∧ e.loaded? = none

end Event

/-- The program loaded last, or the one from before. -/
def lastLoaded (before : List UInt8) (events : List Event) : List UInt8 :=
  (events.reverse.findSome? Event.loaded?).getD before

/-- How many cycles were completed since the machine started over, or from the
beginning if it never did. -/
def completedSinceStart (events : List Event) : Nat :=
  (events.reverse.takeWhile fun e => !e.starts).countP Event.completes

/-- The two states are the same but for what is changed from outside: the timers, the
keypad and the flag of the display. -/
def State.SameInside (s t : State) : Prop :=
  t = { s with
    delayTimer := t.delayTimer
    soundTimer := t.soundTimer
    keypad := t.keypad
    displayChanged := t.displayChanged }

theorem State.SameInside.refl (s : State) : s.SameInside s := rfl

theorem State.SameInside.trans {s t u : State} (hst : s.SameInside t) (htu : t.SameInside u) :
    s.SameInside u := by
  rw [SameInside] at hst htu ⊢
  rw [htu, hst]

namespace Machine

/-- What is seen of an action. -/
def event (m : Machine) (a : Action) : Event :=
  ⟨a, (m.perform a).answer, (m.perform a).notices⟩

/-- What is seen of a history. -/
def transcript (m : Machine) : List Action → List Event
  | [] => []
  | a :: actions => m.event a :: (m.perform a).machine.transcript actions

/-! ## One action -/

/-- What one action does to a machine, and what is seen of it. -/
inductive Move (m : Machine) : Event → Machine → Prop where
  | load {program : List UInt8} {source : String} : program.length ≤ maxProgramSize →
      Move m ⟨.load program source, .ok .done, [.loaded source program.length]⟩
        (booted m.seed m.key program)
  | reset : m.program.length ≤ maxProgramSize →
      Move m ⟨.reset, .ok .done, [.loaded "reset" m.program.length]⟩
        (booted m.seed m.key m.program)
  | cycle {t : State} : m.fault = none → m.state.step = .ok t →
      Move m ⟨.step, .ok .done, []⟩ { m with state := t, cycles := m.cycles + 1 }
  | fault {f : Fault} : m.fault = none → m.state.step = .error f →
      Move m ⟨.step, .error (.fault f), [.faulted f, .registers "ERROR" m.state]⟩
        { m with fault := some f }
  | pass {e : Event} {t : State} : e.Passes → m.state.SameInside t →
      Move m e { m with state := t }

/-- Pressing and releasing differ only in the keypad they come to, if they come to one. -/
theorem move_keypad (m : Machine) (a : Action) (keypad : Except Error Keypad)
    (h : m.perform a = m.replyOf ((keypad.map m.withKeypad).map fun n => (n, [])))
    (ha : ∀ answer notices, Event.Passes ⟨a, answer, notices⟩) :
    Move m (m.event a) (m.perform a).machine := by
  rw [event, h]
  rcases keypad with e | k
  · exact .pass (ha _ _) rfl
  · exact .pass (ha _ _) rfl

/-- **Every action is one of the moves.** -/
theorem move_perform (m : Machine) (a : Action) : Move m (m.event a) (m.perform a).machine := by
  cases a with
  | load program source =>
    by_cases hlarge : maxProgramSize < program.length
    · rw [event, m.perform_load_of_lt hlarge]
      exact .pass ⟨rfl, rfl, rfl⟩ rfl
    · rw [event, m.perform_load_of_le (by omega)]
      exact .load (by omega)
  | reset =>
    rw [event, perform_reset]
    by_cases hlarge : maxProgramSize < m.program.length
    · rw [m.perform_load_of_lt hlarge]
      exact .pass ⟨rfl, rfl, rfl⟩ rfl
    · rw [m.perform_load_of_le (by omega)]
      exact .reset (by omega)
  | step =>
    rcases hf : m.fault with _ | f
    · rcases hs : m.state.step with f | t
      · rw [event, perform_step_of_fault hf hs]
        exact .fault hf hs
      · rw [event, perform_step_of_ok hf hs]
        exact .cycle hf hs
    · rw [event, perform_step_of_halted hf]
      exact .pass ⟨rfl, rfl, rfl⟩ rfl
  | tick => exact .pass ⟨rfl, rfl, rfl⟩ rfl
  | press key => exact m.move_keypad _ (m.state.keypad.press key) rfl fun _ _ => ⟨rfl, rfl, rfl⟩
  | release key =>
    exact m.move_keypad _ (m.state.keypad.release key) rfl fun _ _ => ⟨rfl, rfl, rfl⟩
  | releaseAll => exact .pass ⟨rfl, rfl, rfl⟩ rfl
  | consumeDisplay =>
    rcases hflag : m.state.displayChanged
    · rw [event, perform_consumeDisplay_of_unchanged hflag]
      exact .pass ⟨rfl, rfl, rfl⟩ rfl
    · rw [event, perform_consumeDisplay_of_changed hflag]
      exact .pass ⟨rfl, rfl, rfl⟩ rfl
  | readMemory start length => exact .pass ⟨rfl, rfl, rfl⟩ rfl

namespace Move

variable {m n : Machine} {e : Event}

theorem seed_eq (h : Move m e n) : n.seed = m.seed ∧ n.key = m.key := by
  cases h with
  | _ => exact ⟨rfl, rfl⟩

theorem program_eq (h : Move m e n) : n.program = e.loaded?.getD m.program := by
  cases h with
  | pass he =>
    rw [he.2.2]
    rfl
  | _ => rfl

/-- No program that does not fit is ever kept. -/
theorem program_length_le (h : Move m e n) (hm : m.program.length ≤ maxProgramSize) :
    n.program.length ≤ maxProgramSize := by
  cases h with
  | load hfits => exact hfits
  | _ => exact hm

theorem cycles_eq (h : Move m e n) :
    n.cycles = if e.starts then 0 else m.cycles + if e.completes then 1 else 0 := by
  cases h with
  | pass he =>
    rw [he.1, he.2.1]
    rfl
  | _ => rfl

end Move

/-! ## Along a history -/

theorem transcript_append (m : Machine) (actions more : List Action) :
    m.transcript (actions ++ more) =
      m.transcript actions ++ (m.after actions).transcript more := by
  induction actions generalizing m with
  | nil => rfl
  | cons a actions ih =>
    rw [List.cons_append, transcript, transcript, ih, after_cons, List.cons_append]

theorem transcript_concat (m : Machine) (actions : List Action) (a : Action) :
    m.transcript (actions ++ [a]) = m.transcript actions ++ [(m.after actions).event a] :=
  m.transcript_append actions [a]

/-- **The program** of a machine is the one loaded last. -/
theorem program_after (m : Machine) (actions : List Action) :
    (m.after actions).program = lastLoaded m.program (m.transcript actions) := by
  -- From the right: what was loaded last is looked for from the end of the transcript.
  induction actions using List.reverseRecOn with
  | nil => rfl
  | append_singleton actions a ih =>
    have hmove := ((m.after actions).move_perform a).program_eq
    rw [after_concat, hmove, ih, transcript_concat, lastLoaded, lastLoaded, List.reverse_concat,
      List.findSome?_cons]
    rcases ((m.after actions).event a).loaded? with _ | program
    · rfl
    · rfl

/-- **The count of cycles** of a machine that starts with none is the number of cycles
completed since its last start. -/
theorem cycles_after {m : Machine} (h : m.cycles = 0) (actions : List Action) :
    (m.after actions).cycles = completedSinceStart (m.transcript actions) := by
  induction actions using List.reverseRecOn with
  | nil => exact h
  | append_singleton actions a ih =>
    have hmove := ((m.after actions).move_perform a).cycles_eq
    rw [after_concat, hmove, ih, transcript_concat, completedSinceStart, completedSinceStart,
      List.reverse_concat, List.takeWhile_cons]
    rcases ((m.after actions).event a).starts
    · -- No start: the count goes on from the one before.
      simp only [Bool.not_false, Bool.false_eq_true, if_true, if_false, List.countP_cons]
    · rfl

end Machine
end ChipEight
