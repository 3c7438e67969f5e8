/-
What a poll can do.

The requests of a poll are served on the machine, but they reach no further than its
keypad: cycles, fault, program and everything else of the state stay. In return the
machine has no say in how the poll goes. Whether it ends in a quit, in an error or not at
all, and whether a stop was asked for, can be read off the requests alone, and
`Request.answer` reads it off.
-/
import ChipEight.Schedule.Frontend

set_option autoImplicit false

namespace ChipEight

/-- What requests come to for the run: whether a stop is asked for, and how the poll goes. -/
def Request.answer : List Request → Bool × Verdict
  | [] => (false, .goOn)
  | .press key :: rest | .release key :: rest =>
    match Keypad.checkKey key with
    | .ok _ => answer rest
    | .error e => (false, .failed e)
  | .releaseAll :: rest => answer rest
  | .stop :: rest => (true, (answer rest).2)
  | .quit :: _ => (false, .quit)

namespace Machine

theorem withKeypad_withKeypad (m : Machine) (k l : Keypad) :
    (m.withKeypad k).withKeypad l = m.withKeypad l := rfl

/-- A change of a key succeeds for a key that exists, and is a change of the keypad. -/
theorem press_cases (m : Machine) (key : Int) :
    (∃ i k, Keypad.checkKey key = .ok i ∧ m.press key = .ok (m.withKeypad k)) ∨
      ∃ e, Keypad.checkKey key = .error e ∧ m.press key = .error e := by
  unfold press Keypad.press
  rcases Keypad.checkKey key with e | i
  · exact .inr ⟨e, rfl, rfl⟩
  · exact .inl ⟨i, _, rfl, rfl⟩

theorem release_cases (m : Machine) (key : Int) :
    (∃ i k, Keypad.checkKey key = .ok i ∧ m.release key = .ok (m.withKeypad k)) ∨
      ∃ e, Keypad.checkKey key = .error e ∧ m.release key = .error e := by
  unfold release Keypad.release
  rcases Keypad.checkKey key with e | i
  · exact .inr ⟨e, rfl, rfl⟩
  · exact .inl ⟨i, _, rfl, rfl⟩

/-- **Serving a poll** changes the keypad and nothing else of the machine, and it goes as
the requests say, whatever the machine is. -/
theorem serve_eq (m : Machine) (stop : Bool) (requests : List Request) :
    ∃ k, m.serve stop requests = ⟨m.withKeypad k, stop || (Request.answer requests).1,
      (Request.answer requests).2⟩ := by
  induction requests generalizing m stop with
  | nil => exact ⟨m.state.keypad, by simp [serve, Request.answer, withKeypad]⟩
  | cons request rest ih =>
    cases request with
    | press key =>
      rcases m.press_cases key with ⟨i, k, hkey, hpress⟩ | ⟨e, hkey, hpress⟩
      · obtain ⟨j, hj⟩ := ih (m.withKeypad k) stop
        refine ⟨j, ?_⟩
        simp only [serve, hpress, Request.answer, hkey, hj, withKeypad_withKeypad]
      · refine ⟨m.state.keypad, ?_⟩
        simp [serve, hpress, Request.answer, hkey, withKeypad]
    | release key =>
      rcases m.release_cases key with ⟨i, k, hkey, hrelease⟩ | ⟨e, hkey, hrelease⟩
      · obtain ⟨j, hj⟩ := ih (m.withKeypad k) stop
        refine ⟨j, ?_⟩
        simp only [serve, hrelease, Request.answer, hkey, hj, withKeypad_withKeypad]
      · refine ⟨m.state.keypad, ?_⟩
        simp [serve, hrelease, Request.answer, hkey, withKeypad]
    | releaseAll =>
      obtain ⟨j, hj⟩ := ih m.releaseAll stop
      refine ⟨j, ?_⟩
      rw [serve, Request.answer, hj]
      rfl
    | stop =>
      obtain ⟨j, hj⟩ := ih m true
      refine ⟨j, ?_⟩
      simp [serve, Request.answer, hj]
    | quit => exact ⟨m.state.keypad, by simp [serve, Request.answer, withKeypad]⟩

theorem serve_stop (m : Machine) (stop : Bool) (requests : List Request) :
    (m.serve stop requests).stop = (stop || (Request.answer requests).1) := by
  obtain ⟨k, hk⟩ := m.serve_eq stop requests
  rw [hk]

theorem serve_verdict (m : Machine) (stop : Bool) (requests : List Request) :
    (m.serve stop requests).verdict = (Request.answer requests).2 := by
  obtain ⟨k, hk⟩ := m.serve_eq stop requests
  rw [hk]

theorem serve_cycles (m : Machine) (stop : Bool) (requests : List Request) :
    (m.serve stop requests).machine.cycles = m.cycles := by
  obtain ⟨k, hk⟩ := m.serve_eq stop requests
  rw [hk]
  rfl

end Machine
end ChipEight
