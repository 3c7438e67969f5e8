/-
The keypad as an account of its events.

Two rules keep a keypad. A key is held from its press to its release, each key for
itself. The latest press is one for all keys: every press takes it over, and it is gone
once that very key is released, whatever else is still held. Neither rule looks back, and
yet each of the two fields answers a question about all events so far: `HeldSince` and
`LatestSince` ask it of the list of events alone, without a keypad, and the main statement
is that the fields answer it.

Both questions have one form, `Stands`: an event came, and after it none that undoes it.
What one more event does to such a question is stated there once, and beside it what one
more event does to the field; the induction over the events then puts the two together.
-/
import ChipEight.Proofs.Invariant
import Mathlib.Data.List.Induction

set_option autoImplicit false

namespace ChipEight

/-! ## What stands at the end of a list of events -/

section Stands

variable {α : Type} {undoes : α → Prop} {e x : α} {events : List α}

/-- An event came, and after it none that undoes it. -/
def Stands (undoes : α → Prop) (e : α) (events : List α) : Prop :=
  ∃ before later, events = before ++ e :: later ∧ ∀ x ∈ later, ¬ undoes x

theorem not_stands_nil : ¬ Stands undoes e [] := by
  rintro ⟨before, later, hevents, -⟩
  simp at hevents

/-- One more event is the one that stands from now on, or does not undo it. -/
theorem stands_concat_iff :
    Stands undoes e (events ++ [x]) ↔ x = e ∨ Stands undoes e events ∧ ¬ undoes x := by
  constructor
  · rintro ⟨before, later, hevents, hlater⟩
    -- Behind the event that stands there is nothing, or a last event, which is the new one.
    rcases List.eq_nil_or_concat later with rfl | ⟨later, y, rfl⟩
    · have hlast := List.append_inj_right' hevents rfl
      simp at hlast
      exact .inl hlast
    · rw [List.concat_eq_append, ← List.cons_append, ← List.append_assoc] at hevents
      obtain ⟨rfl, hlast⟩ := List.append_inj' hevents rfl
      simp only [List.concat_eq_append, List.mem_append, List.mem_singleton] at hlater
      obtain rfl : x = y := by simpa using hlast
      refine .inr ⟨⟨before, later, rfl, ?_⟩, hlater x (.inr rfl)⟩
      intro z hz
      exact hlater z (.inl hz)
  · rintro (rfl | ⟨⟨before, later, rfl, hlater⟩, hx⟩)
    · exact ⟨events, [], rfl, by simp⟩
    · refine ⟨before, later ++ [x], by simp, ?_⟩
      intro z hz
      rcases List.mem_append.mp hz with hz | hz
      · exact hlater z hz
      · rw [List.mem_singleton.mp hz]
        exact hx

end Stands

/-! ## Events of the keys -/

/-- Something that happens to the keys. -/
inductive KeyEvent where
  | press (key : Int)
  | release (key : Int)
  | releaseAll
  deriving DecidableEq

namespace KeyEvent

/-- Does the event let go of a key? -/
def LetsGo (i : Fin 16) (e : KeyEvent) : Prop :=
  e = .release i.val ∨ e = .releaseAll

/-- Does the event end the time of a key as the latest press? A press of any of the
sixteen keys does, of the same key too; one that is refused does not. -/
def Supersedes (i : Fin 16) (e : KeyEvent) : Prop :=
  (∃ j : Fin 16, e = .press j.val) ∨ e.LetsGo i

end KeyEvent

/-- The key was pressed, and not let go of since. -/
def HeldSince (i : Fin 16) (events : List KeyEvent) : Prop :=
  Stands (KeyEvent.LetsGo i) (.press i.val) events

/-- The key was pressed last of all keys, and not let go of since. -/
def LatestSince (i : Fin 16) (events : List KeyEvent) : Prop :=
  Stands (KeyEvent.Supersedes i) (.press i.val) events

namespace Keypad

/-- What an event makes of the keypad, unless it is refused. -/
def feel (k : Keypad) : KeyEvent → Except Error Keypad
  | .press key => k.press key
  | .release key => k.release key
  | .releaseAll => .ok released

/-- The keypad after an event, the same as before when the event is refused. -/
def next (k : Keypad) (e : KeyEvent) : Keypad :=
  (k.feel e).toOption.getD k

/-- The keypad after events in turn. -/
def after (k : Keypad) (events : List KeyEvent) : Keypad :=
  events.foldl next k

theorem after_concat (k : Keypad) (events : List KeyEvent) (e : KeyEvent) :
    k.after (events ++ [e]) = (k.after events).next e := by
  rw [after, List.foldl_append]
  rfl

/-! ## One event -/

variable (k : Keypad) (i : Fin 16)

theorem checkKey_of_lt : checkKey i.val = .ok i.val := by
  have hkey : (0 : Int) ≤ i.val ∧ (i.val : Int) < 16 := by omega
  rw [checkKey, if_pos hkey, Int.toNat_natCast]

theorem checkKey_of_not {key : Int} (h : key < 0 ∨ 16 ≤ key) :
    checkKey key = .error (.keyOutOfRange key) := by
  rw [checkKey, if_neg (by omega)]

theorem press_of_lt : k.press i.val = .ok ⟨k.held.setIfInBounds i true, i.val⟩ := by
  rw [press, checkKey_of_lt]
  rfl

theorem release_of_lt : k.release i.val =
    .ok ⟨k.held.setIfInBounds i false,
      if k.lastPressed = i.val then -1 else k.lastPressed⟩ := by
  rw [release, checkKey_of_lt]
  rfl

theorem press_of_not {key : Int} (h : key < 0 ∨ 16 ≤ key) :
    k.press key = .error (.keyOutOfRange key) := by
  rw [press, checkKey_of_not h]
  rfl

theorem release_of_not {key : Int} (h : key < 0 ∨ 16 ≤ key) :
    k.release key = .error (.keyOutOfRange key) := by
  rw [release, checkKey_of_not h]
  rfl

@[simp] theorem next_press : k.next (.press i.val) = ⟨k.held.setIfInBounds i true, i.val⟩ := by
  rw [next, feel, press_of_lt]
  rfl

@[simp] theorem next_release : k.next (.release i.val) =
    ⟨k.held.setIfInBounds i false,
      if k.lastPressed = i.val then -1 else k.lastPressed⟩ := by
  rw [next, feel, release_of_lt]
  rfl

@[simp] theorem next_releaseAll : k.next .releaseAll = released := rfl

theorem next_press_of_not {key : Int} (h : key < 0 ∨ 16 ≤ key) : k.next (.press key) = k := by
  rw [next, feel, press_of_not k h]
  rfl

theorem next_release_of_not {key : Int} (h : key < 0 ∨ 16 ≤ key) :
    k.next (.release key) = k := by
  rw [next, feel, release_of_not k h]
  rfl

/-- An event names one of the sixteen keys, or lets go of all, or is refused. -/
theorem event_cases (e : KeyEvent) :
    (∃ j : Fin 16, e = .press j.val) ∨ (∃ j : Fin 16, e = .release j.val) ∨ e = .releaseAll ∨
      (∀ j : Fin 16, e ≠ .press j.val) ∧ (∀ j : Fin 16, ¬ e.LetsGo j) ∧
        ∀ k : Keypad, k.next e = k := by
  have hkey : ∀ key : Int, (∃ j : Fin 16, key = j.val) ∨ key < 0 ∨ 16 ≤ key := by
    intro key
    by_cases h : 0 ≤ key ∧ key < 16
    · exact .inl ⟨⟨key.toNat, by omega⟩, by simp; omega⟩
    · exact .inr (by omega)
  cases e with
  | press key =>
    rcases hkey key with ⟨j, rfl⟩ | hnone
    · exact .inl ⟨j, rfl⟩
    · refine .inr (.inr (.inr ⟨?_, ?_, fun k => k.next_press_of_not hnone⟩))
      · rintro j ⟨⟩
        omega
      · simp [KeyEvent.LetsGo]
  | release key =>
    rcases hkey key with ⟨j, rfl⟩ | hnone
    · exact .inr (.inl ⟨j, rfl⟩)
    · refine .inr (.inr (.inr ⟨nofun, ?_, fun k => k.next_release_of_not hnone⟩))
      rintro j (⟨⟨⟩⟩ | ⟨⟨⟩⟩)
      omega
  | releaseAll => exact .inr (.inr (.inl rfl))

/-- A key is held behind an event that presses it, or that does not let go of it. -/
theorem held_next_iff (e : KeyEvent) :
    (k.next e).held.get i = true ↔
      e = .press i.val ∨ k.held.get i = true ∧ ¬ e.LetsGo i := by
  change (k.next e).held[i] = true ↔ e = .press i.val ∨ k.held[i] = true ∧ ¬ e.LetsGo i
  rcases event_cases e with ⟨j, rfl⟩ | ⟨j, rfl⟩ | rfl | ⟨hpress, hgo, hsame⟩
  · rw [next_press, Fin.getElem_fin, Vector.getElem_setIfInBounds]
    by_cases h : j.val = i.val
    · simp [h]
    · have hne : (j.val : Int) ≠ i.val := by omega
      simp [h, hne, KeyEvent.LetsGo]
  · rw [next_release, Fin.getElem_fin, Vector.getElem_setIfInBounds]
    by_cases h : j.val = i.val
    · simp [h, KeyEvent.LetsGo]
    · have hne : (j.val : Int) ≠ i.val := by omega
      simp [h, hne, KeyEvent.LetsGo]
  · simp [released, KeyEvent.LetsGo]
  · simp [hpress i, hgo i, hsame]

/-- A key is the latest press behind an event that presses it, or that neither presses
another nor lets go of it. -/
theorem lastPressed_next_iff (e : KeyEvent) :
    (k.next e).lastPressed = i.val ↔
      e = .press i.val ∨ k.lastPressed = i.val ∧ ¬ e.Supersedes i := by
  rcases event_cases e with ⟨j, rfl⟩ | ⟨j, rfl⟩ | rfl | ⟨hpress, hgo, hsame⟩
  · have hpressed : KeyEvent.Supersedes i (.press j.val) := .inl ⟨j, rfl⟩
    simp [hpressed]
  · rw [next_release]
    by_cases h : k.lastPressed = j.val
    · simp [h, KeyEvent.Supersedes, KeyEvent.LetsGo]
    · have hother : k.lastPressed = i.val → (j.val : Int) ≠ i.val := by omega
      simpa [h, KeyEvent.Supersedes, KeyEvent.LetsGo] using hother
  · simp [released, KeyEvent.Supersedes, KeyEvent.LetsGo]
  · have hnone : ¬ e.Supersedes i := by
      rintro (⟨j, hj⟩ | hj)
      · exact hpress j hj
      · exact hgo i hj
    simp [hpress i, hnone, hsame]

/-! ## Events in turn -/

variable (events : List KeyEvent)

/-- **The held keys** are those that were pressed and not let go of since. -/
theorem held_after_iff : (released.after events).held.get i = true ↔ HeldSince i events := by
  -- From the right: one more event is one more step of the keypad.
  induction events using List.reverseRecOn with
  | nil => simp [HeldSince, not_stands_nil, after, released, Vector.get]
  | append_singleton events e ih =>
    rw [after_concat, held_next_iff, ih]
    exact stands_concat_iff.symm

/-- **The latest press** is the key that was pressed last of all, if it was not let go of
since. -/
theorem lastPressed_after_iff :
    (released.after events).lastPressed = i.val ↔ LatestSince i events := by
  induction events using List.reverseRecOn with
  | nil => simp [LatestSince, not_stands_nil, after, released]
  | append_singleton events e ih =>
    rw [after_concat, lastPressed_next_iff, ih]
    exact stands_concat_iff.symm

/-- What an event makes of a keypad that keeps its latest press among the held keys. -/
theorem Sound.next {k : Keypad} (h : k.Sound) (e : KeyEvent) : (k.next e).Sound := by
  rw [Keypad.next]
  rcases hfeel : k.feel e with error | n
  · exact h
  · cases e with
    | press key => exact .press hfeel
    | release key => exact h.release hfeel
    | releaseAll =>
      cases hfeel
      exact .inl rfl

theorem sound_after_events : (released.after events).Sound := by
  induction events using List.reverseRecOn with
  | nil => exact .inl rfl
  | append_singleton events e ih =>
    rw [after_concat]
    exact ih.next e

/-- **A keypad tells its history.** After any events, starting with no key held, a press
or a release of a number that is no key is refused and changes nothing, and one of a key
is carried out. A key is held if and only if it was pressed and not let go of since. It is
the latest press if and only if it was pressed last of all keys and not let go of since,
and there is no latest press if that is true of none. So releasing another key than the
latest press leaves that alone, releasing it leaves none, whatever else is held, and the
latest press is always held. -/
theorem keypad_tells_history {k : Keypad} (hk : k = released.after events) :
    (∀ key : Int, key < 0 ∨ 16 ≤ key →
        k.press key = .error (.keyOutOfRange key) ∧
          k.release key = .error (.keyOutOfRange key) ∧
          released.after (events ++ [.press key]) = k ∧
          released.after (events ++ [.release key]) = k) ∧
      (∀ i : Fin 16,
        k.press i.val = .ok (released.after (events ++ [.press i.val])) ∧
          k.release i.val = .ok (released.after (events ++ [.release i.val]))) ∧
      (∀ i : Fin 16, k.held.get i = true ↔ HeldSince i events) ∧
      (∀ i : Fin 16, k.lastPressed = i.val ↔ LatestSince i events) ∧
      ((∀ i : Fin 16, ¬ LatestSince i events) → k.lastPressed = -1) ∧
      (∀ key : Int, k.lastPressed ≠ key →
        (released.after (events ++ [.release key])).lastPressed = k.lastPressed) ∧
      (∀ i : Fin 16, k.lastPressed = i.val →
        (released.after (events ++ [.release i.val])).lastPressed = -1) ∧
      (0 ≤ k.lastPressed → ∃ i : Fin 16, k.lastPressed = i.val ∧ k.held.get i = true) := by
  subst hk
  have hsound := sound_after_events events
  simp only [after_concat]
  refine ⟨?_, ?_, fun i => held_after_iff i events, fun i => lastPressed_after_iff i events,
    ?_, ?_, ?_, ?_⟩
  · intro key hkey
    exact ⟨press_of_not _ hkey, release_of_not _ hkey, next_press_of_not _ hkey,
      next_release_of_not _ hkey⟩
  · intro i
    rw [next_press, next_release]
    exact ⟨press_of_lt _ i, release_of_lt _ i⟩
  · intro hnone
    rcases hsound with hlast | ⟨i, hi, hlast, -⟩
    · exact hlast
    · exact absurd ((lastPressed_after_iff ⟨i, hi⟩ events).mp hlast) (hnone ⟨i, hi⟩)
  · intro key hne
    rcases event_cases (.release key) with ⟨j, hj⟩ | ⟨j, hj⟩ | hj | ⟨-, -, hsame⟩
    · cases hj
    · cases hj
      rw [next_release]
      exact if_neg hne
    · cases hj
    · rw [hsame]
  · intro i hlast
    rw [next_release]
    exact if_pos hlast
  · intro hsome
    rcases hsound with hlast | ⟨i, hi, hlast, hheld⟩
    · omega
    · exact ⟨⟨i, hi⟩, hlast, hheld⟩

/-- Key 1 is pressed again behind key 2, a key that does not exist is tried, and key 2 is
released: key 1 is the latest press, and released it leaves none although key 4 is held. -/
theorem release_does_not_fall_back :
    (released.after [.press 4, .press 1, .press 2, .press 1, .press 16, .release 2]).lastPressed
        = 1 ∧
      (released.after ([.press 4, .press 1, .press 2, .press 1, .press 16, .release 2] ++
        [.release 1])).lastPressed = -1 ∧
      (released.after [.press 4, .press 1, .press 2, .press 1, .press 16, .release 2]).held[4]
        = true := by
  have hlast : (released.after
      [.press 4, .press 1, .press 2, .press 1, .press 16, .release 2]).lastPressed = 1 := by
    decide
  exact ⟨hlast, (keypad_tells_history _ rfl).2.2.2.2.2.2.1 1 hlast, by decide⟩

end Keypad
end ChipEight
