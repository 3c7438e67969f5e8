/-
Whoever shows the display takes it when it has changed, and keeps the picture.

The flag of the display says that it was written since it was last taken. So while
the flag is down the picture taken last should still be the display, and it is, as
long as the machine runs: clearing raises the flag, a drawing raises it when it
changes a pixel, and only taking the display lowers it.

A restart is the exception. Loading a program, or the same program again, puts a
fresh state in place of the old one: a blank display with the flag down. A picture
that was taken before and is not blank is then out of date, and nothing says so.
`Viewer` is what the owner of the picture knows, and the main statement says that
this is the only way to miss a redraw.
-/
import ChipEight.Proofs.Histories
import ChipEight.Proofs.Invariant
import ChipEight.Proofs.Sprites

set_option autoImplicit false

namespace ChipEight

/-- An operation that leaves the flag down found it down and left the display alone. -/
theorem Operation.display_of_flag_down {o : Operation} {s : State} {f : Operands}
    (h : (o.run s f).displayChanged = false) :
    s.displayChanged = false ∧ (o.run s f).display = s.display := by
  rw [run_displayChanged] at h
  rw [run_display]
  cases o
  case clear => exact absurd h Bool.noConfusion
  case draw =>
    obtain ⟨hflag, htoggled⟩ := Bool.or_eq_false_iff.mp h
    exact ⟨hflag, Sprite.display_of_not_toggled htoggled⟩
  all_goals exact ⟨h, rfl⟩

/-! ## The viewer -/

/-- What somebody knows who takes the display: the picture taken last, and whether a
program was started since. Before the first picture the screen is blank. -/
structure Viewer where
  picture : Grid := Grid.blank
  restarted : Bool := false

/-- The viewer after an action with its answer. -/
def Viewer.watch (v : Viewer) (a : Action) (answer : Except Error Answer) : Viewer :=
  match a, answer with
  | _, .ok (.display (some picture)) => ⟨picture, false⟩
  | .load _ _, .ok _ => { v with restarted := true }
  | .reset, .ok _ => { v with restarted := true }
  | _, _ => v

/-- The viewer of a history. -/
def Machine.viewer (m : Machine) (v : Viewer) : List Action → Viewer
  | [] => v
  | a :: actions =>
    (m.perform a).machine.viewer (v.watch a (m.perform a).answer) actions

/-- What a viewer can rely on: while the flag is down, the display is the picture taken
last, or blank if a program was started since. -/
def Viewer.Follows (v : Viewer) (s : State) : Prop :=
  s.displayChanged = false → s.display = if v.restarted then Grid.blank else v.picture

namespace Machine

variable {m : Machine} {v : Viewer}

/-- A program that was started finds a blank display and the flag down. -/
theorem display_of_loadProgram {key : RandomKey} {program : List UInt8} {t : State}
    (h : (State.fresh key).loadProgram program = .ok t) : t.display = Grid.blank := by
  obtain ⟨M, -, rfl⟩ := State.loadProgram_eq_ok h
  rfl

/-- A program that was started is known to the viewer; one that was refused changed
nothing. -/
theorem follows_load (h : v.Follows m.state) {a : Action} {program : List UInt8}
    {source : String} (ha : m.perform a = m.replyOf (m.load program source))
    (hdone : v.watch a (.ok .done) = { v with restarted := true })
    (herror : ∀ e, v.watch a (.error e) = v) :
    (v.watch a (m.perform a).answer).Follows (m.perform a).machine.state := by
  rw [ha]
  rcases hl : m.load program source with e | ⟨n, notices⟩
  · rw [replyOf, herror]
    exact h
  · obtain ⟨t, ht, rfl⟩ := load_eq_ok hl
    rw [replyOf, hdone]
    intro _
    exact display_of_loadProgram ht

/-- A cycle that succeeds and leaves the flag down changed no pixel; one that fails
left the whole state alone. -/
theorem follows_step (h : v.Follows m.state) (hclear : m.state.latch.code = noFault) :
    (v.watch .step (m.perform .step).answer).Follows (m.perform .step).machine.state := by
  rcases hf : m.fault with _ | f
  · rcases hs : m.state.step with f | t
    · rw [perform_step_of_fault hf hs]
      exact h
    · rw [perform_step_of_ok hf hs]
      obtain ⟨-, o, -, -, rfl⟩ := State.exists_run_of_step hclear hs
      intro hflag
      obtain ⟨hbefore, hsame⟩ := Operation.display_of_flag_down hflag
      exact hsame.trans (h hbefore)
  · rw [perform_step_of_halted hf]
    exact h

/-- Keys are neither the flag nor the display. -/
theorem follows_keypad (h : v.Follows m.state) {a : Action} {keypad : Except Error Keypad}
    (ha : m.perform a = m.replyOf ((keypad.map m.withKeypad).map fun n => (n, [])))
    (hdone : v.watch a (.ok .done) = v) (herror : ∀ e, v.watch a (.error e) = v) :
    (v.watch a (m.perform a).answer).Follows (m.perform a).machine.state := by
  rw [ha]
  rcases keypad with e | k
  · show (v.watch a (.error e)).Follows m.state
    rw [herror]
    exact h
  · show (v.watch a (.ok .done)).Follows (m.withKeypad k).state
    rw [hdone]
    exact h

/-- Taking the display lowers the flag and makes the display the picture. -/
theorem follows_consumeDisplay (h : v.Follows m.state) :
    (v.watch .consumeDisplay (m.perform .consumeDisplay).answer).Follows
      (m.perform .consumeDisplay).machine.state := by
  rcases hflag : m.state.displayChanged
  · rw [perform_consumeDisplay_of_unchanged hflag]
    exact h
  · rw [perform_consumeDisplay_of_changed hflag]
    intro _
    rfl

/-- **One action** keeps what the viewer relies on. -/
theorem follows_perform (h : v.Follows m.state) (hclear : m.state.latch.code = noFault)
    (a : Action) : (v.watch a (m.perform a).answer).Follows (m.perform a).machine.state := by
  cases a with
  | load program source => exact follows_load h rfl rfl fun e => rfl
  | reset => exact follows_load h rfl rfl fun e => rfl
  | step => exact follows_step h hclear
  | tick => exact h
  | press key => exact follows_keypad h rfl rfl fun e => rfl
  | release key => exact follows_keypad h rfl rfl fun e => rfl
  | releaseAll => exact h
  | consumeDisplay => exact follows_consumeDisplay h
  | readMemory start length =>
    show (v.watch _ ((m.readMemory start length).map .bytes)).Follows m.state
    rcases m.readMemory start length with e | bs
    · exact h
    · exact h

/-! ## Every history -/

/-- **Every history** keeps what the viewer relies on. -/
theorem follows_after (h : v.Follows m.state) (hsound : m.state.Sound) (actions : List Action) :
    (m.viewer v actions).Follows (m.after actions).state := by
  induction actions generalizing m v with
  | nil => exact h
  | cons a actions ih =>
    rw [viewer, after_cons]
    -- Only a cycle over a clear latch is known to run an operation, and every cycle is one.
    have hclear : m.state.latch.code = noFault := hsound.latch ▸ rfl
    exact ih (follows_perform h hclear a) (hsound.change (m.change_perform a))

/-- A machine that was just created shows a blank display, which is what a viewer
without a picture expects. -/
theorem follows_create {program : List UInt8} {seed : Int} {notices : List Notice}
    (h : create program seed = .ok (m, notices)) : ({} : Viewer).Follows m.state := by
  intro _
  rcases state_of_create h with heq | ht
  · rw [heq]
    rfl
  · exact display_of_loadProgram ht

/-- **A restart is the only way to miss a redraw.** While the flag is down, the display
is blank if a program was started since the last picture, and is that picture if not.
So it differs from the picture exactly when a program was started since and the
picture was not blank. -/
theorem redraw_missed_iff {program : List UInt8} {seed : Int} {notices : List Notice}
    (h : create program seed = .ok (m, notices)) (actions : List Action)
    (hflag : (m.after actions).state.displayChanged = false) :
    (m.after actions).state.display =
        (if (m.viewer {} actions).restarted then Grid.blank else (m.viewer {} actions).picture) ∧
      ((m.after actions).state.display ≠ (m.viewer {} actions).picture ↔
        (m.viewer {} actions).restarted = true ∧
          (m.viewer {} actions).picture ≠ Grid.blank) := by
  have hsound : m.state.Sound := sound_after h []
  have hdisplay := follows_after (follows_create h) hsound actions hflag
  refine ⟨hdisplay, ?_⟩
  rw [hdisplay]
  -- A blank display is missed exactly by a viewer whose picture is not blank.
  by_cases hstart : (m.viewer {} actions).restarted = true
  · rw [if_pos hstart]
    constructor
    · intro hne
      exact ⟨hstart, hne.symm⟩
    · rintro ⟨-, hne⟩
      exact hne.symm
  · rw [if_neg hstart]
    constructor
    · intro hne
      exact absurd rfl hne
    · rintro ⟨hon, -⟩
      exact absurd hon hstart

/-- A glyph is drawn, taken and wiped out by a restart, and the flag stays down. -/
theorem redraw_missed_after_reset :
    ∃ m notices, create [0xA0, 0x50, 0xD0, 0x05] 0 = .ok (m, notices) ∧
      (m.after [.step, .step, .consumeDisplay, .reset]).state.displayChanged = false ∧
      (m.after [.step, .step, .consumeDisplay, .reset]).state.display ≠
        (m.viewer {} [.step, .step, .consumeDisplay, .reset]).picture := by
  have h : create [0xA0, 0x50, 0xD0, 0x05] 0 = .ok _ := rfl
  refine ⟨_, _, h, ?flag, (redraw_missed_iff h _ ?flag).2.mpr ⟨?started, ?drawn⟩⟩
  case flag => decide +kernel
  case started => decide +kernel
  case drawn =>
    -- The first row of the glyph is enough to tell it from a blank display.
    intro hpicture
    have hrow := congrArg (fun g : Grid => g[0]) hpicture
    revert hrow
    decide +kernel

end Machine
end ChipEight
