/-
The keyboard and the keypad.

A poll goes through the events of the window in order and stops at the first one that
quits. What one event does is `Machine.feel`: a key of the keyboard that stands for a key
of the keypad presses or releases that key, and anything else does nothing. So a poll is
`feel` along the events it serves, and never fails: the map leads to keys of the keypad
only, and the screenshots of an open window are taken.

The map leads each key of the keypad back to one key of the keyboard. That is what keeps
the keys apart: whether a key is held is told by the events of the one key that stands for
it, by the last of them, whatever the others do meanwhile.
-/
import ChipEight.Proofs.Commuting
import ChipEight.Proofs.KeyHistory
import ChipEight.Proofs.Screenshots

set_option autoImplicit false

namespace ChipEight

/-! ## The map of the keys -/

section Map

variable {key key' : String} {k : Int} {i : Fin 16}

theorem keypadKey?_eq_some_iff : keypadKey? key = some k ↔ (key, k) ∈ keyMap := by
  constructor
  · intro h
    obtain ⟨p, hp, rfl⟩ := Option.map_eq_some_iff.mp h
    have hkey : p.1 = key := by simpa using List.find?_some hp
    rw [← hkey]
    exact List.mem_of_find?_eq_some hp
  · -- No key of the keyboard stands in the map twice.
    have hfirst : ∀ p ∈ keyMap, keypadKey? p.1 = some p.2 := by decide
    exact hfirst (key, k)

/-- The map leads to keys of the keypad only. -/
theorem exists_of_keypadKey? (h : keypadKey? key = some k) : ∃ i : Fin 16, k = i.val := by
  have hkeys : ∀ p ∈ keyMap, ∃ i : Fin 16, p.2 = i.val := by decide
  exact hkeys _ (keypadKey?_eq_some_iff.mp h)

/-- No two keys of the keyboard stand for the same key. -/
theorem eq_of_keypadKey? (h : keypadKey? key = some k) (h' : keypadKey? key' = some k) :
    key = key' := by
  have hkeys : ∀ p ∈ keyMap, ∀ q ∈ keyMap, p.2 = q.2 → p.1 = q.1 := by decide
  exact hkeys _ (keypadKey?_eq_some_iff.mp h) _ (keypadKey?_eq_some_iff.mp h') rfl

/-- **Every key of the keypad** has exactly one key of the keyboard. -/
theorem existsUnique_keypadKey? (i : Fin 16) : ∃! key, keypadKey? key = some (i.val : Int) := by
  have hkeys : ∀ i : Fin 16, ∃ p ∈ keyMap, p.2 = i.val := by decide
  obtain ⟨⟨key, k⟩, hmem, rfl⟩ := hkeys i
  have hkey := keypadKey?_eq_some_iff.mpr hmem
  exact ⟨key, hkey, fun key' hkey' => eq_of_keypadKey? hkey' hkey⟩

end Map

/-! ## Events -/

namespace WindowEvent

/-- The key of the keyboard that an event is about. -/
def key? : WindowEvent → Option String
  | keyDown key | keyUp key => some key
  | _ => none

/-- What an event does to the keys of the keypad. -/
def keyEvent? : WindowEvent → Option KeyEvent
  | keyDown key => (keypadKey? key).map .press
  | keyUp key => (keypadKey? key).map .release
  | _ => none

variable {e : WindowEvent} {events : List WindowEvent}

theorem quits_iff : e.quits = true ↔ e = .close ∨ e = .keyDown "escape" := by
  cases e <;> simp [quits]

theorem any_quits_iff :
    events.any quits = true ↔ .close ∈ events ∨ .keyDown "escape" ∈ events := by
  rw [List.any_eq_true]
  constructor
  · rintro ⟨e, he, hquits⟩
    rcases quits_iff.mp hquits with rfl | rfl
    · exact .inl he
    · exact .inr he
  · rintro (he | he)
    · exact ⟨_, he, quits_iff.mpr (.inl rfl)⟩
    · exact ⟨_, he, quits_iff.mpr (.inr rfl)⟩

/-- An event of no key that stands for one of the keypad does nothing to those. -/
theorem keyEvent?_eq_none (h : ∀ (key : String) (k : Int), keypadKey? key = some k →
    e ≠ .keyDown key ∧ e ≠ .keyUp key) : e.keyEvent? = none := by
  cases e with
  | close | other => rfl
  | keyDown key | keyUp key =>
    rcases hk : keypadKey? key with _ | k
    · simp [keyEvent?, hk]
    · simpa using h key k hk

end WindowEvent

/-- The events of a poll that are served: those before the first one that quits. -/
def served (events : List WindowEvent) : List WindowEvent :=
  events.takeWhile fun e => !e.quits

/-- The last event of a key of the keyboard. -/
def lastOf (key : String) (events : List WindowEvent) : Option WindowEvent :=
  (events.filter fun e => e.key? == some key).getLast?

/-- What the last event of a key is behind one more event. -/
theorem lastOf_concat_iff {key : String} {e : WindowEvent} {events : List WindowEvent} :
    lastOf key (events ++ [e]) = some (.keyDown key) ↔
      e = .keyDown key ∨ lastOf key events = some (.keyDown key) ∧ e ≠ .keyUp key := by
  rw [lastOf, lastOf, List.filter_append]
  by_cases h : e.key? = some key
  · cases e with
    | close | other => simp [WindowEvent.key?] at h
    | keyDown key' | keyUp key' =>
      obtain rfl : key' = key := by simpa [WindowEvent.key?] using h
      simp [WindowEvent.key?]
  · have hdown : e ≠ .keyDown key := by
      rintro rfl
      exact h rfl
    have hup : e ≠ .keyUp key := by
      rintro rfl
      exact h rfl
    simp [h, hdown, hup]

namespace Machine

variable {m : Machine} {e : WindowEvent} {key : String} {k : Int} {i : Fin 16}

/-- What an event makes of the machine. -/
def feel (m : Machine) (e : WindowEvent) : Machine :=
  match e.keyEvent? with
  | some k => m.withKeypad (m.state.keypad.next k)
  | none => m

theorem feel_of_keyEvent? {k : KeyEvent} (h : e.keyEvent? = some k) :
    m.feel e = m.withKeypad (m.state.keypad.next k) := by
  rw [feel, h]

theorem feel_of_none (h : e.keyEvent? = none) : m.feel e = m := by
  rw [feel, h]

/-- A key that stands for one of the keypad presses that one. -/
theorem press_of_keypadKey? (h : keypadKey? key = some k) :
    m.press k = .ok (m.feel (.keyDown key)) := by
  obtain ⟨i, rfl⟩ := exists_of_keypadKey? h
  have hevent : (WindowEvent.keyDown key).keyEvent? = some (.press i.val) := by
    simp [WindowEvent.keyEvent?, h]
  rw [press, Keypad.press_of_lt, feel_of_keyEvent? hevent, Keypad.next_press]
  rfl

theorem release_of_keypadKey? (h : keypadKey? key = some k) :
    m.release k = .ok (m.feel (.keyUp key)) := by
  obtain ⟨i, rfl⟩ := exists_of_keypadKey? h
  have hevent : (WindowEvent.keyUp key).keyEvent? = some (.release i.val) := by
    simp [WindowEvent.keyEvent?, h]
  rw [release, Keypad.release_of_lt, feel_of_keyEvent? hevent, Keypad.next_release]
  rfl

/-- **One key of the keyboard.** What an event does to its key of the keypad is told by the
event alone: the key goes down, or up, or stays. -/
theorem held_feel_iff (h : keypadKey? key = some (i.val : Int)) :
    (m.feel e).state.keypad.held.get i = true ↔
      e = .keyDown key ∨ m.state.keypad.held.get i = true ∧ e ≠ .keyUp key := by
  -- Another key of the keyboard stands for another key of the keypad, or for none.
  have hother : ∀ (key' : String) (j : Fin 16), keypadKey? key' = some (j.val : Int) →
      ((j.val : Int) = i.val ↔ key' = key) := by
    intro key' j hj
    constructor
    · intro hji
      rw [hji] at hj
      exact eq_of_keypadKey? hj h
    · rintro rfl
      simpa [h] using hj.symm
  have hnone : ∀ key', keypadKey? key' = none → key' ≠ key := by
    rintro key' hk rfl
    simp [h] at hk
  cases e with
  | close | other => simp [feel, WindowEvent.keyEvent?]
  | keyDown key' =>
    rcases hk : keypadKey? key' with _ | k
    · simp [feel, WindowEvent.keyEvent?, hk, hnone key' hk]
    · obtain ⟨j, rfl⟩ := exists_of_keypadKey? hk
      have hevent : (WindowEvent.keyDown key').keyEvent? = some (.press j.val) := by
        simp [WindowEvent.keyEvent?, hk]
      rw [feel_of_keyEvent? hevent]
      refine (Keypad.held_next_iff _ i _).trans ?_
      simp [KeyEvent.LetsGo, hother key' j hk]
  | keyUp key' =>
    rcases hk : keypadKey? key' with _ | k
    · simp [feel, WindowEvent.keyEvent?, hk, hnone key' hk]
    · obtain ⟨j, rfl⟩ := exists_of_keypadKey? hk
      have hevent : (WindowEvent.keyUp key').keyEvent? = some (.release j.val) := by
        simp [WindowEvent.keyEvent?, hk]
      rw [feel_of_keyEvent? hevent]
      refine (Keypad.held_next_iff _ i _).trans ?_
      simp [KeyEvent.LetsGo, hother key' j hk]

/-! ## A poll -/

theorem serve_requestsOf_cons (stop : Bool) (events : List WindowEvent) (h : e.quits = false) :
    m.serve stop (requestsOf (e :: events)) = (m.feel e).serve stop (requestsOf events) := by
  rw [requestsOf, List.filterMap_cons]
  cases e with
  | close => simp [WindowEvent.quits] at h
  | keyDown key =>
    have hkey : ¬ (key == "escape") = true := by simpa [WindowEvent.quits] using h
    rcases hk : keypadKey? key with _ | k
    · simp [WindowEvent.request?, hkey, hk, feel, WindowEvent.keyEvent?, requestsOf]
    · simp [WindowEvent.request?, hkey, hk, serve, press_of_keypadKey? hk, requestsOf]
  | keyUp key =>
    rcases hk : keypadKey? key with _ | k
    · simp [WindowEvent.request?, hk, feel, WindowEvent.keyEvent?, requestsOf]
    · simp [WindowEvent.request?, hk, serve, release_of_keypadKey? hk, requestsOf]
  | other => rfl

/-- **The events of a poll** are felt one after the other, up to the first one that quits,
and whether there is one is the verdict. -/
theorem serve_requestsOf (m : Machine) (stop : Bool) (events : List WindowEvent) :
    m.serve stop (requestsOf events) =
      ⟨(served events).foldl feel m, stop,
        if events.any WindowEvent.quits then .quit else .goOn⟩ := by
  induction events generalizing m with
  | nil => rfl
  | cons e events ih =>
    by_cases h : e.quits = true
    · -- Neither the event nor anything behind it is served.
      have hrequest : e.request? = some .quit := by
        rcases WindowEvent.quits_iff.mp h with rfl | rfl
        · rfl
        · rfl
      simp [requestsOf, hrequest, served, h, serve]
    · have hno : e.quits = false := by simpa using h
      rw [serve_requestsOf_cons stop events hno, ih]
      simp [served, hno]

end Machine

namespace Window

variable {w : Window}

/-- **A poll of an open window** succeeds: every screenshot is taken, the events before the
first one that quits are felt, and the run goes on if there is no such event. -/
theorem Opened.poll_eq (h : w.Opened) (formats : PictureFormats) (epoch : Int)
    (events : List WindowEvent) (m : Machine) :
    w.poll formats epoch events m =
      .ok ⟨(served events).foldl Machine.feel m, !events.any WindowEvent.quits,
        ((served events).filter WindowEvent.takesScreenshot).map fun _ =>
          ⟨screenshotName epoch, Frame.render w.lastDisplay w.scale w.colors⟩⟩ := by
  have hshots : ∀ es : List WindowEvent, (es.mapM fun _ => w.screenshot formats epoch) =
      .ok (es.map fun _ =>
        ⟨screenshotName epoch, Frame.render w.lastDisplay w.scale w.colors⟩) := by
    intro es
    rw [h.screenshot_eq]
    exact List.mapM_pure
  rw [poll, hshots, Machine.serve_requestsOf]
  rcases hany : events.any WindowEvent.quits
  · rfl
  · rfl

end Window

/-! ## Along a session -/

/-- What happens to a window and its machine. -/
inductive WindowDeed where
  | poll (epoch : Int) (events : List WindowEvent)
  | render (picture : Grid)
  /-- Something that the machine does in between. -/
  | act (a : Action)

/-- Nothing but a poll is to touch the keys. -/
def WindowDeed.SparesKeys : WindowDeed → Prop
  | act a => a.part? ≠ some .keys ∧ a.startsOver = false
  | _ => True

/-- The events that the polls of a session serve. -/
def applied (deeds : List WindowDeed) : List WindowEvent :=
  deeds.flatMap fun
    | .poll _ events => served events
    | _ => []

namespace Window

/-- The window and its machine after deeds in turn. -/
def session (w : Window) (formats : PictureFormats) (m : Machine) :
    List WindowDeed → Except Error (Window × Machine)
  | [] => .ok (w, m)
  | .poll epoch events :: deeds => do
    let p ← w.poll formats epoch events m
    w.session formats p.machine deeds
  | .render picture :: deeds => (w.render picture).session formats m deeds
  | .act a :: deeds => w.session formats (m.perform a).machine deeds

end Window

/-- A cycle leaves the keypad alone. -/
theorem State.keypad_step {s t : State} (h : s.step = .ok t) : t.keypad = s.keypad := by
  obtain ⟨-, o, -, -, rfl⟩ := exists_run_of_step (latch_clear_of_step_eq_ok h) h
  exact o.run_keypad s.past _

/-- And so does every other action that is not about keys and does not start over. -/
theorem Machine.keypad_perform (m : Machine) {a : Action} (hkeys : a.part? ≠ some .keys)
    (hstart : a.startsOver = false) : (m.perform a).machine.state.keypad = m.state.keypad := by
  cases a with
  | load program source => simp [Action.startsOver] at hstart
  | reset => simp [Action.startsOver] at hstart
  | step =>
    rcases hf : m.fault with _ | f
    · rcases hs : m.state.step with f | t
      · rw [perform_step_of_fault hf hs]
      · rw [perform_step_of_ok hf hs]
        exact State.keypad_step hs
    · rw [perform_step_of_halted hf]
  | tick => rfl
  | press key | release key | releaseAll => simp [Action.part?] at hkeys
  | consumeDisplay =>
    rcases hflag : m.state.displayChanged
    · rw [perform_consumeDisplay_of_unchanged hflag]
    · rw [perform_consumeDisplay_of_changed hflag]
  | readMemory start length => rfl

/-- Each key that the keyboard has is held if its last event was a press. -/
def Keypad.Mirrors (k : Keypad) (events : List WindowEvent) : Prop :=
  ∀ (key : String) (i : Fin 16), keypadKey? key = some (i.val : Int) →
    (k.held.get i = true ↔ lastOf key events = some (.keyDown key))

namespace Keypad.Mirrors

variable {m : Machine} {events : List WindowEvent}

theorem released : Keypad.released.Mirrors [] := by
  intro key i _
  simp [Keypad.released, lastOf, Vector.get]

theorem feel (h : m.state.keypad.Mirrors events) (e : WindowEvent) :
    (m.feel e).state.keypad.Mirrors (events ++ [e]) := by
  intro key i hkey
  rw [Machine.held_feel_iff hkey, h key i hkey, lastOf_concat_iff]

theorem foldl_feel (h : m.state.keypad.Mirrors events) (more : List WindowEvent) :
    (more.foldl Machine.feel m).state.keypad.Mirrors (events ++ more) := by
  induction more generalizing m events with
  | nil => simpa using h
  | cons e more ih =>
    rw [List.foldl_cons, List.append_cons]
    exact ih (h.feel e)

end Keypad.Mirrors

/-- **A session** of an open window succeeds, and the keypad mirrors the events that were
served. -/
theorem Window.Opened.session {w : Window} (hw : w.Opened) (formats : PictureFormats)
    {m : Machine} {deeds : List WindowDeed} (hdeeds : ∀ d ∈ deeds, d.SparesKeys) :
    ∃ v n, w.session formats m deeds = .ok (v, n) ∧ v.Opened ∧ ∀ events : List WindowEvent,
      m.state.keypad.Mirrors events → n.state.keypad.Mirrors (events ++ applied deeds) := by
  induction deeds generalizing w m with
  | nil => exact ⟨w, m, rfl, hw, by simp [applied]⟩
  | cons d deeds ih =>
    have hrest : ∀ d ∈ deeds, d.SparesKeys := fun d hd => hdeeds d (List.mem_cons_of_mem _ hd)
    cases d with
    | poll epoch events =>
      obtain ⟨v, n, hsession, hv, hmirrors⟩ :=
        ih (m := (served events).foldl Machine.feel m) hw hrest
      refine ⟨v, n, ?_, hv, ?_⟩
      · rw [Window.session, hw.poll_eq]
        exact hsession
      · -- The events of this poll are felt before those of the rest of the session.
        intro before hbefore
        have happlied : applied (.poll epoch events :: deeds) = served events ++ applied deeds :=
          rfl
        rw [happlied, ← List.append_assoc]
        exact hmirrors _ (hbefore.foldl_feel _)
    | render picture => exact ih (hw.render picture) hrest
    | act a =>
      obtain ⟨hkeys, hstart⟩ := hdeeds _ List.mem_cons_self
      obtain ⟨v, n, hsession, hv, hmirrors⟩ := ih (m := (m.perform a).machine) hw hrest
      refine ⟨v, n, hsession, hv, ?_⟩
      intro before hbefore
      rw [← m.keypad_perform hkeys hstart] at hbefore
      exact hmirrors before hbefore

/-- **The keyboard is faithful to the keypad.** Behind any polls of an open window, with
pictures shown and the machine at work between them, a poll succeeds. It ends the run if
and only if the window is closed or escape is pressed among its events, and the events
before the first of these, and only they, are felt, whatever formats the screenshots can be
written in. A key of the keyboard that stands for
one of the keypad presses and releases that one, and no other event does anything. So, if
no key was held at the start, a key of the keypad is held if and only if the last event
that was felt of its key of the keyboard was a press. The map leads to keys of the keypad,
to each from exactly one key of the keyboard. -/
theorem keyboard_faithful {scale : Int} {scheme : String} {w : Window}
    (hw : Window.create scale scheme = .ok w) (formats : PictureFormats) (m : Machine)
    {deeds : List WindowDeed} (hdeeds : ∀ d ∈ deeds, d.SparesKeys) :
    ∃ v n, w.session formats m deeds = .ok (v, n) ∧
      (∀ (epoch : Int) (events : List WindowEvent), ∃ p,
        v.poll formats epoch events n = .ok p ∧
        (p.running = false ↔ .close ∈ events ∨ .keyDown "escape" ∈ events) ∧
        p.machine = (served events).foldl Machine.feel n) ∧
      (∀ (q : Machine) (key : String) (k : Int), keypadKey? key = some k →
        q.press k = .ok (q.feel (.keyDown key)) ∧ q.release k = .ok (q.feel (.keyUp key))) ∧
      (∀ (q : Machine) (e : WindowEvent), (∀ (key : String) (k : Int),
        keypadKey? key = some k → e ≠ .keyDown key ∧ e ≠ .keyUp key) → q.feel e = q) ∧
      (m.state.keypad = Keypad.released → ∀ (key : String) (i : Fin 16),
        keypadKey? key = some (i.val : Int) →
        (n.state.keypad.held.get i = true ↔ lastOf key (applied deeds) = some (.keyDown key))) ∧
      (∀ i : Fin 16, ∃! key, keypadKey? key = some (i.val : Int)) ∧
      ∀ (key : String) (k : Int), keypadKey? key = some k → ∃ i : Fin 16, k = i.val := by
  obtain ⟨v, n, hsession, hv, hmirrors⟩ :=
    (Window.opened_of_create hw).session formats (m := m) hdeeds
  refine ⟨v, n, hsession, ?_, ?_, ?_, ?_, existsUnique_keypadKey?,
    fun key k => exists_of_keypadKey?⟩
  · intro epoch events
    refine ⟨_, hv.poll_eq formats epoch events n, ?_, rfl⟩
    rw [← WindowEvent.any_quits_iff, Bool.not_eq_false']
  · intro q key k hkey
    exact ⟨Machine.press_of_keypadKey? hkey, Machine.release_of_keypadKey? hkey⟩
  · intro q e hnone
    exact Machine.feel_of_none (WindowEvent.keyEvent?_eq_none hnone)
  · intro hreleased
    exact hmirrors [] (hreleased ▸ .released)

/-- Three polls, of which the second ends at escape and leaves the key "q" down, with a
picture and a cycle between them: the keys 1 and 4 of the keypad are held in the end, and
the key 0, released without a press, is not. -/
theorem keys_held_past_escape :
    let m := Machine.booted 0 ⟨0, 0⟩ [0x12, 0x00]
    let deeds : List WindowDeed :=
      [.poll 0 [.keyDown "q", .keyDown "1", .keyDown "f12", .other], .act .step,
        .render Grid.blank, .poll 5 [.keyUp "1", .keyDown "escape", .keyUp "q"],
        .poll 9 [.keyDown "1", .keyUp "x", .keyDown "p"]]
    ∃ w v n, Window.create 8 "classic" = .ok w ∧ w.session .onlyPng m deeds = .ok (v, n) ∧
      n.state.keypad.held.get 1 = true ∧ n.state.keypad.held.get 4 = true ∧
      n.state.keypad.held.get 0 = false := by
  intro m deeds
  have hw : Window.create 8 "classic" = .ok _ := rfl
  have hdeeds : ∀ d ∈ deeds, d.SparesKeys := by
    simp [deeds, WindowDeed.SparesKeys, Action.part?, Action.startsOver]
  obtain ⟨v, n, hsession, -, -, -, hheld, -⟩ := keyboard_faithful hw .onlyPng m hdeeds
  have hkey := hheld rfl
  refine ⟨_, v, n, hw, hsession, (hkey "1" 1 rfl).mpr rfl, (hkey "q" 4 rfl).mpr rfl, ?_⟩
  have hzero := mt (hkey "x" 0 rfl).mp (by decide)
  simpa using hzero

end ChipEight
