/-
What a history does to the state.

A history is a list of actions, each carried out or refused. Whatever an action is
called, it does one of a few things to the state: nothing, a fresh start, a cycle, a
tick, a change of the keypad, or lowering the flag of the display. `Change` lists
them with what is known when they happen, and an invariant of the state is proved
once for each of them and then holds after every history.
-/
import ChipEight.Machine
import ChipEight.Proofs.Success

set_option autoImplicit false

namespace ChipEight

/-- One action, as far as the state is concerned. A fresh start is a state of the
machine's key with a program in its memory. -/
inductive Change (key : RandomKey) (s : State) : State → Prop where
  | nothing : Change key s s
  | start {program : List UInt8} {t : State} :
      (State.fresh key).loadProgram program = .ok t → Change key s t
  | cycle {t : State} : s.step = .ok t → Change key s t
  | tick : Change key s s.tick
  | press {i : Int} {k : Keypad} : s.keypad.press i = .ok k → Change key s { s with keypad := k }
  | release {i : Int} {k : Keypad} :
      s.keypad.release i = .ok k → Change key s { s with keypad := k }
  | releaseAll : Change key s { s with keypad := Keypad.released }
  | consume : Change key s { s with displayChanged := false }

namespace Machine

/-! ## What the parts of a machine do -/

/-- A load that succeeds starts over with the program; what fails changes nothing. -/
theorem load_eq_ok {m n : Machine} {program : List UInt8} {source : String}
    {notices : List Notice} (h : m.load program source = .ok (n, notices)) :
    ∃ t, (State.fresh m.key).loadProgram program = .ok t ∧
      n = { m with program := program, state := t, fault := none, cycles := 0 } := by
  unfold load at h
  obtain ⟨t, ht, hn⟩ := bind_eq_ok_iff.mp h
  cases hn
  exact ⟨t, ht, rfl⟩

theorem change_load (m : Machine) (program : List UInt8) (source : String) :
    Change m.key m.state (m.replyOf (m.load program source)).machine.state := by
  rcases h : m.load program source with e | ⟨n, notices⟩
  · exact .nothing
  · obtain ⟨t, ht, rfl⟩ := load_eq_ok h
    exact .start ht

theorem perform_step_of_halted {m : Machine} {f : Fault} (h : m.fault = some f) :
    m.perform .step = ⟨m, .error (.fault f), []⟩ := by
  rw [perform, step, h]

theorem perform_step_of_ok {m : Machine} {t : State} (hf : m.fault = none)
    (hs : m.state.step = .ok t) :
    m.perform .step = ⟨{ m with state := t, cycles := m.cycles + 1 }, .ok .done, []⟩ := by
  rw [perform, step, hf, hs]

theorem perform_step_of_fault {m : Machine} {f : Fault} (hf : m.fault = none)
    (hs : m.state.step = .error f) :
    m.perform .step = ⟨{ m with fault := some f }, .error (.fault f),
      [.faulted f, .registers "ERROR" m.state]⟩ := by
  rw [perform, step, hf, hs]

theorem perform_consumeDisplay_of_changed {m : Machine} (h : m.state.displayChanged = true) :
    m.perform .consumeDisplay = ⟨{ m with state := { m.state with displayChanged := false } },
      .ok (.display (some m.state.display)), []⟩ := by
  rw [perform, consumeDisplay, if_pos h]

theorem perform_consumeDisplay_of_unchanged {m : Machine} (h : m.state.displayChanged = false) :
    m.perform .consumeDisplay = ⟨m, .ok (.display none), []⟩ := by
  rw [perform, consumeDisplay, h, if_neg Bool.false_ne_true]

/-- An action on the keys changes the keypad, or is refused and changes nothing. -/
theorem change_keypad (m : Machine) {keypad : Except Error Keypad}
    (h : ∀ k, keypad = .ok k → Change m.key m.state { m.state with keypad := k }) :
    Change m.key m.state
      (m.replyOf ((keypad.map m.withKeypad).map fun n => (n, []))).machine.state := by
  rcases keypad with e | k
  · exact .nothing
  · exact h k rfl

/-- Every action is one of the changes. -/
theorem change_perform (m : Machine) (a : Action) :
    Change m.key m.state (m.perform a).machine.state := by
  cases a with
  | load program source => exact m.change_load program source
  | reset => exact m.change_load m.program "reset"
  | step =>
    rcases hf : m.fault with _ | f
    · rcases hs : m.state.step with f | t
      · rw [perform_step_of_fault hf hs]
        exact .nothing
      · rw [perform_step_of_ok hf hs]
        exact .cycle hs
    · rw [perform_step_of_halted hf]
      exact .nothing
  | tick => exact .tick
  | press key => exact m.change_keypad fun k hk => .press hk
  | release key => exact m.change_keypad fun k hk => .release hk
  | releaseAll => exact .releaseAll
  | consumeDisplay =>
    rcases hflag : m.state.displayChanged
    · rw [perform_consumeDisplay_of_unchanged hflag]
      exact .nothing
    · rw [perform_consumeDisplay_of_changed hflag]
      exact .consume
  | readMemory start length => exact .nothing

/-! ## Along a history -/

theorem after_cons (m : Machine) (a : Action) (actions : List Action) :
    m.after (a :: actions) = (m.perform a).machine.after actions := rfl

theorem after_append (m : Machine) (actions more : List Action) :
    m.after (actions ++ more) = (m.after actions).after more :=
  List.foldl_append

theorem after_concat (m : Machine) (actions : List Action) (a : Action) :
    m.after (actions ++ [a]) = ((m.after actions).perform a).machine := by
  rw [after_append]
  rfl

/-- What every action keeps holds after every history. -/
theorem after_of_perform {P : Machine → Prop}
    (hperform : ∀ (m : Machine) (a : Action), P m → P (m.perform a).machine)
    (m : Machine) (h : P m) (actions : List Action) : P (m.after actions) := by
  -- The machine is general, because the rest of the history starts from another one.
  induction actions generalizing m with
  | nil => exact h
  | cons a actions ih =>
    rw [after_cons]
    exact ih _ (hperform m a h)

/-- What every change keeps holds of the state after every history. -/
theorem after_of_change {P : State → Prop}
    (hchange : ∀ (key : RandomKey) (s t : State), Change key s t → P s → P t)
    (m : Machine) (h : P m.state) (actions : List Action) : P (m.after actions).state :=
  after_of_perform (P := fun n => P n.state)
    (fun n a => hchange _ _ _ (n.change_perform a)) m h actions

/-- A machine without a program is in the fresh state of its seed's key. -/
theorem ofSeed_eq_ok {seed : Int} {m : Machine} (h : ofSeed seed = .ok m) :
    ∃ key, RandomKey.ofSeed seed = .ok key ∧
      m = { seed := seed, key := key, program := [], state := State.fresh key
            fault := none, cycles := 0 } := by
  unfold ofSeed at h
  obtain ⟨key, hkey, hm⟩ := bind_eq_ok_iff.mp h
  cases hm
  exact ⟨key, hkey, rfl⟩

/-- A machine that was just created is in the fresh state of its key, or in that state
with a program in its memory. -/
theorem state_of_create {program : List UInt8} {seed : Int} {m : Machine}
    {notices : List Notice} (h : create program seed = .ok (m, notices)) :
    m.state = State.fresh m.key ∨ (State.fresh m.key).loadProgram program = .ok m.state := by
  unfold create at h
  obtain ⟨n, hn, hm⟩ := bind_eq_ok_iff.mp h
  obtain ⟨key, -, rfl⟩ := ofSeed_eq_ok hn
  split at hm
  · cases hm
    exact .inl rfl
  · obtain ⟨t, ht, rfl⟩ := load_eq_ok hm
    exact .inr ht

/-- What holds of fresh states, and is kept by every change, holds of a machine when
it is created and after every history of it. -/
theorem after_create_of_change {P : State → Prop} (hfresh : ∀ key, P (State.fresh key))
    (hchange : ∀ (key : RandomKey) (s t : State), Change key s t → P s → P t)
    {program : List UInt8} {seed : Int} {m : Machine} {notices : List Notice}
    (h : create program seed = .ok (m, notices)) (actions : List Action) :
    P (m.after actions).state := by
  refine after_of_change hchange m ?_ actions
  rcases state_of_create h with heq | ht
  · rw [heq]
    exact hfresh m.key
  · exact hchange _ _ _ (.start ht) (hfresh m.key)

end Machine
end ChipEight
