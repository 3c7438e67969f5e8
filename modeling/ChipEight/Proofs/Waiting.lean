/-
Waiting for a key.

FX0A waits by going back: the fetch has moved the program counter past the word, and while
there is no latest press the word takes that back and writes VX to VX. So a cycle at the word
comes to nothing but a cycle more, and it can be repeated as often as one likes while other
things happen to the machine. What they change is neither the word nor the program counter nor
a register, and a machine that waits goes on waiting (`WaitsFor`).

The cycles of a history are named by the prefixes that end with them. A history is idle as
long as each of its cycles is taken without a latest press, and that depends on the keys
alone: a key that is let go of before the next cycle is never seen. In a history that is not
idle one cycle is the first to see a key, and it ends the wait.
-/
import ChipEight.Proofs.Halting
import ChipEight.Proofs.Keyboard

set_option autoImplicit false

namespace ChipEight

/-! ## The word -/

namespace State

variable {s : State} {x : Fin 16}

/-- A cycle at FX0A runs it behind the word, and meets nothing. -/
theorem step_waitForKey (hs : s.latch.code = noFault) (hpc : s.pc.toNat ≤ 0xFFE)
    (hword : s.memory.word s.pc.toNat = wordOf 0xF x 0x0 0xA) :
    s.step = .ok (s.past.waitForKey (Operands.ofWord (wordOf 0xF x 0x0 0xA))) := by
  have hcovers : Operation.waitForKey.Covers (wordOf 0xF x 0x0 0xA) :=
    ⟨first_wordOf .., byte_wordOf ..⟩
  have hnone : s.hazard? (wordOf 0xF x 0x0 0xA) = none := by
    rw [hazard?, Operation.ofWord?_of_covers hcovers]
    rfl
  rw [step_eq hs, if_neg (Nat.not_lt.mpr hpc), hword, hnone, dispatch_of_covers hcovers]
  rfl

/-- Without a latest press it comes back to where it was. -/
theorem waitForKey_of_neg (s : State) (h : s.keypad.lastPressed < 0) :
    s.past.waitForKey (Operands.ofWord (wordOf 0xF x 0x0 0xA)) = s := by
  have hpast : s.past.keypad.lastPressed < 0 := h
  -- The fetch and the word cancel in sixteen bits, whatever the program counter is.
  have hpc : s.past.pc - 2 = s.pc := UInt16.add_sub_cancel s.pc 2
  have hV : s.past.V.set x (s.past.reg x) = s.V := Vector.set_getElem_self x.isLt
  rw [waitForKey, decide_eq_true hpast, if_pos rfl, if_pos rfl, hpc, setReg,
    Operands.ofWord_wordOf_x, hV]
  rfl

/-- With one it takes the key. -/
theorem waitForKey_of_eq (s : State) {key : Fin 16} (h : s.keypad.lastPressed = key.val) :
    s.past.waitForKey (Operands.ofWord (wordOf 0xF x 0x0 0xA)) =
      { s with V := s.V.set x (UInt8.ofNat key), pc := s.pc + 2 } := by
  have hpast : s.past.keypad.lastPressed = key.val := h
  have hsome : ¬ s.past.keypad.lastPressed < 0 := by omega
  have hbyte : (s.past.keypad.lastPressed % 256).toNat = key.val := by omega
  rw [waitForKey, decide_eq_false hsome, if_neg Bool.false_ne_true, if_neg Bool.false_ne_true,
    hbyte, setReg, Operands.ofWord_wordOf_x]
  rfl

end State

/-- The action lets go of a key. -/
def Action.LetsGo (i : Fin 16) (a : Action) : Prop :=
  a = .release i.val ∨ a = .releaseAll

namespace Machine

variable {m : Machine} {x : Fin 16} {a : Action} {actions before : List Action}

/-! ## What a machine does that waits -/

/-- Its next cycle is completed and leaves everything as it is, but for the count of cycles. -/
def Stutters (m : Machine) : Prop :=
  m.perform .step = ⟨{ m with cycles := m.cycles + 1 }, .ok .done, []⟩

/-- A key is the latest press, and the next cycle puts it into VX and goes on behind the word,
and that is all. -/
structure Takes (m : Machine) (x key : Fin 16) : Prop where
  latest : m.state.keypad.lastPressed = key.val
  perform_eq : m.perform .step =
    ⟨{ m with
      state := { m.state with V := m.state.V.set x (UInt8.ofNat key), pc := m.state.pc + 2 }
      cycles := m.cycles + 1 }, .ok .done, []⟩

/-- The machine is not halted, and FX0A is the next word. -/
structure WaitsFor (m : Machine) (x : Fin 16) : Prop where
  fault : m.fault = none
  sound : m.state.Sound
  pc : m.state.pc.toNat ≤ 0xFFE
  word : m.state.memory.word m.state.pc.toNat = wordOf 0xF x 0x0 0xA

/-- A history cannot halt a machine at FX0A: there is no fault that it could have met. -/
theorem waitsFor_after {program : List UInt8} {seed : Int} {notices : List Notice}
    (h : create program seed = .ok (m, notices)) (past : List Action)
    (hpc : (m.after past).state.pc.toNat ≤ 0xFFE)
    (hword : (m.after past).state.memory.word (m.after past).state.pc.toNat =
      wordOf 0xF x 0x0 0xA) : (m.after past).WaitsFor x := by
  have hsound := sound_after h past
  refine ⟨?_, hsound, hpc, hword⟩
  rcases hf : (m.after past).fault with _ | f
  · rfl
  -- The fault would be met once more by a cycle from here, and that cycle is completed.
  · have hclear : (m.after past).state.latch.code = noFault := hsound.latch ▸ rfl
    have hmeets := (truthful_after h past f hf).meets
    rw [← State.step_eq_error_iff hclear, State.step_waitForKey hclear hpc hword] at hmeets
    cases hmeets

namespace WaitsFor

theorem stutters (h : m.WaitsFor x) (hlast : m.state.keypad.lastPressed < 0) : m.Stutters := by
  have hstep := State.step_waitForKey (h.sound.latch ▸ rfl) h.pc h.word
  rw [m.state.waitForKey_of_neg hlast] at hstep
  exact perform_step_of_ok h.fault hstep

theorem takes (h : m.WaitsFor x) (hlast : 0 ≤ m.state.keypad.lastPressed) :
    ∃ key, m.Takes x key := by
  rcases h.sound.keypad with hnone | ⟨i, hi, hlatest, -⟩
  · omega
  · have hkey : m.state.keypad.lastPressed = (⟨i, hi⟩ : Fin 16).val := hlatest
    have hstep := State.step_waitForKey (h.sound.latch ▸ rfl) h.pc h.word
    rw [m.state.waitForKey_of_eq hkey] at hstep
    exact ⟨⟨i, hi⟩, hkey, perform_step_of_ok h.fault hstep⟩

end WaitsFor

/-! ## Histories without a key -/

/-- What is neither a cycle nor a start changes nothing inside. -/
theorem Move.outside {e : Event} {n : Machine} (h : Move m e n)
    (hstart : e.action.startsOver = false) (hstep : e.action ≠ .step) :
    ∃ t, m.state.SameInside t ∧ n = { m with state := t } := by
  cases h with
  | load _ | reset _ => cases hstart
  | cycle _ _ | fault _ _ => exact absurd rfl hstep
  | pass _ hst => exact ⟨_, hst, rfl⟩

/-- The cycles of a history are taken without a latest press. -/
def Idles (m : Machine) (actions : List Action) : Prop :=
  ∀ before, before ++ [.step] <+: actions → (m.after before).state.keypad.lastPressed < 0

theorem idles_nil : m.Idles [] := by
  intro before hbegins
  simp at hbegins

theorem idles_concat_iff :
    m.Idles (actions ++ [a]) ↔
      m.Idles actions ∧ (a = .step → (m.after actions).state.keypad.lastPressed < 0) := by
  constructor
  · intro h
    refine ⟨fun before hbegins => h before (hbegins.trans (List.prefix_append ..)), ?_⟩
    rintro rfl
    exact h actions (List.prefix_refl _)
  · rintro ⟨hidle, hlast⟩ before hbegins
    rcases List.prefix_concat_iff.mp hbegins with heq | hbegins
    · obtain ⟨rfl, hstep⟩ := List.append_inj' heq rfl
      exact hlast (List.singleton_inj.mp hstep).symm
    · exact hidle before hbegins

theorem Idles.of_prefix (h : m.Idles actions) (hbegins : before <+: actions) : m.Idles before :=
  fun _ hcycle => h _ (hcycle.trans hbegins)

namespace WaitsFor

/-- **One action.** A machine that waits goes on waiting, and changes nothing inside. -/
theorem perform (h : m.WaitsFor x) (hstart : a.startsOver = false)
    (hidle : a = .step → m.state.keypad.lastPressed < 0) :
    (m.perform a).machine.WaitsFor x ∧ m.state.SameInside (m.perform a).machine.state := by
  by_cases hstep : a = .step
  · rw [hstep, h.stutters (hidle hstep)]
    exact ⟨⟨h.fault, h.sound, h.pc, h.word⟩, .refl _⟩
  · have hsound := h.sound.change (m.change_perform a)
    obtain ⟨t, hst, ht⟩ := (m.move_perform a).outside hstart hstep
    rw [ht] at hsound ⊢
    refine ⟨⟨h.fault, hsound, ?_, ?_⟩, hst⟩
    · rw [hst]
      exact h.pc
    · rw [hst]
      exact h.word

/-- **An idle history.** -/
theorem after (h : m.WaitsFor x) (hstarts : ∀ a ∈ actions, a.startsOver = false)
    (hidle : m.Idles actions) :
    (m.after actions).WaitsFor x ∧ m.state.SameInside (m.after actions).state := by
  induction actions using List.reverseRecOn with
  | nil => exact ⟨h, .refl _⟩
  | append_singleton actions a ih =>
    obtain ⟨hbefore, hlast⟩ := idles_concat_iff.mp hidle
    obtain ⟨hwaits, hsame⟩ := ih (fun b hb => hstarts b (List.mem_append_left _ hb)) hbefore
    obtain ⟨hnext, hmore⟩ := hwaits.perform (hstarts a (by simp)) hlast
    rw [after_concat]
    exact ⟨hnext, hsame.trans hmore⟩

/-- **Its cycles** come to nothing. -/
theorem stutters_behind (h : m.WaitsFor x) (hstarts : ∀ a ∈ actions, a.startsOver = false)
    (hidle : m.Idles actions) (hcycle : before ++ [.step] <+: actions) :
    (m.after before).Stutters ∧ m.state.SameInside (m.after before).state := by
  have hbefore : before <+: actions := (List.prefix_append ..).trans hcycle
  obtain ⟨hwaits, hsame⟩ :=
    h.after (fun a ha => hstarts a (hbefore.subset ha)) (hidle.of_prefix hbefore)
  exact ⟨hwaits.stutters (hidle before hcycle), hsame⟩

end WaitsFor

/-! ## Keys that a cycle sees -/

/-- An action on the keys is an event of the keypad. -/
theorem keypad_replyOf (m : Machine) (keypad : Except Error Keypad) :
    (m.replyOf ((keypad.map m.withKeypad).map fun n => (n, []))).machine.state.keypad =
      keypad.toOption.getD m.state.keypad := by
  rcases keypad with e | k
  · rfl
  · rfl

/-- A key is the latest press if it was pressed just now, or was so before and was not let go
of. -/
theorem latest_of_perform {i : Fin 16} (hstart : a.startsOver = false)
    (h : (m.perform a).machine.state.keypad.lastPressed = i.val) :
    a = .press i.val ∨ m.state.keypad.lastPressed = i.val ∧ ¬ a.LetsGo i := by
  cases a with
  | load program source => cases hstart
  | reset => cases hstart
  | press key =>
    have hkeypad : (m.perform (.press key)).machine.state.keypad =
        m.state.keypad.next (.press key) := m.keypad_replyOf _
    rw [hkeypad, Keypad.lastPressed_next_iff] at h
    rcases h with hpress | ⟨hlast, -⟩
    · cases hpress
      exact .inl rfl
    · exact .inr ⟨hlast, by simp [Action.LetsGo]⟩
  | release key =>
    have hkeypad : (m.perform (.release key)).machine.state.keypad =
        m.state.keypad.next (.release key) := m.keypad_replyOf _
    rw [hkeypad, Keypad.lastPressed_next_iff] at h
    rcases h with hpress | ⟨hlast, hkept⟩
    · cases hpress
    · refine .inr ⟨hlast, ?_⟩
      rintro (⟨⟨⟩⟩ | ⟨⟨⟩⟩)
      exact hkept (.inr (.inl rfl))
  | releaseAll =>
    have hnone : (m.perform .releaseAll).machine.state.keypad.lastPressed = -1 := rfl
    omega
  -- A cycle does not touch the keys either, not even one that executes a word about them.
  | step | tick | consumeDisplay | readMemory =>
    rw [m.keypad_perform (by simp [Action.part?]) rfl] at h
    exact .inr ⟨h, by simp [Action.LetsGo]⟩

/-- **The latest press** was pressed, and its key was not let go of since. -/
theorem latest_stands {i : Fin 16} (hnone : m.state.keypad.lastPressed < 0)
    (hstarts : ∀ a ∈ actions, a.startsOver = false)
    (hlatest : (m.after actions).state.keypad.lastPressed = i.val) :
    Stands (Action.LetsGo i) (.press i.val) actions := by
  induction actions using List.reverseRecOn with
  | nil =>
    have hneg : (m.after []).state.keypad.lastPressed < 0 := hnone
    omega
  | append_singleton actions a ih =>
    rw [after_concat] at hlatest
    rw [stands_concat_iff]
    refine (latest_of_perform (hstarts a (by simp)) hlatest).imp_right ?_
    rintro ⟨hbefore, hkept⟩
    exact ⟨ih (fun b hb => hstarts b (List.mem_append_left _ hb)) hbefore, hkept⟩

/-- A key that is pressed is let go of before the next cycle, if there is one. -/
def ReleasedBetween (actions : List Action) : Prop :=
  ∀ before key between, before ++ .press key :: (between ++ [.step]) <+: actions →
    .step ∉ between → .release key ∈ between ∨ .releaseAll ∈ between

/-- **Such a history is idle**: the key of a latest press at a cycle was not let go of between
its press and the first cycle behind it. -/
theorem idles_of_releasedBetween (hsound : m.state.Sound)
    (hnone : m.state.keypad.lastPressed < 0) (hstarts : ∀ a ∈ actions, a.startsOver = false)
    (h : ReleasedBetween actions) : m.Idles actions := by
  intro before hbegins
  have hkeypad := (after_of_change (fun _ _ _ hc hs => State.Sound.change hs hc) m hsound
    before).keypad
  rcases hkeypad with hlast | ⟨key, hkey, hlast, -⟩
  · omega
  have hbefore : ∀ a ∈ before, a.startsOver = false :=
    fun a ha => hstarts a (hbegins.subset (List.mem_append_left _ ha))
  obtain ⟨start, since, rfl, hkept⟩ := latest_stands (i := ⟨key, hkey⟩) hnone hbefore hlast
  -- The cycle in question need not be the first one behind the press.
  obtain ⟨between, rest, hsplit, hfirst⟩ := List.eq_append_cons_of_mem
    (show Action.step ∈ since ++ [.step] by simp)
  have hcycle : start ++ .press key :: (between ++ [.step]) <+: actions := by
    refine List.IsPrefix.trans ⟨rest, ?_⟩ hbegins
    simp [hsplit]
  have hbetween : between <+: since := by
    have hlong : between <+: since ++ [.step] := hsplit ▸ List.prefix_append ..
    rcases List.prefix_concat_iff.mp hlong with heq | hshort
    · exact absurd (heq ▸ by simp) hfirst
    · exact hshort
  rcases h start key between hcycle hfirst with hrelease | hrelease
  · exact absurd (.inl rfl) (hkept _ (hbetween.subset hrelease))
  · exact absurd (.inr rfl) (hkept _ (hbetween.subset hrelease))

/-! ## The cycle that ends the wait -/

/-- Of the cycles of a history, the one behind `before` is the first with a latest press. -/
structure WakesBehind (m : Machine) (actions before : List Action) : Prop where
  cycle : before ++ [.step] <+: actions
  idle : m.Idles before
  latest : 0 ≤ (m.after before).state.keypad.lastPressed

theorem exists_wakesBehind (h : ¬ m.Idles actions) : ∃ before, m.WakesBehind actions before := by
  induction actions using List.reverseRecOn with
  | nil => exact absurd idles_nil h
  -- Either the last action is the cycle in question, or there was one before it.
  | append_singleton actions a ih =>
    by_cases hidle : m.Idles actions
    · have hlast : a = .step ∧ 0 ≤ (m.after actions).state.keypad.lastPressed := by
        rw [idles_concat_iff] at h
        simpa [hidle] using h
      obtain ⟨rfl, hlatest⟩ := hlast
      exact ⟨actions, List.prefix_refl _, hidle, hlatest⟩
    · obtain ⟨before, hbefore⟩ := ih hidle
      exact ⟨before, hbefore.cycle.trans (List.prefix_append ..), hbefore.idle, hbefore.latest⟩

namespace WakesBehind

variable {other : List Action}

/-- Of two cycles the earlier one is a cycle of what is behind the later one. -/
theorem eq_of_earlier (h : m.WakesBehind actions before) (hother : m.WakesBehind actions other)
    (hle : before ++ [.step] <+: other ++ [.step]) : before = other := by
  rcases List.prefix_concat_iff.mp hle with heq | hbegins
  · exact List.append_cancel_right heq
  · exact absurd h.latest (Int.not_le.mpr (hother.idle before hbegins))

theorem unique (h : m.WakesBehind actions before) (hother : m.WakesBehind actions other) :
    before = other := by
  rcases List.prefix_or_prefix_of_prefix h.cycle hother.cycle with hle | hle
  · exact h.eq_of_earlier hother hle
  · exact (hother.eq_of_earlier h hle).symm

end WakesBehind

/-- Until the next cycle nothing changes inside. -/
theorem sameInside_after (m : Machine) (hstarts : ∀ a ∈ actions, a.startsOver = false)
    (hsteps : .step ∉ actions) : m.state.SameInside (m.after actions).state := by
  induction actions generalizing m with
  | nil => exact .refl _
  | cons a actions ih =>
    have hstep : a ≠ .step := fun h => hsteps (h ▸ List.mem_cons_self)
    obtain ⟨t, hst, ht⟩ := (m.move_perform a).outside (hstarts a List.mem_cons_self) hstep
    have hrest := ih (m.perform a).machine (fun b hb => hstarts b (List.mem_cons_of_mem a hb))
      fun h => hsteps (List.mem_cons_of_mem a h)
    rw [after_cons]
    rw [ht] at hrest ⊢
    exact hst.trans hrest

/-- **Waiting for a key comes to nothing until there is one.** A machine that a history has
brought to FX0A is not halted, and whatever is done then, but starting over: if every key that
is pressed is let go of before the next cycle, each cycle is completed and leaves the whole
state as it is, and nothing inside the state changes in between either. If a cycle is ever
taken with a latest press, there is a first one, and until then it is the same. That cycle
puts the key into VX, goes on behind the word and changes nothing else; and so it stays until
the next cycle, however long the key is held. -/
theorem waits_until_a_key {program : List UInt8} {seed : Int} {notices : List Notice}
    (h : create program seed = .ok (m, notices)) (past : List Action) {n : Machine}
    (hn : n = m.after past) (hpc : n.state.pc.toNat ≤ 0xFFE)
    (hword : n.state.memory.word n.state.pc.toNat = wordOf 0xF x 0x0 0xA)
    (hlast : n.state.keypad.lastPressed = -1)
    (hstarts : ∀ a ∈ actions, a.startsOver = false) :
    (ReleasedBetween actions → ∀ before, before ++ [.step] <+: actions →
      (n.after before).Stutters ∧ n.state.SameInside (n.after before).state) ∧
    (¬ n.Idles actions → ∃! before, n.WakesBehind actions before) ∧
    ∀ before, n.WakesBehind actions before →
      (∀ earlier, earlier ++ [.step] <+: before → (n.after earlier).Stutters) ∧
        n.state.SameInside (n.after before).state ∧
        (∃ key, (n.after before).Takes x key) ∧
        ∀ between, before ++ .step :: between <+: actions → .step ∉ between →
          (n.after (before ++ [.step])).state.SameInside
            (n.after (before ++ .step :: between)).state := by
  subst hn
  have hwaits : (m.after past).WaitsFor x := waitsFor_after h past hpc hword
  refine ⟨?_, ?_, ?_⟩
  · intro hreleased before hcycle
    exact hwaits.stutters_behind hstarts
      (idles_of_releasedBetween hwaits.sound (by omega) hstarts hreleased) hcycle
  · intro hnot
    obtain ⟨before, hwakes⟩ := exists_wakesBehind hnot
    exact ⟨before, hwakes, fun other hother => hother.unique hwakes⟩
  · intro before hwakes
    have hbefore : ∀ a ∈ before, a.startsOver = false :=
      fun a ha => hstarts a (hwakes.cycle.subset (List.mem_append_left _ ha))
    obtain ⟨hstill, hsame⟩ := hwaits.after hbefore hwakes.idle
    refine ⟨fun earlier hcycle => (hwaits.stutters_behind hbefore hwakes.idle hcycle).1, hsame,
      hstill.takes hwakes.latest, ?_⟩
    intro between hbetween hsteps
    have hafter : (m.after past).after (before ++ .step :: between) =
        ((m.after past).after (before ++ [.step])).after between := by
      rw [List.append_cons, after_append]
    rw [hafter]
    exact sameInside_after _ (fun a ha => hstarts a (hbetween.subset (by simp [ha]))) hsteps

/-- A key that is pressed and released goes unseen, and one that is held is taken. -/
theorem held_key_is_taken :
    ∃ m notices, create [0xF5, 0x0A] 0 = .ok (m, notices) ∧
      (m.after [.press 3, .release 3]).Stutters ∧
      (m.after [.press 7, .tick]).Takes 0x5 7 := by
  have h : create [0xF5, 0x0A] 0 = .ok _ := rfl
  have hreleased : ReleasedBetween [.press 3, .release 3, .step] := by
    intro before key between hbegins _
    rcases before with _ | ⟨a, before⟩
    · rcases between with _ | ⟨b, between⟩
      · simp at hbegins
      · simp at hbegins
        obtain ⟨rfl, rfl, -⟩ := hbegins
        exact .inl List.mem_cons_self
    · have hmem := (List.cons_prefix_cons.mp hbegins).2.subset
        (List.mem_append_right before List.mem_cons_self)
      simp at hmem
  have hidle : ∀ m : Machine, m.Idles [.press 7, .tick] := by
    intro m before hbegins
    have hmem := hbegins.subset (List.mem_append_right before List.mem_cons_self)
    simp at hmem
  have hstarts : ∀ a ∈ [Action.press 3, .release 3, .step], a.startsOver = false := by
    simp [Action.startsOver]
  have hstarts' : ∀ a ∈ [Action.press 7, .tick, .step], a.startsOver = false := by
    simp [Action.startsOver]
  obtain ⟨hquiet, -⟩ :=
    waits_until_a_key (x := 0x5) h [] rfl (by decide) (by decide +kernel) rfl hstarts
  obtain ⟨-, -, htaken⟩ :=
    waits_until_a_key (x := 0x5) h [] rfl (by decide) (by decide +kernel) rfl hstarts'
  obtain ⟨hstill, -⟩ := hquiet hreleased [.press 3, .release 3] (List.prefix_refl _)
  obtain ⟨-, -, ⟨key, hkey⟩, -⟩ :=
    htaken [.press 7, .tick] ⟨List.prefix_refl _, hidle _, by decide⟩
  have hseven : (7 : Int) = key.val := hkey.latest
  obtain rfl : key = 7 := by omega
  exact ⟨_, _, h, hstill, hkey⟩

end Machine
end ChipEight
