/-
Cycles, and what happens between them.

The timers count down, keys go up and down and the display is taken when it pleases
somebody outside. A program cannot tell at which moment, unless it looks: the few words
that read or write what is changed from outside are listed in `Part.rivals`, and past any
other word such an event may be moved. It does not matter whether the cycle succeeds; a
fault is the same fault before and after the event.

For ticks this is carried from two neighbours to whole runs. All ticks may be brought to
the front, one exchange at a time, so a run that executes no timer word ends in the same
machine wherever its ticks fall.
-/
import ChipEight.Proofs.TimerIndependence
import ChipEight.Proofs.Transcripts

set_option autoImplicit false

namespace ChipEight

/-! ## What is changed from outside -/

/-- The parts of a state that change without a cycle. -/
inductive Part where
  | timers
  | keys
  | flag

/-- The operations that read or write a part. For the flag of the display these are the
ones that write the display, since who takes the flag takes the picture with it. -/
def Part.rivals : Part → List Operation
  | timers => [.getDelayTimer, .setDelayTimer, .setSoundTimer]
  | keys => [.skipIfKey, .skipIfNotKey, .waitForKey]
  | flag => [.clear, .draw]

def Part.Value : Part → Type
  | timers => UInt8 × UInt8
  | keys => Keypad
  | flag => Bool

namespace State

/-- What a part holds. -/
def part (s : State) : (p : Part) → p.Value
  | .timers => (s.delayTimer, s.soundTimer)
  | .keys => s.keypad
  | .flag => s.displayChanged

/-- The state with something else in a part. -/
def withPart (s : State) : (p : Part) → p.Value → State
  | .timers, (delay, sound) => { s with delayTimer := delay, soundTimer := sound }
  | .keys, k => { s with keypad := k }
  | .flag, changed => { s with displayChanged := changed }

variable (s : State) (p : Part) (v : p.Value)

@[simp] theorem withPart_memory : (s.withPart p v).memory = s.memory := by
  cases p <;> rfl

@[simp] theorem withPart_pc : (s.withPart p v).pc = s.pc := by
  cases p <;> rfl

@[simp] theorem withPart_latch : (s.withPart p v).latch = s.latch := by
  cases p <;> rfl

theorem withPart_part : s.withPart p (s.part p) = s := by
  cases p <;> rfl

theorem part_withPart : (s.withPart p v).part p = v := by
  cases p <;> rfl

theorem fetched_withPart : (s.withPart p v).fetched = s.fetched.withPart p v := by
  cases p <;> rfl

end State

namespace Operation

variable {o : Operation} {p : Part} (s : State) (f : Operands)

/-- No part that changes from outside has to do with what an operation meets. -/
theorem hazard?_withPart (o : Operation) (v : p.Value) :
    o.hazard? (s.withPart p v) f = o.hazard? s f := by
  cases p <;> cases o <;> rfl

theorem run_withTimers (h : o ∉ Part.timers.rivals) (delay sound : UInt8) :
    o.run { s with delayTimer := delay, soundTimer := sound } f =
      { o.run s f with delayTimer := delay, soundTimer := sound } := by
  cases o
  case getDelayTimer | setDelayTimer | setSoundTimer => exact absurd (by decide) h
  all_goals first | rfl | (rw [run, run, State.skipIf_eq, State.skipIf_eq]; rfl)

theorem run_withKeypad (h : o ∉ Part.keys.rivals) (k : Keypad) :
    o.run { s with keypad := k } f = { o.run s f with keypad := k } := by
  cases o
  case skipIfKey | skipIfNotKey | waitForKey => exact absurd (by decide) h
  all_goals first | rfl | (rw [run, run, State.skipIf_eq, State.skipIf_eq]; rfl)

theorem run_withFlag (h : o ∉ Part.flag.rivals) (changed : Bool) :
    o.run { s with displayChanged := changed } f =
      { o.run s f with displayChanged := changed } := by
  cases o
  case clear | draw => exact absurd (by decide) h
  all_goals first | rfl | (rw [run, run, State.skipIf_eq, State.skipIf_eq]; rfl)

/-- **An operation past a change from outside**: it carries the change along. -/
theorem run_withPart (h : o ∉ p.rivals) (v : p.Value) :
    o.run (s.withPart p v) f = (o.run s f).withPart p v := by
  cases p with
  | timers => exact run_withTimers s f h v.1 v.2
  | keys => exact run_withKeypad s f h v
  | flag => exact run_withFlag s f h v

theorem display_run (h : o ∉ Part.flag.rivals) : (o.run s f).display = s.display := by
  rw [run_display, displayAfter]
  · rintro rfl
    exact h (by decide)
  · rintro rfl
    exact h (by decide)

end Operation

/-! ## A cycle -/

namespace State

variable {s t : State} {p : Part} {w : UInt16}

theorem hazard?_withPart (s : State) (v : p.Value) (w : UInt16) :
    (s.withPart p v).hazard? w = s.hazard? w := by
  rw [hazard?, hazard?]
  rcases Operation.ofWord? w with _ | o
  · rfl
  · exact Operation.hazard?_withPart s _ o v

theorem dispatch_withPart (s : State) (h : ∀ o ∈ p.rivals, ¬ o.Covers w) (v : p.Value) :
    (s.withPart p v).dispatch w = (s.dispatch w).withPart p v := by
  unfold dispatch
  rcases ho : Operation.ofWord? w with _ | o
  · cases p <;> rfl
  · exact Operation.run_withPart s _ (fun hmem => h o hmem (Operation.covers_of_ofWord? ho)) v

theorem cycle_withPart_latch (s : State) (v : p.Value) :
    (s.withPart p v).cycle.1.latch = s.cycle.1.latch := by
  rw [cycle_eq, cycle_eq, withPart_memory, withPart_pc, fetched_withPart, dispatch_latch,
    dispatch_latch, hazard?_withPart, withPart_latch]

/-- Whether a cycle succeeds is settled without the parts. -/
theorem isOk_step_withPart (s : State) (v : p.Value) :
    (s.withPart p v).step.isOk = s.step.isOk := by
  rw [step_eq_commit, step_eq_commit, commit, commit, cycle_withPart_latch]
  rcases s.cycle.1.latch.cause? with _ | c
  all_goals dsimp only [Except.isOk, Except.toBool]

/-- **A cycle past a change from outside.** A cycle that faults does so either way; one
that succeeds carries the change along, if its word is no rival of the part. -/
theorem step_withPart (s : State) (v : p.Value)
    (h : ∀ t, s.step = .ok t → ∀ o ∈ p.rivals, ¬ o.Covers (s.memory.word s.pc.toNat)) :
    (s.withPart p v).step = s.step.map fun t => t.withPart p v := by
  have hword : (s.withPart p v).cycle.2 = s.cycle.2 := by
    rw [cycle_eq, cycle_eq, withPart_memory, withPart_pc]
  have hstep := step_eq_commit (s := s)
  rw [step_eq_commit, withPart_pc, hword, commit, cycle_withPart_latch]
  rw [commit] at hstep
  rcases hcause : s.cycle.1.latch.cause? with _ | c
  · rw [hcause] at hstep
    rw [hstep, cycle_eq, fetched_withPart, withPart_memory, withPart_pc,
      dispatch_withPart _ (h _ hstep), cycle_eq]
    rfl
  · rw [hcause] at hstep
    rw [hstep]
    rfl

/-- And it leaves the part alone, since it carries along what is there. -/
theorem part_step (hs : s.step = .ok t)
    (h : ∀ o ∈ p.rivals, ¬ o.Covers (s.memory.word s.pc.toNat)) : t.part p = s.part p := by
  have hsame := s.step_withPart (s.part p) fun _ _ => h
  rw [s.withPart_part p, hs] at hsame
  have ht : t = t.withPart p (s.part p) := Except.ok.inj hsame
  rw [ht]
  exact t.part_withPart p _

theorem display_step (hs : s.step = .ok t)
    (h : ∀ o ∈ Part.flag.rivals, ¬ o.Covers (s.memory.word s.pc.toNat)) :
    t.display = s.display := by
  obtain ⟨-, o, ho, -, rfl⟩ := exists_run_of_step (latch_clear_of_step_eq_ok hs) hs
  exact Operation.display_run s.past _ fun hmem => h o hmem (Operation.covers_of_ofWord? ho)

end State

/-! ## Two actions -/

/-- The part an action changes, for the actions that come between the cycles. -/
def Action.part? : Action → Option Part
  | .tick => some .timers
  | .press _ | .release _ | .releaseAll => some .keys
  | .consumeDisplay => some .flag
  | _ => none

namespace Machine

/-- The words of the cycles that a history completes. -/
def executed (m : Machine) : List Action → List UInt16
  | [] => []
  | a :: actions =>
    (if (m.event a).completes then [m.state.memory.word m.state.pc.toNat] else []) ++
      (m.perform a).machine.executed actions

/-- No word that a history executes is a rival of the part. -/
def Spares (m : Machine) (p : Part) (actions : List Action) : Prop :=
  ∀ w ∈ m.executed actions, ∀ o ∈ p.rivals, ¬ o.Covers w

/-- Two actions may be exchanged: in either order they lead to the same machine, and
each of them is answered as if the other had not come before it. -/
structure Commute (m : Machine) (a b : Action) : Prop where
  machine : m.after [a, b] = m.after [b, a]
  first : ((m.perform b).machine.perform a).answer = (m.perform a).answer
  second : ((m.perform a).machine.perform b).answer = (m.perform b).answer

/-- The machine with something else in a part of its state. -/
def withPart (m : Machine) (p : Part) (v : p.Value) : Machine :=
  { m with state := m.state.withPart p v }

variable {m : Machine} {p : Part} {a : Action}

theorem executed_step (m : Machine) : m.executed [.step] =
    if m.fault = none ∧ m.state.step.isOk then [m.state.memory.word m.state.pc.toNat] else [] := by
  rw [executed, event]
  rcases hf : m.fault with _ | f
  · rcases hs : m.state.step with f | t
    · rw [perform_step_of_fault hf hs]
      rfl
    · rw [perform_step_of_ok hf hs]
      rfl
  · rw [perform_step_of_halted hf]
    rfl

theorem mem_executed_step {t : State} (hf : m.fault = none) (hs : m.state.step = .ok t) :
    m.state.memory.word m.state.pc.toNat ∈ m.executed [.step] := by
  rw [executed_step, if_pos ⟨hf, by rw [hs]; rfl⟩]
  exact List.mem_singleton_self _

/-- A cycle takes no notice of a part that its word is no rival of: it goes on to the
same machine but for that part, with the same answer. -/
theorem perform_step_withPart (h : m.Spares p [.step]) (v : p.Value) :
    ((m.withPart p v).perform .step).machine = (m.perform .step).machine.withPart p v ∧
      ((m.withPart p v).perform .step).answer = (m.perform .step).answer := by
  rcases hf : m.fault with _ | f
  · have hv : (m.withPart p v).fault = none := hf
    have hstep := m.state.step_withPart v fun t hs => h _ (mem_executed_step hf hs)
    rcases hs : m.state.step with f | t
    · rw [hs] at hstep
      rw [perform_step_of_fault hf hs, perform_step_of_fault hv hstep]
      exact ⟨rfl, rfl⟩
    · rw [hs] at hstep
      rw [perform_step_of_ok hf hs, perform_step_of_ok hv hstep]
      exact ⟨rfl, rfl⟩
  · have hv : (m.withPart p v).fault = some f := hf
    rw [perform_step_of_halted hf, perform_step_of_halted hv]
    exact ⟨rfl, rfl⟩

/-- Behind such a cycle the part, and for the flag the display too, is as it was. -/
theorem part_perform_step (h : m.Spares p [.step]) :
    (m.perform .step).machine.state.part p = m.state.part p ∧
      (p = .flag → (m.perform .step).machine.state.display = m.state.display) := by
  rcases hf : m.fault with _ | f
  · rcases hs : m.state.step with f | t
    · rw [perform_step_of_fault hf hs]
      exact ⟨rfl, fun _ => rfl⟩
    · have hword := h _ (mem_executed_step hf hs)
      rw [perform_step_of_ok hf hs]
      refine ⟨State.part_step hs hword, ?_⟩
      rintro rfl
      exact State.display_step hs hword
  · rw [perform_step_of_halted hf]
    exact ⟨rfl, fun _ => rfl⟩

/-- What an action from outside does: it replaces its part by what it makes of it, and
its answer is read off the part, and for the flag off the display. -/
def ActsOn (a : Action) (p : Part) : Prop :=
  ∃ change : p.Value → p.Value,
    (∀ m : Machine, (m.perform a).machine = m.withPart p (change (m.state.part p))) ∧
    ∀ m n : Machine, n.state.part p = m.state.part p →
      (p = .flag → n.state.display = m.state.display) →
      (n.perform a).answer = (m.perform a).answer

theorem actsOn_keys (keypad : Keypad → Except Error Keypad)
    (ha : ∀ m : Machine, m.perform a =
      m.replyOf (((keypad m.state.keypad).map m.withKeypad).map fun n => (n, []))) :
    ActsOn a .keys := by
  refine ⟨fun k => (keypad k).toOption.getD k, ?_, ?_⟩
  · intro m
    show _ = m.withKeypad ((keypad m.state.keypad).toOption.getD m.state.keypad)
    rw [ha]
    rcases keypad m.state.keypad with e | k
    · rfl
    · rfl
  · intro m n hkeys _
    have hkeypad : n.state.keypad = m.state.keypad := hkeys
    rw [ha, ha, hkeypad]
    rcases keypad m.state.keypad with e | k
    · rfl
    · rfl

theorem actsOn_flag : ActsOn .consumeDisplay .flag := by
  refine ⟨fun _ => false, ?_, ?_⟩
  · intro m
    rcases hflag : m.state.displayChanged
    · -- The flag is down already, and lowering it changes nothing.
      rw [perform_consumeDisplay_of_unchanged hflag]
      show m = { m with state := { m.state with displayChanged := false } }
      rw [← hflag]
    · rw [perform_consumeDisplay_of_changed hflag]
      rfl
  · intro m n hpart hdisplay
    have hsame : n.state.displayChanged = m.state.displayChanged := hpart
    rcases hflag : m.state.displayChanged
    · rw [perform_consumeDisplay_of_unchanged hflag,
        perform_consumeDisplay_of_unchanged (hsame.trans hflag)]
    · rw [perform_consumeDisplay_of_changed hflag,
        perform_consumeDisplay_of_changed (hsame.trans hflag), hdisplay rfl]

theorem actsOn_of_part? (ha : a.part? = some p) : ActsOn a p := by
  cases a with
  | tick =>
    cases ha
    exact ⟨fun v => (if 0 < v.1 then v.1 - 1 else 0, if 0 < v.2 then v.2 - 1 else 0),
      fun _ => rfl, fun _ _ _ _ => rfl⟩
  | press key =>
    cases ha
    exact actsOn_keys (fun k => k.press key) fun _ => rfl
  | release key =>
    cases ha
    exact actsOn_keys (fun k => k.release key) fun _ => rfl
  | releaseAll =>
    cases ha
    exact actsOn_keys (fun _ => .ok Keypad.released) fun _ => rfl
  | consumeDisplay =>
    cases ha
    exact actsOn_flag
  | _ => cases ha

theorem commute_step (ha : a.part? = some p) (h : m.Spares p [.step]) : m.Commute a .step := by
  obtain ⟨change, hchange, hanswer⟩ := actsOn_of_part? ha
  obtain ⟨hpart, hdisplay⟩ := part_perform_step h
  obtain ⟨hmachine, hsame⟩ := perform_step_withPart h (change (m.state.part p))
  constructor
  · rw [after_cons, after_cons, after_cons, after_cons, hchange m, hmachine, hchange, hpart]
  · exact hanswer m _ hpart hdisplay
  · rw [hchange m]
    exact hsame

end Machine

/-! ## Ticks among other actions -/

def Action.isTick : Action → Bool
  | .tick => true
  | _ => false

/-- Does the action start the machine over, if it is carried out? -/
def Action.startsOver : Action → Bool
  | .load _ _ | .reset => true
  | _ => false

/-- The history with all its ticks first. -/
def ticksFirst (actions : List Action) : List Action :=
  List.replicate (actions.countP Action.isTick) .tick ++ actions.filter fun a => !a.isTick

namespace Machine

variable {m : Machine} {a : Action} {p : Part} {actions run other : List Action}

theorem spares_cons : m.Spares p (a :: actions) ↔
    m.Spares p [a] ∧ (m.perform a).machine.Spares p actions := by
  rw [Spares, Spares, Spares, executed, executed, executed, List.append_nil]
  exact List.forall_mem_append

/-- A tick does not change what an action executes: no cycle faults for a timer. -/
theorem executed_tick (m : Machine) (a : Action) : m.tick.executed [a] = m.executed [a] := by
  cases a with
  | step =>
    have hok : m.state.tick.step.isOk = m.state.step.isOk :=
      m.state.isOk_step_withPart (p := .timers) (m.state.tick.part .timers)
    rw [executed_step, executed_step]
    show (if m.fault = none ∧ m.state.tick.step.isOk then _ else _) = _
    rw [hok]
    rfl
  | _ => rfl

/-- Who changes another part than the timers does not meet a tick at all. -/
theorem perform_tick_of_part (hp : a.part? = some p) (hne : p ≠ .timers) :
    (m.tick.perform a).machine = (m.perform a).machine.tick := by
  obtain ⟨change, hchange, -⟩ := actsOn_of_part? hp
  rw [hchange, hchange]
  cases p with
  | timers => exact absurd rfl hne
  | keys | flag => rfl

/-- A tick may be exchanged with an action, unless that starts over or executes a timer
word. -/
theorem perform_tick (ha : a.startsOver = false) (h : m.Spares .timers [a]) :
    (m.tick.perform a).machine = (m.perform a).machine.tick := by
  cases a with
  | load | reset => cases ha
  | step => exact (commute_step (a := .tick) rfl h).machine
  | press | release | releaseAll => exact perform_tick_of_part (p := .keys) rfl nofun
  | consumeDisplay => exact perform_tick_of_part rfl nofun
  | tick | readMemory => rfl

/-! ## Runs that differ in where their ticks fall -/

/-- Of two runs either both execute a timer word, or neither does and they end alike. -/
def Alike (m : Machine) (run other : List Action) : Prop :=
  (m.Spares .timers run ↔ m.Spares .timers other) ∧
    (m.Spares .timers run → m.after run = m.after other)

theorem Alike.refl (m : Machine) (run : List Action) : m.Alike run run :=
  ⟨Iff.rfl, fun _ => rfl⟩

theorem Alike.trans {last : List Action} (h : m.Alike run other) (h' : m.Alike other last) :
    m.Alike run last :=
  ⟨h.1.trans h'.1, fun hrun => (h.2 hrun).trans (h'.2 (h.1.mp hrun))⟩

theorem Alike.cons (h : (m.perform a).machine.Alike run other) :
    m.Alike (a :: run) (a :: other) := by
  constructor
  · exact (spares_cons.trans (and_congr_right fun _ => h.1)).trans spares_cons.symm
  · intro hrun
    exact h.2 (spares_cons.mp hrun).2

/-- One exchange of a tick with its neighbour. -/
theorem alike_swap (ha : a.startsOver = false) (rest : List Action) :
    m.Alike (a :: .tick :: rest) (.tick :: a :: rest) := by
  have hfirst : m.tick.Spares .timers [a] ↔ m.Spares .timers [a] := by
    rw [Spares, Spares, executed_tick]
  have htick : ∀ (n : Machine) (actions : List Action),
      n.Spares .timers (.tick :: actions) ↔ n.tick.Spares .timers actions := fun _ _ => Iff.rfl
  constructor
  · calc
      m.Spares .timers (a :: .tick :: rest)
        ↔ m.Spares .timers [a] ∧ (m.perform a).machine.tick.Spares .timers rest := spares_cons
      _ ↔ m.Spares .timers [a] ∧ (m.tick.perform a).machine.Spares .timers rest :=
        and_congr_right fun h => by rw [perform_tick ha h]
      _ ↔ m.tick.Spares .timers (a :: rest) := by rw [← hfirst, ← spares_cons]
      _ ↔ m.Spares .timers (.tick :: a :: rest) := (htick m _).symm
  · intro hrun
    have h := (spares_cons.mp hrun).1
    rw [after_cons, after_cons, after_cons, after_cons]
    exact congrArg (fun n : Machine => n.after rest) (perform_tick ha h).symm

theorem alike_past_ticks (ha : a.startsOver = false) (count : Nat) (rest : List Action) :
    m.Alike (a :: (List.replicate count .tick ++ rest))
      (List.replicate count .tick ++ a :: rest) := by
  induction count generalizing m with
  | zero => exact .refl m _
  | succ count ih =>
    rw [List.replicate_succ, List.cons_append, List.cons_append]
    exact (alike_swap ha _).trans ih.cons

/-- **All ticks may be brought to the front.** -/
theorem alike_ticksFirst (hrun : ∀ a ∈ run, a.startsOver = false) :
    m.Alike run (ticksFirst run) := by
  induction run generalizing m with
  | nil => exact .refl m _
  | cons a run ih =>
    obtain ⟨ha, hrest⟩ := List.forall_mem_cons.mp hrun
    have hcons : m.Alike (a :: run) (a :: ticksFirst run) := (ih hrest).cons
    rcases htick : a.isTick
    · have hfirst : ticksFirst (a :: run) = List.replicate (run.countP Action.isTick) .tick ++
          a :: run.filter fun a => !a.isTick := by
        simp [ticksFirst, htick]
      rw [hfirst]
      exact hcons.trans (alike_past_ticks ha _ _)
    · have hfirst : ticksFirst (a :: run) = a :: ticksFirst run := by
        cases a with
        | tick => rw [ticksFirst, List.countP_cons_of_pos rfl, List.replicate_succ]; rfl
        | _ => cases htick
      rw [hfirst]
      exact hcons

theorem startsOver_of_filter_eq (hrun : ∀ a ∈ run, a.startsOver = false)
    (hothers : (other.filter fun a => !a.isTick) = run.filter fun a => !a.isTick) :
    ∀ a ∈ other, a.startsOver = false := by
  intro a ha
  rcases htick : a.isTick
  · have hmem : a ∈ run.filter fun a => !a.isTick := by
      rw [← hothers]
      exact List.mem_filter.mpr ⟨ha, by rw [htick]; rfl⟩
    exact hrun a (List.mem_filter.mp hmem).1
  · cases a with
    | tick => rfl
    | _ => cases htick

/-- **Events from outside commute with cycles.** A tick, a key that goes up or down, or
taking the display may be exchanged with a cycle, unless the cycle executes one of the
few words that read or write the part concerned: the machine is the same in the end, and
so are both answers, a fault of the cycle among them. Hence two runs of the same actions
with equally many ticks, neither of them starting over, end in the same machine wherever
the ticks fall, if the first executes no timer word. -/
theorem outside_events_commute (m : Machine) :
    (∀ (a : Action) (p : Part), a.part? = some p → m.Spares p [.step] → m.Commute a .step) ∧
      ∀ run other : List Action, (∀ a ∈ run, a.startsOver = false) →
        ((other.filter fun a => !a.isTick) = run.filter fun a => !a.isTick) →
        other.countP Action.isTick = run.countP Action.isTick →
        m.Spares .timers run → m.after other = m.after run := by
  refine ⟨fun a p => commute_step, ?_⟩
  intro run other hrun hothers hticks hspares
  have hsame : ticksFirst other = ticksFirst run := by
    rw [ticksFirst, ticksFirst, hothers, hticks]
  -- Both runs are compared with the one that has the ticks first.
  have hfront := alike_ticksFirst (m := m) hrun
  have hother := alike_ticksFirst (m := m) (startsOver_of_filter_eq hrun hothers)
  rw [hsame] at hother
  have hfirst := hfront.1.mp hspares
  exact (hother.2 (hother.1.mpr hfirst)).trans (hfront.2 hspares).symm

/-- Over a jump in place the display may be taken before or after, and three ticks may
all come first or be spread among the cycles. -/
theorem circling_ignores_what_comes_between :
    circling.Commute .consumeDisplay .step ∧
      circling.after [.tick, .tick, .tick, .step, .press 3, .step] =
        circling.after [.step, .tick, .press 3, .tick, .step, .tick] := by
  -- A jump is no rival of any part.
  have hjump : ∀ (p : Part), ∀ o ∈ p.rivals, ¬ o.Covers 0x1000 := by
    intro p o ho hcovers
    have hword : Operation.jump.Covers 0x1000 := rfl
    obtain rfl := Operation.eq_of_covers hcovers hword
    revert ho
    cases p <;> decide
  have hone : circling.executed [.step] = [0x1000] := by decide +kernel
  have htwo : circling.executed [.step, .tick, .press 3, .tick, .step, .tick] =
      [0x1000, 0x1000] := by decide +kernel
  constructor
  · refine (outside_events_commute circling).1 .consumeDisplay .flag rfl ?_
    intro w hw
    rw [hone, List.mem_singleton] at hw
    exact hw ▸ hjump .flag
  · refine (outside_events_commute circling).2 _ _ (by decide) rfl rfl ?_
    intro w hw
    rw [htwo] at hw
    have hword : w = 0x1000 := by simpa using hw
    exact hword ▸ hjump .timers

end Machine
end ChipEight
