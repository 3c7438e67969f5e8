/-
The picture that is shown, and the display behind it.

Three parts have to agree on it: the handlers that raise the flag of the display, the
machine that lowers it and hands out the grid, and the loop that shows the grid, some
turns and batches later, or in the next call. The trace of the calls knows the grid that
was shown last, so the agreement is a statement about traces: while the flag is down, the
display is that grid. A render phase that polled and went on leaves the flag down.

The other half is that nothing is shown without a reason. Behind a render the flag is
down, in front of the next one it is up, and no deed raises it but a batch with a cycle
that paints.
-/
import ChipEight.Proofs.Redraw
import ChipEight.Proofs.Schedule.Report

set_option autoImplicit false

namespace ChipEight

/-! ## Cycles that paint -/

/-- A cycle from this state paints: it succeeds and clears the display, or it succeeds
with a drawing that changes a pixel. -/
def State.Paints (s : State) : Prop :=
  ∃ t, s.step = .ok t ∧
    (Operation.clear.Covers (s.memory.word s.pc.toNat) ∨
      Operation.draw.Covers (s.memory.word s.pc.toNat) ∧
        ∃ x y, x < 64 ∧ y < 32 ∧ t.display.pixel x y ≠ s.display.pixel x y)

theorem State.paints_of_flag_raised {s t : State} (hs : s.step = .ok t)
    (hdown : s.displayChanged = false) (hup : t.displayChanged = true) : s.Paints := by
  obtain ⟨-, o, ho, -, rfl⟩ := exists_run_of_step (latch_clear_of_step_eq_ok hs) hs
  have hcovers := Operation.covers_of_ofWord? ho
  refine ⟨_, hs, ?_⟩
  rw [Operation.run_displayChanged] at hup
  cases o
  case clear => exact .inl hcovers
  case draw =>
    refine .inr ⟨hcovers, Grid.ne_iff.mp ?_⟩
    have htoggled :
        (s.displayChanged || (s.past.drawing (Operands.ofWord _)).toggled) = true := hup
    rw [hdown, Bool.false_or] at htoggled
    rw [Operation.run_display]
    exact Sprite.toggled_iff_ne.mp htoggled
  all_goals
    have hsame : s.displayChanged = true := hup
    rw [hdown] at hsame
    cases hsame

/-! ## Batches -/

namespace Machine

variable {m n : Machine} {count done : Nat} {fault : Option Fault} {notices : List Notice}

/-- A batch that leaves the flag down found it down and left the display alone. -/
theorem display_of_steps (h : m.steps count = (n, done, fault, notices))
    (hdown : n.state.displayChanged = false) :
    m.state.displayChanged = false ∧ n.state.display = m.state.display := by
  induction count generalizing m done notices with
  | zero =>
    cases h
    exact ⟨hdown, rfl⟩
  | succ count ih =>
    rcases hstep : m.step with ⟨next, _ | f, first⟩
    · rw [steps_succ_of_done hstep] at h
      rcases hrest : next.steps count with ⟨last, k, rest, more⟩
      rw [hrest] at h
      cases h
      obtain ⟨hnext, hdisplay⟩ := ih hrest
      cases stepped_of_step hstep with
      | done hf hs =>
        obtain ⟨-, o, -, -, rfl⟩ :=
          State.exists_run_of_step (State.latch_clear_of_step_eq_ok hs) hs
        obtain ⟨hbefore, hsame⟩ := Operation.display_of_flag_down hnext
        exact ⟨hbefore, hdisplay.trans hsame⟩
    · rw [steps_succ_of_fault hstep] at h
      cases h
      cases stepped_of_step hstep with
      | halted hf => exact ⟨hdown, rfl⟩
      | faulted hf hs => exact ⟨hdown, rfl⟩

/-- A batch that raises the flag has a cycle that paints. -/
theorem exists_paints_of_steps (h : m.steps count = (n, done, fault, notices))
    (hdown : m.state.displayChanged = false) (hup : n.state.displayChanged = true) :
    ∃ i < done, (m.steps i).1.state.Paints := by
  induction count generalizing m done notices with
  | zero =>
    cases h
    rw [hdown] at hup
    cases hup
  | succ count ih =>
    rcases hstep : m.step with ⟨next, _ | f, first⟩
    · rw [steps_succ_of_done hstep] at h
      rcases hrest : next.steps count with ⟨last, k, rest, more⟩
      rw [hrest] at h
      cases h
      rcases hflag : next.state.displayChanged
      · obtain ⟨i, hi, hpaints⟩ := ih hrest hflag
        refine ⟨i + 1, Nat.succ_lt_succ hi, ?_⟩
        rw [steps_succ_of_done hstep]
        exact hpaints
      · -- The first cycle has raised the flag already.
        cases stepped_of_step hstep with
        | done hf hs => exact ⟨0, Nat.succ_pos _, State.paints_of_flag_raised hs hdown hflag⟩
    · rw [steps_succ_of_fault hstep] at h
      cases h
      cases stepped_of_step hstep with
      | halted hf | faulted hf hs =>
        rw [show _ = false from hdown] at hup
        cases hup

theorem consumeDisplay_eq_some {picture : Grid} (h : m.consumeDisplay = (n, some picture)) :
    m.state.displayChanged = true ∧ picture = m.state.display ∧
      n = { m with state := { m.state with displayChanged := false } } := by
  unfold consumeDisplay at h
  split at h
  · rename_i hflag
    cases h
    exact ⟨hflag, rfl, rfl⟩
  · cases h

end Machine
/-! ## Traces -/

variable {T ε : Type}

def Deed.picture? : Deed T → Option Grid
  | .render picture => some picture
  | _ => none

/-- The picture shown last, or a blank one. -/
def lastPicture (trace : List (Deed T)) : Grid :=
  (trace.findSome? Deed.picture?).getD Grid.blank

/-- While the flag is down, the display is the picture shown last. -/
def Shown (trace : List (Deed T)) (m : Machine) : Prop :=
  m.state.displayChanged = false → m.state.display = lastPicture trace

variable {o : Surroundings T ε} {x y z : Machine × ε} {trace : List (Deed T)} {d : Deed T}

theorem Leads.shown (h : Leads o y d z) (hy : Shown trace y.1) : Shown (d :: trace) z.1 := by
  cases h with
  | @poll m outside stop =>
    obtain ⟨k, hk⟩ := m.serve_eq stop (o.poll m outside).1
    dsimp only
    rw [hk]
    exact hy
  | render hconsume =>
    obtain ⟨-, rfl, rfl⟩ := Machine.consumeDisplay_eq_some hconsume
    intro _
    rfl
  | batch hsteps =>
    intro hdown
    obtain ⟨hbefore, hdisplay⟩ := Machine.display_of_steps hsteps hdown
    exact hdisplay.trans (hy hbefore)
  | read | tick | sleep | report => exact hy

/-- **Along a trace** the picture shown last stays true of the display. -/
theorem Replay.shown (h : Replay o x trace y) (hx : Shown (T := T) [] x.1) : Shown trace y.1 := by
  induction h with
  | nil => exact hx
  | cons _ hd ih => exact hd.shown ih

/-- Only a batch raises the flag, and it does so by a cycle that paints. -/
theorem Leads.exists_paints (h : Leads o y d z) (hdown : y.1.state.displayChanged = false)
    (hup : z.1.state.displayChanged = true) :
    ∃ size done fault, d = .batch size done fault ∧
      ∃ i < done, (y.1.steps i).1.state.Paints := by
  cases h with
  | @poll m outside stop =>
    obtain ⟨k, hk⟩ := m.serve_eq stop (o.poll m outside).1
    dsimp only at hup
    rw [hk] at hup
    exact absurd hup (Bool.eq_false_iff.mp hdown)
  | render hconsume =>
    obtain ⟨-, -, rfl⟩ := Machine.consumeDisplay_eq_some hconsume
    cases hup
  | batch hsteps => exact ⟨_, _, _, rfl, Machine.exists_paints_of_steps hsteps hdown hup⟩
  | read | tick | sleep | report => exact absurd hup (Bool.eq_false_iff.mp hdown)

/-- Among the deeds `between`, which come behind those of `before`, there is a batch with
a cycle that paints. The machine in front of that batch is the one to which the deeds up
to there lead from `x`. -/
def PaintedIn (o : Surroundings T ε) (x : Machine × ε) (before between : List (Deed T)) : Prop :=
  ∃ after size done fault first y, between = after ++ .batch size done fault :: first ∧
    Replay o x (first ++ before) y ∧ ∃ i < done, (y.1.steps i).1.state.Paints

theorem Replay.paintedIn {before between : List (Deed T)} (hbefore : Replay o x before y)
    (h : Replay o y between z) (hdown : y.1.state.displayChanged = false)
    (hup : z.1.state.displayChanged = true) : PaintedIn o x before between := by
  -- The last deed has raised the flag, or the flag was up already in front of it.
  induction h with
  | nil =>
    rw [hdown] at hup
    cases hup
  | @cons first q z d hfirst hd ih =>
    rcases hflag : q.1.state.displayChanged
    · obtain ⟨size, done, fault, rfl, hpaints⟩ := hd.exists_paints hflag hup
      exact ⟨[], size, done, fault, first, q, rfl, append_iff.mpr ⟨y, hbefore, hfirst⟩, hpaints⟩
    · obtain ⟨after, size, done, fault, rest, r, rfl, hr, hpaints⟩ := ih hflag
      exact ⟨d :: after, size, done, fault, rest, r, rfl, hr, hpaints⟩

/-- **Between two renders** something is painted. -/
theorem Replay.paintedIn_of_renders {later between before : List (Deed T)} {g g' : Grid}
    (h : Replay o x (later ++ .render g' :: (between ++ .render g :: before)) z) :
    PaintedIn o x (.render g :: before) between := by
  obtain ⟨y', h, -⟩ := append_iff.mp h
  cases h with
  | cons h hsecond =>
    obtain ⟨y, hfirst, hbetween⟩ := append_iff.mp h
    refine hfirst.paintedIn hbetween ?_ ?_
    · cases hfirst with
      | cons _ hrender =>
        cases hrender with
        | render hconsume =>
          obtain ⟨-, -, rfl⟩ := Machine.consumeDisplay_eq_some hconsume
          rfl
    · cases hsecond with
      | render hconsume => exact (Machine.consumeDisplay_eq_some hconsume).1

/-- A machine that nothing was done with yet, with its program from a list or a file. -/
def Machine.Created (m : Machine) : Prop :=
  (∃ program seed notices, create program seed = .ok (m, notices)) ∨
    ∃ name contents seed notices, ofFile name contents seed = .ok (m, notices)

theorem Machine.Created.shown {m : Machine} (h : m.Created) : Shown (T := T) [] m := by
  rcases h with ⟨program, seed, notices, h⟩ | ⟨name, contents, seed, notices, h⟩
  · intro hdown
    exact follows_create h hdown
  · unfold ofFile at h
    obtain ⟨program, -, h⟩ := bind_eq_ok_iff.mp h
    obtain ⟨n, -, h⟩ := bind_eq_ok_iff.mp h
    obtain ⟨t, ht, rfl⟩ := load_eq_ok h
    intro _
    exact display_of_loadProgram ht

/-! ## Calls in a row -/

/-- A call of the loop: its plan and its limits. It may go on for ever, so it is given a
number of turns, and where these do not end it, it is looked at in the middle. -/
structure Call (T : Type) where
  plan : Plan T
  limits : Limits T
  turns : Nat

/-- Calls on one machine: what they lead to, and what was done in all of them, the latest
first. -/
structure Series (T ε : Type) where
  machine : Machine
  outside : ε
  trace : List (Deed T) := []

namespace Series

variable [Time T]

def call (o : Surroundings T ε) (s : Series T ε) (c : Call T) : Series T ε :=
  let r := (Run.whole o c.plan c.limits c.turns s.machine s.outside).run
  ⟨r.machine, r.outside, r.trace ++ s.trace⟩

def calls (o : Surroundings T ε) (s : Series T ε) (cs : List (Call T)) : Series T ε :=
  cs.foldl (call o) s

/-- The trace of all calls is what happened in them. -/
theorem replay_calls {s : Series T ε} (h : Replay o x s.trace (s.machine, s.outside))
    (cs : List (Call T)) :
    Replay o x (s.calls o cs).trace ((s.calls o cs).machine, (s.calls o cs).outside) := by
  induction cs generalizing s with
  | nil => exact h
  | cons c cs ih =>
    have hcall := Run.replayed_whole o c.plan c.limits c.turns s.machine s.outside
    exact ih (s := s.call o c) (Replay.append_iff.mpr ⟨_, h, hcall⟩)

/-- A render phase that polled and goes on leaves the flag down. -/
theorem flag_down_of_rendering {p : Plan T} {now : T} {q r : Run T ε}
    (h : Run.Rendering o p now q r true none) : r.machine.state.displayChanged = false := by
  cases h with
  | unchanged _ _ hflag => exact hflag
  | drawn => rfl

/-- **The picture follows the machine**, through any calls of the loop on a machine that
was just created. Behind every render phase that polled and was not left, the picture
shown last, which is blank if there was none, is the display. And between two renders
there is a cycle that clears the display or changes a pixel of it. -/
theorem picture_follows_display {m : Machine} (h : m.Created) (o : Surroundings T ε)
    (outside : ε) (cs : List (Call T)) :
    let s := calls o ⟨m, outside, []⟩ cs
    (∀ c : Call T,
      ∀ q ∈ (Run.begin o c.plan s.machine s.outside).stages o c.plan c.limits c.turns,
      ∀ r, (q.readClock o).2.renderPhase o c.plan (q.readClock o).1 = (r, true, none) →
        lastPicture (r.trace ++ s.trace) = r.machine.state.display) ∧
      ∀ later between before g g',
        s.trace = later ++ .render g' :: (between ++ .render g :: before) →
        PaintedIn o (m, outside) (.render g :: before) between := by
  intro s
  have hs : Replay o (m, outside) s.trace (s.machine, s.outside) :=
    replay_calls (s := ⟨m, outside, []⟩) .nil cs
  refine ⟨?_, ?_⟩
  · intro c q hq r hphase
    have hrender := Run.rendering_renderPhase o c.plan (q.readClock o).1 (q.readClock o).2
    rw [hphase] at hrender
    -- The call in progress is replayed behind the calls before it.
    have hloop := Run.looping_loop o c.plan c.limits c.turns
      (Run.begin o c.plan s.machine s.outside)
    have hstage := (hloop.replayed (Run.replayed_begin s.machine s.outside)).1 q hq
    have hcall := hrender.replayed (Run.replayed_readClock hstage)
    have hall : Replay o (m, outside) (r.trace ++ s.trace) (r.machine, r.outside) :=
      Replay.append_iff.mpr ⟨_, hs, hcall⟩
    exact (hall.shown h.shown (flag_down_of_rendering hrender)).symm
  · intro later between before g g' htrace
    rw [htrace] at hs
    exact hs.paintedIn_of_renders

omit [Time T] in
theorem drop_eq_render_cons {deeds : List (Deed T)} {i : Nat}
    (h : (deeds[i]?.bind Deed.picture?).isSome = true) :
    ∃ g, deeds.drop i = .render g :: deeds.drop (i + 1) := by
  rcases hd : deeds[i]? with _ | d
  · rw [hd] at h
    cases h
  · obtain ⟨hi, hget⟩ := List.getElem?_eq_some_iff.mp hd
    rw [hd] at h
    cases d with
    | render g => exact ⟨g, by rw [List.drop_eq_getElem_cons hi, hget]⟩
    | _ => cases h

/-- A glyph is drawn in a first call, and all of it but its last row once more in a
second one: both pictures are shown in the second call, and the last row stays. -/
theorem last_row_stays :
    ∃ m notices,
      Machine.create [0xA0, 0x50, 0xD0, 0x05, 0xD0, 0x04, 0x12, 0x06] 0 = .ok (m, notices) ∧
      let s := calls Run.steady ⟨m, 0, []⟩ [⟨Run.unitPlan, {}, 2⟩, ⟨Run.unitPlan, {}, 2⟩]
      let q := Run.begin Run.steady Run.unitPlan s.machine s.outside
      let r := ((q.readClock Run.steady).2.renderPhase Run.steady Run.unitPlan
        (q.readClock Run.steady).1).1
      lastPicture (r.trace ++ s.trace) = r.machine.state.display ∧
        r.machine.state.display ≠ Grid.blank ∧
        ∃ later between before g g',
          s.trace = later ++ .render g' :: (between ++ .render g :: before) ∧
          PaintedIn Run.steady (m, 0) (.render g :: before) between := by
  have h : Machine.create [0xA0, 0x50, 0xD0, 0x05, 0xD0, 0x04, 0x12, 0x06] 0 = .ok _ := rfl
  refine ⟨_, _, h, ?_⟩
  intro s q r
  -- What is computed of the two calls: the poll that comes next, one row of the display
  -- behind it, and that the third and the eighth of the latest deeds are pictures.
  have hrun : ((q.readClock Run.steady).2.renderPhase Run.steady Run.unitPlan
        (q.readClock Run.steady).1).2.1 = true ∧
      ((q.readClock Run.steady).2.renderPhase Run.steady Run.unitPlan
        (q.readClock Run.steady).1).2.2.isNone = true ∧
      r.machine.state.display[4] ≠ 0 ∧
      (s.trace[2]?.bind Deed.picture?).isSome = true ∧
      (s.trace[7]?.bind Deed.picture?).isSome = true := by
    decide +kernel +revert
  obtain ⟨hpolled, hgoes, hrow, hsecond, hfirst⟩ := hrun
  obtain ⟨hshown, hpainted⟩ := picture_follows_display (.inl ⟨_, _, _, h⟩) Run.steady 0
    [⟨Run.unitPlan, {}, 2⟩, ⟨Run.unitPlan, {}, 2⟩]
  refine ⟨hshown ⟨Run.unitPlan, {}, 1⟩ q List.mem_cons_self r ?phase, ?drawn, ?painted⟩
  case phase => exact Prod.ext rfl (Prod.ext hpolled (Option.isNone_iff_eq_none.mp hgoes))
  case drawn =>
    intro hblank
    rw [hblank] at hrow
    exact hrow rfl
  case painted =>
    obtain ⟨g', hg'⟩ := drop_eq_render_cons hsecond
    obtain ⟨g, hg⟩ := drop_eq_render_cons hfirst
    have htrace : s.trace = s.trace.take 2 ++
        .render g' :: ((s.trace.drop 3).take 4 ++ .render g :: s.trace.drop 8) := by
      rw [← hg, show 7 = 3 + 4 from rfl, ← List.drop_drop, List.take_append_drop, ← hg',
        List.take_append_drop]
    exact ⟨_, _, _, g, g', htrace, hpainted _ _ _ g g' htrace⟩

end Series
end ChipEight
