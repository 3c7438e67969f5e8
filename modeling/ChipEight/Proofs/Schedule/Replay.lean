/-
What a run did, replayed.

The trace lists the deeds of a run. `Leads` says what each of them does to the machine
and to the surroundings, and `Replay` carries out a whole trace, starting with a machine
and surroundings. The trace of a run leads from those it began with to those it has
reached, in every phase and whatever ends the run. So a deed that is counted in the trace
was done, and nothing that acts on the machine is missing from it.
-/
import ChipEight.Proofs.Schedule.Phases

set_option autoImplicit false

namespace ChipEight

variable {T ε : Type}

namespace Deed

def isTick : Deed T → Bool
  | .tick => true
  | _ => false

def isPoll : Deed T → Bool
  | .poll => true
  | _ => false

def isRender : Deed T → Bool
  | .render _ => true
  | _ => false

end Deed

/-- What a deed does to the machine and the surroundings. -/
inductive Leads (o : Surroundings T ε) : Machine × ε → Deed T → Machine × ε → Prop where
  | read {m : Machine} {outside : ε} :
      Leads o (m, outside) (.read (o.read outside).1) (m, (o.read outside).2)
  | poll {m : Machine} {outside : ε} (stop : Bool) :
      Leads o (m, outside) .poll
        ((m.serve stop (o.poll m outside).1).machine, (o.poll m outside).2)
  | render {m n : Machine} {outside : ε} {picture : Grid} :
      m.consumeDisplay = (n, some picture) →
      Leads o (m, outside) (.render picture) (n, o.render picture outside)
  | tick {m : Machine} {outside : ε} : Leads o (m, outside) .tick (m.tick, outside)
  | batch {m n : Machine} {outside : ε} {size : Int} {done : Nat} {fault : Option Fault}
      {notices : List Notice} :
      m.steps size.toNat = (n, done, fault, notices) →
      Leads o (m, outside) (.batch size done fault) (n, outside)
  | sleep {m : Machine} {outside : ε} {span : T} :
      Leads o (m, outside) (.sleep span) (m, o.sleep span outside)
  | report {m : Machine} {outside : ε} {n : Notice} :
      Leads o (m, outside) (.report n) (m, outside)

/-- A trace, the latest deed first, carried out. -/
inductive Replay (o : Surroundings T ε) (x : Machine × ε) :
    List (Deed T) → Machine × ε → Prop where
  | nil : Replay o x [] x
  | cons {trace : List (Deed T)} {y z : Machine × ε} {d : Deed T} :
      Replay o x trace y → Leads o y d z → Replay o x (d :: trace) z

namespace Replay

variable {o : Surroundings T ε} {x : Machine × ε} {trace : List (Deed T)} {m : Machine}
  {outside : ε}

/-- A trace is carried out in two parts, the earlier one behind the later one. -/
theorem append_iff {later before : List (Deed T)} {z : Machine × ε} :
    Replay o x (later ++ before) z ↔ ∃ y, Replay o x before y ∧ Replay o y later z := by
  induction later generalizing z with
  | nil =>
    constructor
    · intro h
      exact ⟨z, h, .nil⟩
    · rintro ⟨y, h, hlater⟩
      cases hlater
      exact h
  | cons d later ih =>
    constructor
    · intro h
      cases h with
      | cons hrest hd =>
        obtain ⟨y, h, hlater⟩ := ih.mp hrest
        exact ⟨y, h, hlater.cons hd⟩
    · rintro ⟨y, h, hlater⟩
      cases hlater with
      | cons hrest hd => exact (ih.mpr ⟨y, h, hrest⟩).cons hd

theorem reported {y : Machine × ε} (h : Replay o x trace y) (notices : List Notice) :
    Replay o x (notices.map .report ++ trace) y := by
  induction notices with
  | nil => exact h
  | cons n notices ih => exact ih.cons .report

/-- The ticks of a catch-up are carried out one by one. -/
theorem ticked (h : Replay o x trace (m, outside)) (ticks : Nat) :
    Replay o x (List.replicate ticks .tick ++ trace) (Run.tickTimes m ticks, outside) := by
  -- The first tick is the oldest of them, so it joins the trace on which the others stand.
  induction ticks generalizing m trace with
  | zero => exact h
  | succ ticks ih =>
    have hfirst : Replay o x (.tick :: trace) (m.tick, outside) := h.cons .tick
    have hrest := ih hfirst
    rw [List.append_cons, ← List.replicate_succ'] at hrest
    exact hrest

end Replay

namespace Run

variable {o : Surroundings T ε} {p : Plan T} {x : Machine × ε} {r s : Run T ε}

/-- The trace of a run leads from a machine and surroundings to those of the run. -/
def Replayed (o : Surroundings T ε) (x : Machine × ε) (r : Run T ε) : Prop :=
  Replay o x r.trace (r.machine, r.outside)

/-! ## The parts of a turn -/

theorem replayed_begin (m : Machine) (outside : ε) :
    Replayed o (m, outside) (begin o p m outside) := by
  have hread : Replay o (m, outside) [.read (o.read outside).1] (m, (o.read outside).2) :=
    Replay.nil.cons .read
  exact hread.cons .report

theorem replayed_readClock (h : Replayed o x r) : Replayed o x (r.readClock o).2 :=
  h.cons .read

theorem replayed_batched {size : Int} {n : Machine} {done : Nat} {fault : Option Fault}
    {notices : List Notice} (h : Replayed o x r)
    (hsteps : r.machine.steps size.toNat = (n, done, fault, notices)) :
    Replayed o x (r.batched size n done fault notices) := by
  have hbatch : Replay o x (.batch size done fault :: r.trace) (n, r.outside) :=
    h.cons (.batch hsteps)
  rw [Replayed, trace_batched]
  exact hbatch.reported notices.reverse

theorem replayed_warned (rest : Int) (h : Replayed o x r) :
    Replayed o x (r.warned p rest) := by
  unfold warned
  split
  · exact h.cons .report
  · exact h

theorem replayed_polled (now : T) (h : Replayed o x r) : Replayed o x (r.polled o now) :=
  h.cons (.poll r.stopped)

theorem replayed_shown (h : Replayed o x r) (hflag : r.machine.state.displayChanged = true) :
    Replayed o x (r.shown o) := by
  refine h.cons (.render ?_)
  rw [Machine.consumeDisplay, if_pos hflag]
  rfl

variable [Time T] {l : Limits T} {now : T}

theorem Rendering.replayed {drew : Bool} {exit : Option Exit}
    (h : Rendering o p now r s drew exit) (hr : Replayed o x r) : Replayed o x s := by
  cases h with
  | early => exact hr
  | failed | unchanged => exact replayed_polled now hr
  | quit =>
    have hpoll := replayed_polled now hr
    exact hpoll.cons .report
  | drawn _ _ hflag => exact replayed_shown (replayed_polled now hr) hflag

theorem replayed_timerPhase (h : Replayed o x r) : Replayed o x (r.timerPhase p now).1 := by
  have hticks := Replay.ticked h (dueTicks p.timerPeriod now r.lastTimer maxTicks).1
  rw [Replayed, timerPhase, trace_log, List.reverse_replicate]
  exact hticks

theorem Settled.replayed {due size : Int} (h : Settled p now due size r s)
    (hr : Replayed o x r) : Replayed o x s := by
  cases h with
  | dropped =>
    have hwarned := replayed_warned (p := p) (due - size) hr
    exact hwarned
  | advanced => exact hr

theorem Executing.replayed {busy : Bool} {exit : Option Exit}
    (h : Executing o p l now busy r s exit) (hr : Replayed o x r) : Replayed o x s := by
  cases h with
  | uncounted | nothing => exact hr
  | rested =>
    unfold rest
    split
    · exact hr.cons .sleep
    · exact hr
  | fault _ _ hsteps => exact replayed_batched hr hsteps
  | unsettled _ _ hbatch _ =>
    obtain ⟨hsteps⟩ := hbatch
    exact replayed_batched hr hsteps
  | limit _ _ hbatch hsettled _ _ | goesOn _ _ hbatch hsettled _ =>
    obtain ⟨hsteps⟩ := hbatch
    exact hsettled.replayed (replayed_batched hr hsteps)

/-! ## The run -/

theorem Turning.replayed {exit : Option Exit} (h : Turning o p l r s exit)
    (hr : Replayed o x r) : Replayed o x s := by
  have hread := replayed_readClock hr
  cases h with
  | timeUp => exact hread
  | left _ hrender => exact hrender.replayed hread
  | through _ hrender hexec => exact hexec.replayed (replayed_timerPhase (hrender.replayed hread))

/-- What is replayed in front of a loop is replayed in front of every turn of it, and
behind the last. -/
theorem Looping.replayed {turns : Nat} {before : List (Run T ε)} {exit : Option Exit}
    (h : Looping o p l turns r before s exit) (hr : Replayed o x r) :
    (∀ q ∈ before, Replayed o x q) ∧ Replayed o x s := by
  have hturn : ∀ s t exit, Replayed o x s → Turning o p l s t exit → Replayed o x t := by
    intro s t exit hs hturning
    exact hturning.replayed hs
  exact h.invariant hturn hr

/-- **The trace is what happened**: it leads from the machine and the surroundings of the
beginning to those that the loop leaves. -/
theorem replayed_loop {turns : Nat} {m : Machine} {outside : ε} {exit : Option Exit}
    (h : (begin o p m outside).loop o p l turns = (r, exit)) : Replayed o (m, outside) r :=
  ((looping_of_loop h).replayed (replayed_begin m outside)).2

/-- And to those behind the report, if there is one. -/
theorem replayed_whole (o : Surroundings T ε) (p : Plan T) (l : Limits T) (turns : Nat)
    (m : Machine) (outside : ε) :
    Replayed o (m, outside) (whole o p l turns m outside).run := by
  unfold whole
  rcases hloop : (begin o p m outside).loop o p l turns with ⟨s, _ | exit⟩
  · exact replayed_loop hloop
  · cases exit with
    | failed e => exact replayed_loop hloop
    | timeUp | quit | stopped | instructionLimit | fault =>
      exact replayed_readClock (replayed_loop hloop)

end Run
end ChipEight
