/-
What a headless run comes to.

`Machine.headlessLoop` counts its instructions and its ticks while it goes, stops at the
first fault, and reports a count that it has kept beside the machine. The other side is a
history: `Machine.paced` lists a cycle for every instruction and a tick after every so many,
and `Machine.Ends` says how far such a history gets, with no counter and no loop. A run of
any length, on any machine, ends where its history ends.

The ticks matter to the machine, since FX07 reads the timer, and so the loop is compared
with the history at every instruction: after each one both are at the same machine, and as
many ticks have been made as whole periods have gone by.
-/
import ChipEight.Proofs.Batches
import ChipEight.Proofs.Histories
import ChipEight.Schedule.Headless

set_option autoImplicit false

namespace ChipEight.Machine

variable {m n : Machine} {perTick : Nat}

/-! ## Counting cycles -/

theorem cycles_step_of_done (h : m.step.2.1 = none) : m.step.1.cycles = m.cycles + 1 := by
  rcases hstep : m.step with ⟨next, fault, notices⟩
  rw [hstep] at h
  obtain rfl : fault = none := h
  cases stepped_of_step hstep with
  | done => rfl

theorem cycles_step_of_fault {f : Fault} (h : m.step.2.1 = some f) :
    m.step.1.cycles = m.cycles := by
  rcases hstep : m.step with ⟨next, fault, notices⟩
  rw [hstep] at h
  obtain rfl : fault = some f := h
  cases stepped_of_step hstep with
  | halted | faulted => rfl

/-! ## The history of a headless run -/

/-- So many cycles, and a tick of the timers after every `perTick` of them. -/
def paced (perTick : Nat) : Nat → List Action
  | 0 => []
  | count + 1 => paced perTick count ++ .step :: if perTick ∣ count + 1 then [.tick] else []

/-- So many cycles of the history are carried out. -/
def Paces (m : Machine) (perTick count : Nat) : Prop :=
  ∀ i < count, (m.after (paced perTick i)).step.2.1 = none

/-- How a history of `count` cycles ends: after so many of them, without a fault or with one,
and at a machine. It is carried out whole, or to the first cycle that faults. -/
inductive Ends (m : Machine) (perTick count : Nat) : Nat → Option Fault → Machine → Prop where
  | complete : m.Paces perTick count →
      Ends m perTick count count none (m.after (paced perTick count))
  | faulted {done : Nat} {f : Fault} : m.Paces perTick done → done < count →
      (m.after (paced perTick done)).step.2.1 = some f →
      Ends m perTick count done (some f) (m.after (paced perTick done)).step.1

theorem paces_succ {count : Nat} (h : m.Paces perTick count)
    (hstep : (m.after (paced perTick count)).step.2.1 = none) : m.Paces perTick (count + 1) := by
  intro i hi
  by_cases hlt : i < count
  · exact h i hlt
  · obtain rfl : i = count := by omega
    exact hstep

/-- One cycle more, and its tick if it has one. -/
theorem after_paced_succ (m : Machine) (perTick count : Nat) :
    m.after (paced perTick (count + 1)) =
      if perTick ∣ count + 1 then (m.after (paced perTick count)).step.1.tick
      else (m.after (paced perTick count)).step.1 := by
  rw [paced, after_append, after_cons]
  split
  · rfl
  · rfl

/-- Every cycle that is carried out is counted by the machine, and no tick is. -/
theorem cycles_after_paced {count : Nat} (h : m.Paces perTick count) :
    (m.after (paced perTick count)).cycles = m.cycles + count := by
  induction count with
  | zero => rfl
  | succ count ih =>
    have hbefore := ih fun i hi => h i (by omega)
    have hcycle := cycles_step_of_done (h count (by omega))
    rw [after_paced_succ]
    split
    · show (m.after (paced perTick count)).step.1.cycles = _
      omega
    · omega

/-- A machine that is halted carries out no cycle. -/
theorem paces_eq_zero_of_halted {count : Nat} {f : Fault} (hf : m.fault = some f)
    (h : m.Paces perTick count) : count = 0 := by
  apply Nat.eq_zero_of_not_pos
  intro hpos
  have hfirst : m.step.2.1 = none := h 0 hpos
  rw [step, hf] at hfirst
  cases hfirst

namespace Ends

variable {count done done' : Nat} {fault fault' : Option Fault} {n' : Machine}

/-- A history has one end. -/
theorem unique (h : m.Ends perTick count done fault n) (h' : m.Ends perTick count done' fault' n') :
    done = done' ∧ fault = fault' ∧ n = n' := by
  -- A cycle that faults in one of them is not carried out in the other.
  have hdisjoint : ∀ {i j : Nat} {f : Fault}, m.Paces perTick j → i < j →
      (m.after (paced perTick i)).step.2.1 ≠ some f := by
    intro i j f hpaces hlt hfault
    rw [hpaces i hlt] at hfault
    cases hfault
  cases h with
  | complete hpaces =>
    cases h' with
    | complete => exact ⟨rfl, rfl, rfl⟩
    | faulted _ hlt hfault => exact absurd hfault (hdisjoint hpaces hlt)
  | faulted hpaces hlt hfault =>
    cases h' with
    | complete hpaces' => exact absurd hfault (hdisjoint hpaces' hlt)
    | faulted hpaces' _ hfault' =>
      rcases Nat.lt_trichotomy done done' with hless | rfl | hless
      · exact absurd hfault (hdisjoint hpaces' hless)
      · rw [hfault] at hfault'
        exact ⟨rfl, hfault', rfl⟩
      · exact absurd hfault' (hdisjoint hpaces hless)

theorem cycles_eq (h : m.Ends perTick count done fault n) : n.cycles = m.cycles + done := by
  cases h with
  | complete hpaces => exact cycles_after_paced hpaces
  | faulted hpaces _ hfault =>
    -- the cycle that faults is not counted
    rw [cycles_step_of_fault hfault, cycles_after_paced hpaces]

/-- The history is complete exactly when no cycle faulted. -/
theorem fault_eq_none_iff (h : m.Ends perTick count done fault n) :
    fault = none ↔ done = count := by
  cases h with
  | complete => simp
  | faulted _ hlt _ =>
    simp only [reduceCtorEq, false_iff]
    omega

/-- A machine that is halted stays as it is, and its fault is met by the first cycle there
is. -/
theorem of_halted {f : Fault} (hf : m.fault = some f) (h : m.Ends perTick count done fault n) :
    n = m ∧ done = 0 ∧ (0 < count → fault = some f) := by
  have hstep : m.step = (m, some f, []) := by
    rw [step, hf]
  cases h with
  | complete hpaces =>
    obtain rfl := paces_eq_zero_of_halted hf hpaces
    exact ⟨rfl, rfl, fun hpos => absurd hpos (Nat.lt_irrefl 0)⟩
  | faulted hpaces _ hfault =>
    obtain rfl := paces_eq_zero_of_halted hf hpaces
    have hfirst : m.step.2.1 = some _ := hfault
    rw [hstep] at hfirst
    refine ⟨?_, rfl, fun _ => hfirst.symm⟩
    show m.step.1 = m
    rw [hstep]

end Ends

/-! ## The loop -/

section

variable {k : Int} {h : Headless} {next : Machine} {notices : List Notice}

/-- An instruction that is carried out, with its tick if it has one. -/
theorem headlessLoop_of_done (hk : 0 < k) (hstep : h.machine.step = (next, none, notices))
    (left : Nat) :
    headlessLoop k (left + 1) h = headlessLoop k left
      { h with
        machine := if k ∣ ((h.done + 1 : Nat) : Int) then next.tick else next
        done := h.done + 1
        ticks := h.ticks + if k ∣ ((h.done + 1 : Nat) : Int) then 1 else 0
        notices := h.notices ++ notices } := by
  have hticks : ticksAfter k (h.done + 1) = .ok (decide (k ∣ ((h.done + 1 : Nat) : Int))) :=
    if_neg (Int.ne_of_gt hk)
  rw [headlessLoop, hstep]
  dsimp only
  rw [hticks]
  by_cases hdvd : k ∣ ((h.done + 1 : Nat) : Int)
  · simp only [decide_eq_true hdvd, if_pos hdvd]
  · simp only [decide_eq_false hdvd, if_neg hdvd, Nat.add_zero]

/-- An instruction that faults ends the loop. -/
theorem headlessLoop_of_fault {f : Fault} (hstep : h.machine.step = (next, some f, notices))
    (left : Nat) :
    headlessLoop k (left + 1) h =
      { h with machine := next, notices := h.notices ++ notices, stop := some (.ok f) } := by
  rw [headlessLoop, hstep]

end

/-- The loop is where the history is: at the same machine, with a tick for every whole
period, and not stopped. -/
structure Abreast (m : Machine) (perTick : Nat) (h : Headless) : Prop where
  paces : m.Paces perTick h.done
  machine : h.machine = m.after (paced perTick h.done)
  ticks : h.ticks = h.done / perTick
  stop : h.stop = none

/-- The loop stands where a history of `count` cycles ends. -/
structure AtEnd (m : Machine) (perTick count : Nat) (fault : Option Fault) (h : Headless) :
    Prop where
  ends : m.Ends perTick count h.done fault h.machine
  ticks : h.ticks = h.done / perTick
  stop : h.stop = fault.map .ok

/-- **The loop ends where the history ends**, with a tick for every whole period. -/
theorem exists_atEnd (hperTick : 0 < perTick) {h : Headless} (habreast : Abreast m perTick h)
    (left : Nat) :
    ∃ fault, AtEnd m perTick (h.done + left) fault (headlessLoop perTick left h) := by
  -- `Abreast` is the invariant: a cycle that is carried out keeps it, and the sum of what is
  -- done and what is left; without a cycle left, or at a fault, it says where the history ends.
  induction left generalizing h with
  | zero =>
    refine ⟨none, ?_, habreast.ticks, habreast.stop⟩
    simp only [headlessLoop, habreast.machine]
    exact .complete habreast.paces
  | succ left ih =>
    have hsame := habreast.machine
    rcases hstep : h.machine.step with ⟨next, _ | f, notices⟩
    · have hdone : (m.after (paced perTick h.done)).step.2.1 = none := by
        rw [← hsame, hstep]
      have hcount : h.done + (left + 1) = h.done + 1 + left := by omega
      rw [headlessLoop_of_done (Int.natCast_pos.mpr hperTick) hstep, hcount]
      simp only [Int.natCast_dvd_natCast]
      have hnext : Abreast m perTick
          { h with
            machine := if perTick ∣ h.done + 1 then next.tick else next
            done := h.done + 1
            ticks := h.ticks + if perTick ∣ h.done + 1 then 1 else 0
            notices := h.notices ++ notices } := by
        refine ⟨paces_succ habreast.paces hdone, ?_, ?_, habreast.stop⟩
        · rw [after_paced_succ, ← hsame, hstep]
        · rw [Nat.succ_div, habreast.ticks]
      exact ih hnext
    · have hfault : (m.after (paced perTick h.done)).step.2.1 = some f := by
        rw [← hsame, hstep]
      have hmachine : (m.after (paced perTick h.done)).step.1 = next := by
        rw [← hsame, hstep]
      have hleft : h.done < h.done + (left + 1) := by omega
      rw [headlessLoop_of_fault hstep]
      refine ⟨some f, ?_, habreast.ticks, rfl⟩
      rw [← hmachine]
      exact .faulted habreast.paces hleft hfault

/-- What is reported of a loop that stands at its end. -/
theorem AtEnd.runHeadless {count : Nat} {fault : Option Fault}
    (hend : AtEnd m perTick count fault (headlessLoop perTick count { machine := m }))
    (span : Float) :
    ∃ done notices, m.Ends perTick count done fault (m.runHeadless count perTick span).1 ∧
      (m.runHeadless count perTick span).2 =
        (.ok { instructions := done, timerTicks := done / perTick, frames := 0, elapsed := span
               fault := fault, dropped := 0 }, notices) := by
  have hfault := hend.ends.fault_eq_none_iff
  refine ⟨_, (headlessLoop perTick count { machine := m }).notices, hend.ends, ?_⟩
  simp only [Machine.runHeadless, Int.toNat_natCast, hend.stop, hend.ticks]
  rcases fault with _ | f
  · -- A count of nothing is reported as it was given, and then nothing was done.
    have hdone := hfault.mp rfl
    have hcount : (if (count : Int) ≤ 0 then (count : Int)
        else ((headlessLoop perTick count { machine := m }).done : Int)) =
          ((headlessLoop perTick count { machine := m }).done : Int) := by
      rw [hdone, ite_self]
    simp only [Option.map_none, hcount]
  · simp only [Option.map_some]

/-! ## The run -/

/-- **A headless run is exact.** The history of a cycle for every instruction and a tick after
every so many has one end, and the run has the same: the same machine, the number of the
cycles that were carried out, the fault of the one that was not, and a tick for every whole
period; the time it reports is the one that it took. The machine has counted as many cycles,
and there is a fault exactly when fewer were carried out than asked for. A machine that is
halted stays as it is, and its fault is reported if there was anything to carry out. -/
theorem headless_exact (m : Machine) (count perTick : Nat) (span : Float)
    (hperTick : 0 < perTick) :
    (∃ done fault n, m.Ends perTick count done fault n) ∧
      ∀ done fault n, m.Ends perTick count done fault n →
        (∃ notices, m.runHeadless count perTick span =
          (n, .ok { instructions := done, timerTicks := done / perTick, frames := 0
                    elapsed := span, fault := fault, dropped := 0 }, notices)) ∧
        n.cycles = m.cycles + done ∧ (fault = none ↔ done = count) ∧
        ∀ f, m.fault = some f → n = m ∧ done = 0 ∧ (0 < count → fault = some f) := by
  have hstart : Abreast m perTick { machine := m } :=
    ⟨fun i hi => absurd hi (Nat.not_lt_zero i), rfl, (Nat.zero_div perTick).symm, rfl⟩
  obtain ⟨fault, hend⟩ := exists_atEnd hperTick hstart count
  rw [Nat.zero_add] at hend
  obtain ⟨done, notices, hends, hreport⟩ := hend.runHeadless span
  refine ⟨⟨_, _, _, hends⟩, ?_⟩
  intro done' fault' n hends'
  obtain ⟨rfl, rfl, rfl⟩ := hends'.unique hends
  exact ⟨⟨notices, Prod.ext rfl hreport⟩, hends'.cycles_eq, hends'.fault_eq_none_iff,
    fun f hf => hends'.of_halted hf⟩

/-- The fourth of four instructions faults where a tick would follow it, and the third has read
the timer behind a tick. -/
theorem fault_in_place_of_tick :
    let m : Machine :=
      { seed := 0, key := ⟨0, 0⟩, program := []
        state := { State.fresh ⟨0, 0⟩ with
          memory := Memory.store (Vector.replicate 4096 0) 0x200
            [0x60, 0x01, 0x61, 0x02, 0xF0, 0x07, 0x00, 0xEE]
          delayTimer := 9 }
        fault := none, cycles := 0 }
    ∃ n notices, m.runHeadless (4 : Nat) (2 : Nat) 0.5 =
        (n, .ok { instructions := 3, timerTicks := 1, frames := 0, elapsed := 0.5
                  fault := some ⟨.stackUnderflow, some 0x00EE, some 0x206⟩, dropped := 0 },
          notices) ∧
      n.cycles = 3 ∧ n.state.reg 0 = 8 := by
  intro m
  obtain ⟨-, hall⟩ := headless_exact m 4 2 0.5 (by decide)
  have hcourse : (∀ i < 3, (m.after (paced 2 i)).step.2.1 = none) ∧
      (m.after (paced 2 3)).step.2.1 = some ⟨.stackUnderflow, some 0x00EE, some 0x206⟩ ∧
      (m.after (paced 2 3)).step.1.state.reg 0 = 8 := by decide +kernel
  obtain ⟨hpaces, hfault, hread⟩ := hcourse
  obtain ⟨⟨notices, hrun⟩, hcycles, -⟩ := hall _ _ _ (.faulted hpaces (by decide) hfault)
  exact ⟨_, notices, hrun, hcycles, hread⟩

end ChipEight.Machine
