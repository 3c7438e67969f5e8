/-
The stream of random bytes.

CXNN takes the next key whatever its mask is, NN = 0 included, and nothing else takes one:
no other word, no cycle that is discarded because it faulted, and nothing that comes
between the cycles. A load or a reset begins again with the key of the seed. So the bytes
are numbered from the last start on, and the k-th byte depends on the seed and on k alone.

A history is asked for its `draws`, the CXNN that it executed since its last start, each
with what was left in VX. `DrawnFrom` says that a key and a list of draws belong together:
the key is the one of the seed, advanced once for each draw, and every draw left the byte
of its own key under its mask. One action keeps that, by the moves of a machine.
-/
import ChipEight.Proofs.Restart
import ChipEight.Proofs.WriteSets
import Mathlib.Logic.Function.Iterate

set_option autoImplicit false

namespace ChipEight

/-- A CXNN that was executed: its word, and what it left in VX. -/
structure Draw where
  word : UInt16
  value : UInt8
  deriving DecidableEq

/-- The mask NN of a draw. -/
def Draw.mask (d : Draw) : UInt8 := (Operands.ofWord d.word).nn

namespace Machine

/-- The CXNN that a machine executed on the way to another one, if it did. -/
def drawOn? (m : Machine) (e : Event) (n : Machine) : Option Draw :=
  let word := m.state.memory.word m.state.pc.toNat
  if e.completes ∧ word.toNat / 0x1000 = 0xC then
    some ⟨word, n.state.reg (Operands.ofWord word).x⟩
  else none

/-- The draws since the last start, the latest at the end, where `drawn` were made before
the history. -/
def draws (m : Machine) (drawn : List Draw) : List Action → List Draw
  | [] => drawn
  | a :: actions =>
    let e := m.event a
    let n := (m.perform a).machine
    n.draws (if e.starts then [] else drawn ++ (m.drawOn? e n).toList) actions

end Machine

/-! ## Keys and draws that belong together -/

/-- The key is the one of the seed advanced once for each draw, and each draw left the byte
of its own key under its mask. -/
structure DrawnFrom (key rng : RandomKey) (drawn : List Draw) : Prop where
  rng_eq : rng = RandomKey.next^[drawn.length] key
  value_eq : ∀ (k : Nat) (d : Draw), drawn[k]? = some d →
    d.value = (RandomKey.next^[k] key).byte &&& d.mask

namespace DrawnFrom

variable {key rng : RandomKey} {drawn : List Draw}

theorem nil (key : RandomKey) : DrawnFrom key key [] where
  rng_eq := rfl
  value_eq := by simp

/-- One more draw takes the byte of the key there is, and the next key. -/
theorem concat (h : DrawnFrom key rng drawn) {d : Draw} (hd : d.value = rng.byte &&& d.mask) :
    DrawnFrom key rng.next (drawn ++ [d]) where
  rng_eq := by
    rw [List.length_append, List.length_singleton, Function.iterate_succ_apply', ← h.rng_eq]
  value_eq := by
    intro k last hlast
    by_cases hk : k < drawn.length
    · rw [List.getElem?_append_left hk] at hlast
      exact h.value_eq k last hlast
    · obtain ⟨rfl, rfl⟩ : k = drawn.length ∧ d = last := by
        rw [List.getElem?_append_right (by omega), List.getElem?_singleton] at hlast
        split at hlast
        · exact ⟨by omega, by simpa using hlast⟩
        · simp at hlast
      rw [hd, h.rng_eq]

end DrawnFrom

/-! ## One cycle -/

namespace State

variable {s t : State}

/-- **A CXNN** leaves the byte of the key in VX, under its mask, and the next key. -/
theorem random_step (h : s.step = .ok t)
    (hw : (s.memory.word s.pc.toNat).toNat / 0x1000 = 0xC) :
    t.rng = s.rng.next ∧ t.reg (Operands.ofWord (s.memory.word s.pc.toNat)).x =
      s.rng.byte &&& (Operands.ofWord (s.memory.word s.pc.toNat)).nn := by
  obtain ⟨-, o, ho, -, rfl⟩ := exists_run_of_step (latch_clear_of_step_eq_ok h) h
  have hrandom : Operation.random.Covers (s.memory.word s.pc.toNat) := hw
  obtain rfl := Operation.eq_of_covers (Operation.covers_of_ofWord? ho) hrandom
  refine ⟨rfl, ?_⟩
  show (s.past.setReg _ _).reg _ = _
  rw [reg_setReg, if_pos rfl]
  rfl

/-- Any other word leaves the key alone. -/
theorem rng_step_of_ne (h : s.step = .ok t)
    (hw : (s.memory.word s.pc.toNat).toNat / 0x1000 ≠ 0xC) : t.rng = s.rng := by
  obtain ⟨-, o, ho, -, rfl⟩ := exists_run_of_step (latch_clear_of_step_eq_ok h) h
  have hother : o ≠ .random := by
    rintro rfl
    exact hw (Operation.covers_of_ofWord? ho)
  rw [Operation.run_rng, Operation.rngAfter]
  · rfl
  · exact hother

end State

/-! ## One action -/

namespace Machine

variable {m n : Machine} {e : Event} {key : RandomKey} {drawn : List Draw}

/-- An event that completes no cycle is no draw. -/
theorem drawOn?_of_not_completes (h : e.completes = false) : m.drawOn? e n = none := by
  simp [drawOn?, h]

/-- **One action** keeps the key and the draws together: a start begins both again, a CXNN
takes both on, and anything else leaves both alone. -/
theorem Move.drawnFrom (h : Move m e n) (hkey : m.key = key)
    (hm : DrawnFrom key m.state.rng drawn) :
    DrawnFrom key n.state.rng (if e.starts then [] else drawn ++ (m.drawOn? e n).toList) := by
  cases h with
  | load | reset =>
    rw [← hkey]
    exact .nil m.key
  | @cycle t hf hs =>
    by_cases hw : (m.state.memory.word m.state.pc.toNat).toNat / 0x1000 = 0xC
    · obtain ⟨hrng, hvalue⟩ := State.random_step hs hw
      simp only [drawOn?, hw, Event.completes, Event.starts]
      rw [hrng]
      exact hm.concat hvalue
    · have hrng : t.rng = m.state.rng := State.rng_step_of_ne hs hw
      simpa [drawOn?, hw, Event.starts, hrng] using hm
  | fault hf hs =>
    -- The cycle was discarded, and with it a key that it may have taken.
    rw [drawOn?_of_not_completes rfl]
    simpa [Event.starts] using hm
  | @pass e t he hsame =>
    have hrng : t.rng = m.state.rng := by rw [hsame]
    rw [drawOn?_of_not_completes he.2.1, he.1, hrng]
    simpa using hm

/-! ## Along a history -/

/-- **The random stream** of a history. -/
theorem drawnFrom_after (hkey : m.key = key) (hm : DrawnFrom key m.state.rng drawn)
    (actions : List Action) :
    DrawnFrom key (m.after actions).state.rng (m.draws drawn actions) := by
  induction actions generalizing m drawn with
  | nil => exact hm
  | cons a actions ih =>
    -- The rest of the history goes on from another machine, but with the same key.
    have hmove := m.move_perform a
    rw [after_cons, draws]
    exact ih (hmove.seed_eq.2.trans hkey) (hmove.drawnFrom hkey hm)

/-- **The random stream depends on the seed and on the number of draws alone.** After any
history the key is the key of the seed advanced by the number of CXNN executed since the
last start, and the k-th of these left the byte of the k-th key, under its mask. So the
k-th draws of two histories with one seed, of any programs, took the same byte. -/
theorem random_stream_of_seed {seed : Int} {program : List UInt8} {notices : List Notice}
    (hkey : RandomKey.ofSeed seed = .ok key) (h : create program seed = .ok (m, notices))
    (actions : List Action) :
    (m.after actions).state.rng = RandomKey.next^[(m.draws [] actions).length] key ∧
      (∀ (k : Nat) (d : Draw), (m.draws [] actions)[k]? = some d →
        d.value = (RandomKey.next^[k] key).byte &&& d.mask) ∧
      ∀ (other : List UInt8) (m' : Machine) (news : List Notice) (actions' : List Action),
        create other seed = .ok (m', news) →
        ∀ (k : Nat) (d d' : Draw),
          (m.draws [] actions)[k]? = some d → (m'.draws [] actions')[k]? = some d' →
          ∃ byte, d.value = byte &&& d.mask ∧ d'.value = byte &&& d'.mask := by
  have hstream : ∀ (P : List UInt8) (n : Machine) (news : List Notice) (as : List Action),
      create P seed = .ok (n, news) → DrawnFrom key (n.after as).state.rng (n.draws [] as) := by
    intro P n news as hcreate
    obtain ⟨key', hkey', -, rfl⟩ := create_eq_ok hcreate
    obtain rfl : key = key' := by simpa [hkey] using hkey'
    exact drawnFrom_after (m := booted seed key P) rfl (.nil key) as
  have hdrawn := hstream _ _ _ actions h
  refine ⟨hdrawn.rng_eq, hdrawn.value_eq, ?_⟩
  intro other m' news actions' hcreate k d d' hd hd'
  exact ⟨_, hdrawn.value_eq k d hd, (hstream _ _ _ actions' hcreate).value_eq k d' hd'⟩

/-- A machine that draws under the mask 00, then under FF, and then faults. -/
def drawingTwice : Machine :=
  booted 7 ⟨0, 7⟩ [0xC0, 0x00, 0xC1, 0xFF, 0x00, 0xEE]

/-- A machine with the same seed that draws in a loop. -/
def drawingOn : Machine :=
  booted 7 ⟨0, 7⟩ [0x60, 0x05, 0xC5, 0xFF, 0x12, 0x02]

/-- Behind the two draws of one machine a cycle faults and a load is refused; the other
starts over behind a draw, and has its display taken. The second byte is the same. -/
theorem masked_draw_takes_a_key :
    let history : List Action :=
      [.step, .tick, .press 3, .step, .step, .load (List.replicate 3585 0) "large"]
    let other : List Action :=
      [.step, .step, .reset, .step, .step, .step, .consumeDisplay, .step]
    drawingTwice.draws [] history = [⟨0xC000, 0⟩, ⟨0xC1FF, 217⟩] ∧
      (drawingTwice.after history).state.rng = RandomKey.next^[2] ⟨0, 7⟩ ∧
      ∃ d, (drawingOn.draws [] other)[1]? = some d ∧ ∃ byte, 217 = byte &&& (0xFF : UInt8) ∧
        d.value = byte &&& d.mask := by
  intro history other
  have hdraws : drawingTwice.draws [] history = [⟨0xC000, 0⟩, ⟨0xC1FF, 217⟩] := by
    decide +kernel
  have hother : (drawingOn.draws [] other)[1]? = some ⟨0xC5FF, 217⟩ := by decide +kernel
  have hkey : RandomKey.ofSeed 7 = .ok ⟨0, 7⟩ := rfl
  have htwice : create drawingTwice.program 7 = .ok (drawingTwice, [.loaded "program" 6]) :=
    create_eq hkey _
  have hon : create drawingOn.program 7 = .ok (drawingOn, [.loaded "program" 6]) :=
    create_eq hkey _
  obtain ⟨hrng, -, hsame⟩ := random_stream_of_seed hkey htwice history
  rw [hdraws] at hrng hsame
  exact ⟨hdraws, hrng, _, hother, hsame _ drawingOn _ other hon 1 _ _ rfl hother⟩

end Machine
end ChipEight
