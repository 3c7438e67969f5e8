/-
A drawing, bit by bit.

The instruction set describes DXYN as two loops: over the rows, until one is below the
display, and in a row over the bits of its byte, the most significant first, until one is
beside it. Each set bit flips a pixel at once, and VF is raised when that pixel was on.
`State.drawSequentially` is this account, and `Sprite.draw`, which computes a whole display
with one exclusive or, has to come to the same.

What carries the proof is the list of the pixels that the loops flip (`targets`). No pixel
is in it twice, so none is looked at after it has been flipped, and an order of flips is as
good as all of them at once.
-/
import ChipEight.Proofs.Sprites
import ChipEight.Proofs.Words
import ChipEight.Proofs.WriteSets

set_option autoImplicit false

namespace ChipEight

/-! ## The account of the instruction set -/

/-- One pixel flipped. -/
def Grid.flip (g : Grid) (x y : Nat) : Grid :=
  Vector.ofFn fun (r : Fin 32) => if r = y then g[r] ^^^ BitVec.twoPow 64 (63 - x) else g[r]

namespace State

/-- Flips a pixel, raises VF if it was on, and marks the display changed. -/
def flipPixel (s : State) (x y : Nat) : State :=
  let collided := if s.display.pixel x y then s.setReg flagRegister 1 else s
  { collided with display := s.display.flip x y, displayChanged := true }

/-- Draws bits of a byte from column `x` on: one that is clear is skipped, and one beside the
display ends the row. -/
def drawBits (s : State) (byte : UInt8) (x y : Nat) : List Nat → State
  | [] => s
  | b :: bs =>
    if byte.toBitVec.getMsbD b = false then s.drawBits byte x y bs
    else if 64 ≤ x + b then s
    else (s.flipPixel (x + b) y).drawBits byte x y bs

/-- Draws rows of a sprite from row `y` on: one below the display ends the drawing. -/
def drawRows (s : State) (x y : Nat) : List Nat → State
  | [] => s
  | r :: rs =>
    if 32 ≤ y + r then s
    else
      let byte := s.memory.byteAt (s.I.toNat + r)
      (s.drawBits byte x (y + r) (List.range 8)).drawRows x y rs

/-- DXYN: both registers are read, VF is cleared, and the rows are drawn from the top. -/
def drawSequentially (s : State) (x y n : Fin 16) : State :=
  let left := (s.reg x).toNat % 64
  let top := (s.reg y).toNat % 32
  (s.setReg flagRegister 0).drawRows left top (List.range n)

end State

/-! ## Flips, one after the other -/

namespace Grid

theorem pixel_flip (g : Grid) {x y px py : Nat} (hx : x < 64) (hpy : py < 32) :
    (g.flip x y).pixel px py = (g.pixel px py ^^ decide ((px, py) = (x, y))) := by
  rw [pixel_of_lt hpy, pixel_of_lt hpy, flip, Vector.getElem_ofFn]
  by_cases hy : py = y
  · have hcolumn : px = 64 - (63 - x) - 1 ↔ px = x := by omega
    have hbit : 63 - x < 64 := by omega
    simp [hy, BitVec.getMsbD_twoPow, hbit, hcolumn]
  · simp [hy]

end Grid

/-- The pixel is on the display. -/
def OnDisplay (p : Nat × Nat) : Prop :=
  p.1 < 64 ∧ p.2 < 32

/-- Different pixels of the display. -/
structure Distinct (ps : List (Nat × Nat)) : Prop where
  nodup : ps.Nodup
  onDisplay : ∀ p ∈ ps, OnDisplay p

theorem Distinct.of_cons {p : Nat × Nat} {ps : List (Nat × Nat)} (h : Distinct (p :: ps)) :
    p ∉ ps ∧ OnDisplay p ∧ Distinct ps := by
  obtain ⟨hfresh, hrest⟩ := List.nodup_cons.mp h.nodup
  exact ⟨hfresh, h.onDisplay p List.mem_cons_self,
    hrest, fun q hq => h.onDisplay q (List.mem_cons_of_mem p hq)⟩

namespace State

/-- Flips pixels, one after the other. -/
def flipAll (s : State) (targets : List (Nat × Nat)) : State :=
  targets.foldl (fun s p => s.flipPixel p.1 p.2) s

variable {s : State} {p : Nat × Nat} {ps qs : List (Nat × Nat)}

theorem flipAll_cons : s.flipAll (p :: ps) = (s.flipPixel p.1 p.2).flipAll ps := rfl

theorem flipAll_append : s.flipAll (ps ++ qs) = (s.flipAll ps).flipAll qs := by
  rw [flipAll, List.foldl_append, flipAll, flipAll]

/-- A flip looks at no pixel but its own. -/
theorem pixel_flipPixel {q : Nat × Nat} (hp : OnDisplay p) (hq : OnDisplay q) :
    (s.flipPixel p.1 p.2).display.pixel q.1 q.2 = (s.display.pixel q.1 q.2 ^^ decide (q = p)) :=
  s.display.pixel_flip hp.1 hq.2

theorem flipPixel_eq (s : State) (x y : Nat) :
    s.flipPixel x y = { s with
      V := if s.display.pixel x y then (s.setReg flagRegister 1).V else s.V
      display := s.display.flip x y
      displayChanged := true } := by
  rw [flipPixel]
  by_cases hon : s.display.pixel x y = true
  · rw [if_pos hon, if_pos hon]
    rfl
  · rw [if_neg hon, if_neg hon]

theorem flipAll_memory : (s.flipAll ps).memory = s.memory := by
  induction ps generalizing s with
  | nil => rfl
  | cons p ps ih => rw [flipAll_cons, ih, flipPixel_eq]

theorem flipAll_I : (s.flipAll ps).I = s.I := by
  induction ps generalizing s with
  | nil => rfl
  | cons p ps ih => rw [flipAll_cons, ih, flipPixel_eq]

/-- **Flips of different pixels**: VF is raised if one of them was on before the first flip. -/
theorem flipAll_eq (hps : Distinct ps) :
    s.flipAll ps = { s with
      V := if ps.any fun p => s.display.pixel p.1 p.2 then (s.setReg flagRegister 1).V else s.V
      display := (s.flipAll ps).display
      displayChanged := s.displayChanged || !ps.isEmpty } := by
  induction ps generalizing s with
  | nil => simp [flipAll]
  | cons p ps ih =>
    obtain ⟨hfresh, hp, hrest⟩ := hps.of_cons
    -- No later target is this one, so the later flips find what was there at first.
    have hsame : ps.any (fun q => (s.flipPixel p.1 p.2).display.pixel q.1 q.2) =
        ps.any fun q => s.display.pixel q.1 q.2 := by
      rw [Bool.eq_iff_iff, List.any_eq_true, List.any_eq_true]
      refine exists_congr fun q => and_congr_right fun hq => ?_
      have hqp : q ≠ p := fun h => hfresh (h ▸ hq)
      rw [pixel_flipPixel hp (hrest.onDisplay q hq), decide_eq_false hqp, Bool.xor_false]
    rw [flipAll_cons]
    refine (ih hrest).trans ?_
    rw [hsame, flipPixel_eq, List.any_cons]
    generalize s.display.pixel p.1 p.2 = on
    generalize (ps.any fun q => s.display.pixel q.1 q.2) = any
    cases on
    · simp [setReg]
    · cases any
      · simp
      · simp [setReg]

theorem pixel_flipAll (hps : Distinct ps) {q : Nat × Nat} (hq : OnDisplay q) :
    (s.flipAll ps).display.pixel q.1 q.2 = (s.display.pixel q.1 q.2 ^^ decide (q ∈ ps)) := by
  induction ps generalizing s with
  | nil => simp [flipAll]
  | cons p ps ih =>
    obtain ⟨hfresh, hp, hrest⟩ := hps.of_cons
    rw [flipAll_cons, ih hrest, pixel_flipPixel hp hq, Bool.xor_assoc]
    by_cases hqp : q = p
    · simp [hqp, hfresh]
    · simp [hqp]

end State

/-! ## The pixels that the loops flip -/

/-- The pixels of row `y` under the set bits of a byte, from column `x` on. -/
def rowTargets (byte : UInt8) (x y : Nat) (bits : List Nat) : List (Nat × Nat) :=
  (bits.filter fun b => byte.toBitVec.getMsbD b && decide (x + b < 64)).map fun b => (x + b, y)

/-- The pixels under the set bits of rows. -/
def targets (rows : List UInt8) (x y : Nat) (rs : List Nat) : List (Nat × Nat) :=
  rs.flatMap fun r =>
    if y + r < 32 then rowTargets (rows.getD r 0) x (y + r) (List.range 8) else []

section

variable {rows : List UInt8} {x y n : Nat} {p : Nat × Nat}

theorem mem_rowTargets {byte : UInt8} :
    p ∈ rowTargets byte x y (List.range 8) ↔
      p.1 < 64 ∧ p.2 = y ∧ x ≤ p.1 ∧ byte.toBitVec.getMsbD (p.1 - x) = true := by
  simp only [rowTargets, List.mem_map, List.mem_filter, List.mem_range, Bool.and_eq_true,
    decide_eq_true_eq]
  constructor
  · rintro ⟨b, ⟨-, hbit, hb⟩, rfl⟩
    exact ⟨hb, rfl, Nat.le_add_right x b, by rwa [Nat.add_sub_cancel_left]⟩
  · rintro ⟨hlt, rfl, hle, hbit⟩
    have hb : x + (p.1 - x) = p.1 := by omega
    exact ⟨p.1 - x, ⟨BitVec.lt_of_getMsbD hbit, hbit, by omega⟩, by rw [hb]⟩

/-- The loops flip the pixels of the display that the sprite lights. -/
theorem mem_targets :
    p ∈ targets rows x y (List.range n) ↔
      OnDisplay p ∧ Sprite.lights rows x y n p.1 p.2 = true := by
  simp only [targets, List.mem_flatMap, List.mem_range, List.mem_ite_nil_right, mem_rowTargets]
  rw [Sprite.lights_iff, OnDisplay]
  constructor
  · rintro ⟨r, hr, hedge, hx, hy, hle, hbit⟩
    obtain rfl : r = p.2 - y := by omega
    exact ⟨⟨hx, by omega⟩, ⟨hle, by omega, by omega⟩, hbit⟩
  · rintro ⟨⟨hx, hy⟩, ⟨hle, htop, hbottom⟩, hbit⟩
    exact ⟨p.2 - y, by omega, by omega, hx, by omega, hle, hbit⟩

theorem exists_mem_targets {q : Nat → Nat → Prop} :
    (∃ p ∈ targets rows x y (List.range n), q p.1 p.2) ↔
      ∃ px py, px < 64 ∧ py < 32 ∧ q px py ∧ Sprite.lights rows x y n px py = true := by
  constructor
  · rintro ⟨p, hp, hq⟩
    obtain ⟨⟨hpx, hpy⟩, hlights⟩ := mem_targets.mp hp
    exact ⟨p.1, p.2, hpx, hpy, hq, hlights⟩
  · rintro ⟨px, py, hpx, hpy, hq, hlights⟩
    exact ⟨(px, py), mem_targets.mpr ⟨⟨hpx, hpy⟩, hlights⟩, hq⟩

theorem nodup_rowTargets {byte : UInt8} : (rowTargets byte x y (List.range 8)).Nodup := by
  rw [rowTargets, List.Nodup, List.pairwise_map]
  refine (List.nodup_range.filter _).imp ?_
  intro b b' hne heq
  rw [Prod.mk.injEq] at heq
  omega

theorem nodup_targets : (targets rows x y (List.range n)).Nodup := by
  rw [targets, List.Nodup, List.pairwise_flatMap]
  constructor
  · intro r _
    by_cases hedge : y + r < 32
    · rw [if_pos hedge]
      exact nodup_rowTargets
    · rw [if_neg hedge]
      exact List.Pairwise.nil
  -- the pixels of two rows are not in the same row of the display
  · refine List.nodup_range.imp ?_
    intro r r' hne p hp q hq heq
    rw [List.mem_ite_nil_right, mem_rowTargets] at hp hq
    rw [heq] at hp
    omega

theorem distinct_targets : Distinct (targets rows x y (List.range n)) :=
  ⟨nodup_targets, fun _ hp => (mem_targets.mp hp).1⟩

end

namespace State

variable {s : State} {x y : Nat}

/-- Behind an edge in an ascending list everything is. -/
theorem not_lt_of_pairwise {a edge : Nat} {l : List Nat} (hl : (a :: l).Pairwise (· < ·))
    (ha : edge ≤ x + a) : ∀ b ∈ a :: l, ¬ x + b < edge := by
  intro b hb
  rcases List.mem_cons.mp hb with rfl | hb
  · omega
  · have hlt := (List.pairwise_cons.mp hl).1 b hb
    omega

/-- **The loop over the bits.** Where it ends early, the bits that are left are beside the
display as well. -/
theorem drawBits_eq {bits : List Nat} (hbits : bits.Pairwise (· < ·)) (byte : UInt8) :
    s.drawBits byte x y bits = s.flipAll (rowTargets byte x y bits) := by
  induction bits generalizing s with
  | nil => rfl
  | cons b bits ih =>
    have hrest := (List.pairwise_cons.mp hbits).2
    rw [drawBits]
    by_cases hbit : byte.toBitVec.getMsbD b = false
    · rw [if_pos hbit, ih hrest]
      simp [rowTargets, hbit]
    · rw [if_neg hbit]
      by_cases hedge : 64 ≤ x + b
      · have hnone : rowTargets byte x y (b :: bits) = [] := by
          simp only [rowTargets, List.map_eq_nil_iff, List.filter_eq_nil_iff]
          intro b' hb'
          simp [not_lt_of_pairwise hbits hedge b' hb']
        rw [if_pos hedge, hnone]
        rfl
      · have htarget : rowTargets byte x y (b :: bits) =
            (x + b, y) :: rowTargets byte x y bits := by
          simp [rowTargets, hbit, Nat.lt_of_not_le hedge]
        rw [if_neg hedge, ih hrest, htarget]
        rfl

/-- **The loop over the rows.** -/
theorem drawRows_eq {rows : List UInt8} {rs : List Nat} (hrs : rs.Pairwise (· < ·))
    (hrows : ∀ r ∈ rs, s.memory.byteAt (s.I.toNat + r) = rows.getD r 0) :
    s.drawRows x y rs = s.flipAll (targets rows x y rs) := by
  induction rs generalizing s with
  | nil => rfl
  | cons r rs ih =>
    have hrest := (List.pairwise_cons.mp hrs).2
    rw [drawRows]
    by_cases hedge : 32 ≤ y + r
    · have hnone : targets rows x y (r :: rs) = [] := by
        rw [targets, List.flatMap_eq_nil_iff]
        intro r' hr'
        exact if_neg (not_lt_of_pairwise hrs hedge r' hr')
      rw [if_pos hedge, hnone]
      rfl
    · have hrow : targets rows x y (r :: rs) =
          rowTargets (rows.getD r 0) x (y + r) (List.range 8) ++ targets rows x y rs := by
        rw [targets, List.flatMap_cons, if_pos (Nat.lt_of_not_le hedge), targets]
      rw [if_neg hedge, hrow, flipAll_append, ← hrows r List.mem_cons_self,
        ← drawBits_eq List.pairwise_lt_range]
      apply ih hrest
      -- The flips of this row have left the memory and the index alone.
      intro r' hr'
      rw [drawBits_eq List.pairwise_lt_range, flipAll_memory, flipAll_I]
      exact hrows r' (List.mem_cons_of_mem r hr')

/-! ## The two accounts are one -/

/-- **The loops** come to what `Sprite.draw` computes, from any rows that begin with those of
the sprite. -/
theorem drawRows_eq_draw {rows : List UInt8} {n : Nat} (hy : y ≤ 32) (hn : n ≤ maxSpriteHeight)
    (hrows : ∀ r < n, s.memory.byteAt (s.I.toNat + r) = rows.getD r 0) :
    let d := Sprite.draw s.display rows x y n
    s.drawRows x y (List.range n) = { s with
      V := if d.collision then (s.setReg flagRegister 1).V else s.V
      display := d.display
      displayChanged := s.displayChanged || d.toggled } := by
  intro d
  have hdistinct : Distinct (targets rows x y (List.range n)) := distinct_targets
  have hdisplay : (s.flipAll (targets rows x y (List.range n))).display = d.display := by
    apply Grid.ext_pixel
    intro px py hpx hpy
    have hlights : decide ((px, py) ∈ targets rows x y (List.range n)) =
        Sprite.lights rows x y n px py := by
      rw [Bool.eq_iff_iff, decide_eq_true_eq, mem_targets]
      exact and_iff_right ⟨hpx, hpy⟩
    have hflipped := s.pixel_flipAll hdistinct (q := (px, py)) ⟨hpx, hpy⟩
    rw [hflipped, hlights, Sprite.pixel_draw hy hn hpx hpy]
  have hcollision : ((targets rows x y (List.range n)).any fun p => s.display.pixel p.1 p.2) =
      d.collision := by
    rw [Bool.eq_iff_iff, List.any_eq_true, Sprite.collision_iff hy hn]
    exact exists_mem_targets (q := fun px py => s.display.pixel px py = true)
  have htoggled : (!(targets rows x y (List.range n)).isEmpty) = d.toggled := by
    rw [Bool.eq_iff_iff, Bool.not_eq_true', List.isEmpty_eq_false_iff_exists_mem,
      Sprite.toggled_iff hy hn]
    simpa using exists_mem_targets (q := fun _ _ => True)
  rw [drawRows_eq List.pairwise_lt_range fun r hr => hrows r (List.mem_range.mp hr),
    flipAll_eq hdistinct, hdisplay, hcollision, htoggled]

theorem drawSequentially_eq (s : State) (x y n : Fin 16) {rows : List UInt8}
    (hrows : ∀ r < n.val, s.memory.byteAt (s.I.toNat + r) = rows.getD r 0) :
    let d := Sprite.draw s.display rows ((s.reg x).toNat % 64 : Nat) ((s.reg y).toNat % 32 : Nat) n
    s.drawSequentially x y n = { s with
      V := (s.setReg flagRegister (if d.collision then 1 else 0)).V
      display := d.display
      displayChanged := s.displayChanged || d.toggled } := by
  intro d
  have hn : n.val ≤ maxSpriteHeight := Nat.le_of_lt_succ n.isLt
  have hloops := (s.setReg flagRegister 0).drawRows_eq_draw (x := (s.reg x).toNat % 64)
    (y := (s.reg y).toNat % 32) (Nat.le_of_lt (Nat.mod_lt _ (by decide))) hn hrows
  have hflag : (if d.collision = true then ((s.setReg flagRegister 0).setReg flagRegister 1).V
      else (s.setReg flagRegister 0).V) =
        (s.setReg flagRegister (if d.collision then 1 else 0)).V := by
    cases d.collision
    · rfl
    · simp [setReg]
  rw [drawSequentially, ← hflag]
  exact hloops

/-- A pixel that it changes is under a set bit of the sprite. -/
theorem lights_of_pixel_ne (s : State) (x y n : Fin 16) {rows : List UInt8} {px py : Nat}
    (hrows : ∀ r < n.val, s.memory.byteAt (s.I.toNat + r) = rows.getD r 0) (hpx : px < 64)
    (hpy : py < 32)
    (hne : (s.drawSequentially x y n).display.pixel px py ≠ s.display.pixel px py) :
    Sprite.lights rows ((s.reg x).toNat % 64) ((s.reg y).toNat % 32) n px py = true := by
  have htop : (s.reg y).toNat % 32 ≤ 32 := Nat.le_of_lt (Nat.mod_lt _ (by decide))
  rw [s.drawSequentially_eq x y n hrows,
    Sprite.pixel_draw htop (Nat.le_of_lt_succ n.isLt) hpx hpy] at hne
  apply eq_true_of_ne_false
  intro hdark
  rw [hdark, Bool.xor_false] at hne
  exact hne rfl

/-- The rows of a sprite are the first of the rows that are gathered. -/
theorem byteAt_eq_gather (s : State) (n : Fin 16) {r : Nat} (hr : r < n.val) :
    s.memory.byteAt (s.I.toNat + r) =
      (s.memory.gather s.I.toNat maxSpriteHeight).getD r 0 := by
  have hlt : r < maxSpriteHeight := Nat.lt_of_lt_of_le hr (Nat.le_of_lt_succ n.isLt)
  rw [List.getD_eq_getElem?_getD, Memory.getElem?_gather _ _ hlt, Option.getD_some]

/-- DXYN inside the memory notes nothing and draws what is gathered. -/
theorem execute_draw {s : State} (hs : s.latch.code = noFault) (x y n : Fin 16)
    (hrange : s.I.toNat + n ≤ 4096) :
    s.execute (wordOf 0xD x y n).toNat = .ok (s.drawSequentially x y n) := by
  have hcovers : Operation.draw.Covers (wordOf 0xD x y n) := first_wordOf ..
  have hz : Operation.draw.hazard? s (Operands.ofWord (wordOf 0xD x y n)) = none := by
    rw [Operation.hazard?, Operands.ofWord_wordOf_n, rangeHazard?_of_le hrange]
  rw [execute_of_covers hs hcovers hz, Operation.run, draw_eq, drawing, Operands.ofWord_wordOf_x,
    Operands.ofWord_wordOf_y, Operands.ofWord_wordOf_n, noteRange_latch_of_le hrange,
    s.drawSequentially_eq x y n fun _ hr => s.byteAt_eq_gather n hr]
  rfl

/-- **A drawing is the two loops of the instruction set.** A sprite inside the memory is drawn
by DXYN as `drawSequentially` draws it, bit by bit, with every part of the state the same. Of
the fifteen rows gathered, those behind the sprite make no difference, whatever is put in
their place; no pixel is changed but under the eight columns and the rows of the sprite, so
nothing wraps round an edge; and a sprite of no rows only clears VF. -/
theorem execute_draw_eq_sequential {s : State} (hs : s.latch.code = noFault) (x y n : Fin 16)
    (hrange : s.I.toNat + n ≤ 4096) :
    let left := (s.reg x).toNat % 64
    let top := (s.reg y).toNat % 32
    s.execute (wordOf 0xD x y n).toNat = .ok (s.drawSequentially x y n) ∧
      (∀ rows : List UInt8, (∀ r < n.val, s.memory.byteAt (s.I.toNat + r) = rows.getD r 0) →
        let d := Sprite.draw s.display rows left top n
        s.drawSequentially x y n = { s with
          V := (s.setReg flagRegister (if d.collision then 1 else 0)).V
          display := d.display
          displayChanged := s.displayChanged || d.toggled }) ∧
      (∀ px py, px < 64 → py < 32 →
        (s.drawSequentially x y n).display.pixel px py ≠ s.display.pixel px py →
          left ≤ px ∧ px < left + 8 ∧ top ≤ py ∧ py < top + n) ∧
      (n = 0 → s.drawSequentially x y n = s.setReg flagRegister 0) := by
  refine ⟨execute_draw hs x y n hrange, fun rows hrows => s.drawSequentially_eq x y n hrows,
    ?_, ?_⟩
  · intro px py hpx hpy hne
    have hlights := s.lights_of_pixel_ne x y n (fun _ hr => s.byteAt_eq_gather n hr) hpx hpy hne
    obtain ⟨⟨hleft, habove, hbelow⟩, -⟩ := Sprite.lights_iff.mp hlights
    exact ⟨hleft, Sprite.lt_of_lights hlights, habove, hbelow⟩
  · rintro rfl
    rfl

/-- Two rows of the glyph of 0 in the corner of the display, with X = F: VF is read as the
column before it is cleared, three columns and a row are cut off, and a pixel that was on
collides. -/
theorem draw_in_the_corner :
    let s : State := { ((fresh ⟨0, 0⟩).setReg 0x1 31).setReg 0xF 63 with
      I := 0x50
      display := Grid.blank.flip 63 31 }
    s.latch.code = noFault ∧ s.I.toNat + (0x2 : Fin 16) ≤ 4096 ∧
      ∃ t, s.execute 0xDF12 = .ok t ∧ t.display = Grid.blank ∧ t.reg flagRegister = 1 := by
  intro s
  obtain ⟨hexecute, -⟩ := execute_draw_eq_sequential (s := s) rfl 0xF 0x1 0x2 (by decide)
  exact ⟨rfl, by decide, _, hexecute, by decide +kernel, by decide +kernel⟩

end State
end ChipEight
