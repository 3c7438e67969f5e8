/-
Drawings, one on the other.

A drawing flips the pixels that its sprite lights, and which ones these are does not depend on
the display. So a sprite drawn twice is not there, and the order of two sprites makes no
difference. `PlacedSprite` is what one drawing is given: some rows, a corner on the display and
a height, each in its range, so that no later statement has to ask for it.

Collision and change are said of the displays before and after a drawing, with no sprite in
the statement. For DXYN the sprite is in the memory and its corner in two registers
(`State.sprite`); it is the same when the word is carried out once more, unless VF is one of
the two.
-/
import ChipEight.Proofs.SequentialDrawing

set_option autoImplicit false

namespace ChipEight

/-- Some pixel of the display is `before` on one grid and `after` on the other. -/
def Grid.Turns (g h : Grid) (before after : Bool) : Prop :=
  ∃ px py, px < 64 ∧ py < 32 ∧ g.pixel px py = before ∧ h.pixel px py = after

/-- A sprite with its top left corner on the display. -/
structure PlacedSprite where
  rows : List UInt8
  left : Fin 64
  top : Fin 32
  height : Fin 16

namespace PlacedSprite

variable (p q : PlacedSprite) (g : Grid) {px py : Nat}

/-- The sprite drawn on a display. -/
def on : Drawing :=
  Sprite.draw g p.rows (p.left : Nat) (p.top : Nat) (p.height : Nat)

/-- The pixels that it flips, whatever is on the display. -/
def lights (px py : Nat) : Bool :=
  Sprite.lights p.rows p.left p.top p.height px py

/-- Some set bit of the sprite is not cut off. -/
def Visible : Prop :=
  ∃ r b : Nat, r < p.height ∧ b < 8 ∧ p.top + r < 32 ∧ p.left + b < 64 ∧
    (p.rows.getD r 0).toBitVec.getMsbD b = true

theorem top_le : p.top.val ≤ 32 := Nat.le_of_lt p.top.isLt

theorem height_le : p.height.val ≤ maxSpriteHeight := Nat.le_of_lt_succ p.height.isLt

theorem pixel_on (hpx : px < 64) (hpy : py < 32) :
    (p.on g).display.pixel px py = (g.pixel px py ^^ p.lights px py) :=
  Sprite.pixel_draw p.top_le p.height_le hpx hpy

/-- From outside the corner and the height are plain integers. Those of a sprite on the
display are never refused. -/
theorem drawLane_eq :
    Sprite.drawLane g p.rows (p.left : Nat) (p.top : Nat) (p.height : Nat) = .ok (p.on g) := by
  have hleft : fitsLane (p.left : Nat) = true := fitsLane_of_le (by omega)
  have htop : fitsLane (p.top : Nat) = true := fitsLane_of_le (by omega)
  have hheight : fitsLane (p.height : Nat) = true := fitsLane_of_le (by omega)
  rw [Sprite.drawLane, hleft, htop, hheight]
  rfl

/-- **Drawn twice, a sprite is not there.** -/
theorem on_on : (p.on (p.on g).display).display = g := by
  apply Grid.ext_pixel
  intro px py hpx hpy
  rw [pixel_on _ _ hpx hpy, pixel_on _ _ hpx hpy, Bool.xor_assoc, Bool.xor_self, Bool.xor_false]

/-- **Two sprites can be drawn in either order.** -/
theorem on_comm : (q.on (p.on g).display).display = (p.on (q.on g).display).display := by
  apply Grid.ext_pixel
  intro px py hpx hpy
  rw [pixel_on _ _ hpx hpy, pixel_on _ _ hpx hpy, pixel_on _ _ hpx hpy, pixel_on _ _ hpx hpy,
    Bool.xor_right_comm]

/-- A collision is a pixel that goes off. -/
theorem collision_iff_turns :
    (p.on g).collision = true ↔ g.Turns (p.on g).display true false := by
  refine (Sprite.collision_iff p.top_le p.height_le).trans ?_
  refine exists_congr fun px => exists_congr fun py =>
    and_congr_right fun hpx => and_congr_right fun hpy => and_congr_right fun hon => ?_
  rw [pixel_on _ _ hpx hpy, hon, Bool.true_xor, Bool.not_eq_false']
  rfl

/-- And at the second drawing one that the first has turned on. -/
theorem collision_again_iff :
    (p.on (p.on g).display).collision = true ↔ g.Turns (p.on g).display false true := by
  -- What the second drawing comes to is the grid itself.
  rw [collision_iff_turns, on_on]
  refine exists_congr fun px => exists_congr fun py =>
    and_congr_right fun _ => and_congr_right fun _ => and_comm

/-- Whether there is a change depends on the sprite alone. -/
theorem toggled_iff_visible : (p.on g).toggled = true ↔ p.Visible := by
  refine (Sprite.toggled_iff p.top_le p.height_le).trans ?_
  constructor
  · rintro ⟨px, py, hpx, hpy, hlights⟩
    obtain ⟨⟨hleft, habove, hbelow⟩, hbit⟩ := Sprite.lights_iff.mp hlights
    exact ⟨py - p.top, px - p.left, by omega, BitVec.lt_of_getMsbD hbit, by omega, by omega, hbit⟩
  · rintro ⟨r, b, hr, -, htop, hleft, hbit⟩
    refine ⟨p.left + b, p.top + r, hleft, htop, Sprite.lights_iff.mpr ⟨by omega, ?_⟩⟩
    rw [Nat.add_sub_cancel_left, Nat.add_sub_cancel_left]
    exact hbit

end PlacedSprite

namespace State

variable {s : State} {x y n : Fin 16}

/-- The sprite of DXYN. -/
def sprite (s : State) (x y n : Fin 16) : PlacedSprite where
  rows := s.memory.gather s.I.toNat maxSpriteHeight
  left := ⟨(s.reg x).toNat % 64, Nat.mod_lt _ (by decide)⟩
  top := ⟨(s.reg y).toNat % 32, Nat.mod_lt _ (by decide)⟩
  height := n

/-- Is a set bit of the sprite of DXYN on the display? It is looked for in the memory. -/
def SpriteVisible (s : State) (x y n : Fin 16) : Prop :=
  ∃ r b : Nat, r < n ∧ b < 8 ∧ (s.reg y).toNat % 32 + r < 32 ∧ (s.reg x).toNat % 64 + b < 64 ∧
    (s.memory.byteAt (s.I.toNat + r)).toBitVec.getMsbD b = true

theorem visible_sprite_iff : (s.sprite x y n).Visible ↔ s.SpriteVisible x y n := by
  refine exists_congr fun r => exists_congr fun b => and_congr_right fun hr => ?_
  rw [s.byteAt_eq_gather n hr]
  rfl

/-- A state with the sprite of DXYN drawn. -/
def drawn (s : State) (x y n : Fin 16) : State :=
  let d := (s.sprite x y n).on s.display
  { s with
    V := (s.setReg flagRegister (if d.collision then 1 else 0)).V
    display := d.display
    displayChanged := s.displayChanged || d.toggled }

theorem execute_drawn (hs : s.latch.code = noFault) (hrange : s.I.toNat + n ≤ 4096) :
    s.execute (wordOf 0xD x y n).toNat = .ok (s.drawn x y n) := by
  rw [execute_draw hs x y n hrange,
    s.drawSequentially_eq x y n fun _ hr => s.byteAt_eq_gather n hr]
  rfl

theorem displayChanged_drawn :
    (s.drawn x y n).displayChanged = true ↔
      s.displayChanged = true ∨ s.SpriteVisible x y n := by
  rw [drawn, Bool.or_eq_true, PlacedSprite.toggled_iff_visible, visible_sprite_iff]

/-- A drawing leaves the sprite in the memory, and its corner in any registers but VF. -/
theorem sprite_drawn (hx : x ≠ flagRegister) (hy : y ≠ flagRegister) :
    (s.drawn x y n).sprite x y n = s.sprite x y n := by
  -- VF is the one register that a drawing writes, and it may be what places the next one.
  have hkept : ∀ {r}, r ≠ flagRegister → (s.drawn x y n).reg r = s.reg r :=
    fun hr => reg_setReg_of_ne hr _
  simp only [sprite, hkept hx, hkept hy]
  rfl

theorem displayChanged_drawn_drawn (hx : x ≠ flagRegister) (hy : y ≠ flagRegister) :
    ((s.drawn x y n).drawn x y n).displayChanged = (s.drawn x y n).displayChanged := by
  rw [Bool.eq_iff_iff, displayChanged_drawn, ← visible_sprite_iff, sprite_drawn hx hy,
    visible_sprite_iff, displayChanged_drawn, or_assoc, or_self]

/-- **DXYN carried out twice** restores the display. -/
theorem display_drawn_drawn (hx : x ≠ flagRegister) (hy : y ≠ flagRegister) :
    ((s.drawn x y n).drawn x y n).display = s.display := by
  have hagain : ((s.drawn x y n).drawn x y n).display =
      (((s.drawn x y n).sprite x y n).on (s.drawn x y n).display).display := rfl
  rw [hagain, sprite_drawn hx hy]
  exact (s.sprite x y n).on_on s.display

end State

/-- **Drawings are an action by exclusive or.** On any display, a sprite with its corner there
is drawn and never refused; drawn twice it is not there, and the second drawing collides if
the first has turned a pixel on; two sprites can be drawn in either order; a drawing reports a
change if the display is another one, and a collision if a pixel went off. So DXYN, carried
out twice with its corner in registers other than VF, restores the display, and the display
is marked changed if it was so before or a set bit of the sprite is visible. -/
theorem drawings_form_an_action :
    (∀ (g : Grid) (p q : PlacedSprite),
      Sprite.drawLane g p.rows (p.left : Nat) (p.top : Nat) (p.height : Nat) = .ok (p.on g) ∧
      (p.on (p.on g).display).display = g ∧
      ((p.on (p.on g).display).collision = true ↔ g.Turns (p.on g).display false true) ∧
      (q.on (p.on g).display).display = (p.on (q.on g).display).display ∧
      ((p.on g).toggled = true ↔ (p.on g).display ≠ g) ∧
      ((p.on g).collision = true ↔ g.Turns (p.on g).display true false)) ∧
    ∀ (s : State) (x y n : Fin 16), s.latch.code = noFault → s.I.toNat + n ≤ 4096 →
      x ≠ flagRegister → y ≠ flagRegister →
      ∃ t, s.execute (wordOf 0xD x y n).toNat = .ok t ∧
        (t.displayChanged = true ↔ s.displayChanged = true ∨ s.SpriteVisible x y n) ∧
        ∃ u, t.execute (wordOf 0xD x y n).toNat = .ok u ∧ u.display = s.display ∧
          u.displayChanged = t.displayChanged := by
  constructor
  · intro g p q
    exact ⟨p.drawLane_eq g, p.on_on g, p.collision_again_iff g, p.on_comm q g,
      Sprite.toggled_iff_ne, p.collision_iff_turns g⟩
  · intro s x y n hs hrange hx hy
    exact ⟨s.drawn x y n, State.execute_drawn hs hrange, State.displayChanged_drawn,
      (s.drawn x y n).drawn x y n, State.execute_drawn hs hrange,
      State.display_drawn_drawn hx hy, State.displayChanged_drawn_drawn hx hy⟩

/-- Of the glyph of 0 two pixels are on the display, and one of them was on: the display is
changed, and the second drawing changes it back. -/
theorem glyph_drawn_twice :
    let s : State := { ((State.fresh ⟨0, 0⟩).setReg 0x1 62).setReg 0x2 31 with
      I := 0x50
      display := Grid.blank.flip 63 31 }
    ∃ t u : State, s.execute 0xD125 = .ok t ∧ t.displayChanged = true ∧
      t.execute 0xD125 = .ok u ∧ u.display = s.display := by
  intro s
  obtain ⟨-, hdraw⟩ := drawings_form_an_action
  obtain ⟨t, hfirst, hchanged, u, hsecond, hback, -⟩ :=
    hdraw s 0x1 0x2 0x5 rfl (by decide) (by decide) (by decide)
  have hvisible : s.SpriteVisible 0x1 0x2 0x5 :=
    ⟨0, 0, by decide, by decide, by decide, by decide, by decide +kernel⟩
  exact ⟨t, u, hfirst, hchanged.mpr (.inr hvisible), hsecond, hback⟩

end ChipEight
