/-
A drawing, pixel by pixel.

`Sprite.draw` works on whole rows: it shifts a byte into place, cuts it off at both edges and
flips by one exclusive or. `Sprite.lights` says of one pixel what that comes to, with no
shift, no clamp and no cut in it: the pixel is inside the rows of the sprite, and the bit
over it is set. Display, collision and change are then statements about pixels, and the rows
at the height of the sprite and below are in none of them.
-/
import ChipEight.Display.Sprite

set_option autoImplicit false

namespace ChipEight

/-! ## Rows and their pixels -/

namespace Grid

variable {g h : Grid} {x y : Nat}

/-- Two grids that differ do so in a pixel. -/
theorem ne_iff : g ≠ h ↔ ∃ x y, x < 64 ∧ y < 32 ∧ g.pixel x y ≠ h.pixel x y := by
  constructor
  · intro hne
    apply Classical.byContradiction
    intro hnone
    apply hne
    apply ext_pixel
    intro x y hx hy
    exact Decidable.byContradiction fun hxy => hnone ⟨x, y, hx, hy, hxy⟩
  · rintro ⟨x, y, -, -, hxy⟩ rfl
    exact hxy rfl

theorem pixel_of_lt (hy : y < 32) : g.pixel x y = g[y].getMsbD x := by
  rw [pixel, Array.getD_eq_getD_getElem?]
  simp [hy]

/-- A row is empty when no pixel of it is on. -/
theorem row_ne_zero_iff {r : BitVec 64} : r ≠ 0 ↔ ∃ x, x < 64 ∧ r.getMsbD x = true := by
  constructor
  · intro hne
    apply Decidable.byContradiction
    intro hnone
    apply hne
    apply BitVec.eq_of_getMsbD_eq
    intro x hx
    simpa using fun h => hnone ⟨x, hx, h⟩
  · rintro ⟨x, -, hbit⟩ rfl
    simp at hbit

/-- A grid has a pixel that is on where it has a row that is not empty. -/
theorem any_ne_zero_iff :
    (g.any fun r => decide (r ≠ 0)) = true ↔
      ∃ x y, x < 64 ∧ y < 32 ∧ g.pixel x y = true := by
  rw [Vector.any_eq_true]
  constructor
  · rintro ⟨y, hy, hrow⟩
    obtain ⟨x, hx, hbit⟩ := row_ne_zero_iff.mp (of_decide_eq_true hrow)
    exact ⟨x, y, hx, hy, (pixel_of_lt hy).trans hbit⟩
  · rintro ⟨x, y, hx, hy, hbit⟩
    refine ⟨y, hy, decide_eq_true (row_ne_zero_iff.mpr ⟨x, hx, ?_⟩)⟩
    rw [← pixel_of_lt hy, hbit]

theorem pixel_xor (hy : y < 32) :
    pixel (Vector.zipWith (· ^^^ ·) g h) x y = (g.pixel x y ^^ h.pixel x y) := by
  rw [pixel_of_lt hy, Vector.getElem_zipWith, BitVec.getMsbD_xor, pixel_of_lt hy, pixel_of_lt hy]

/-- Flipping the pixels of a grid changes something if one of them is on. -/
theorem xor_ne_iff :
    Vector.zipWith (· ^^^ ·) g h ≠ g ↔ (h.any fun r => decide (r ≠ 0)) = true := by
  rw [ne_iff, any_ne_zero_iff]
  refine exists_congr fun x => exists_congr fun y =>
    and_congr_right fun _ => and_congr_right fun hy => ?_
  rw [pixel_xor hy]
  cases g.pixel x y <;> simp

end Grid

/-! ## Sprites -/

namespace Sprite

/-- Is there a set bit of the sprite over the pixel in column `px` of row `py`? -/
def lights (rows : List UInt8) (x top height px py : Nat) : Bool :=
  decide (x ≤ px ∧ top ≤ py ∧ py < top + height) &&
    (rows.getD (py - top) 0).toBitVec.getMsbD (px - x)

variable {g : Grid} {rows rows' : List UInt8} {x top height px py : Nat}

theorem lights_iff :
    lights rows x top height px py = true ↔
      (x ≤ px ∧ top ≤ py ∧ py < top + height) ∧
        (rows.getD (py - top) 0).toBitVec.getMsbD (px - x) = true := by
  rw [lights, Bool.and_eq_true, decide_eq_true_eq]

/-- A sprite is eight columns wide. -/
theorem lt_of_lights (h : lights rows x top height px py = true) : px < x + 8 := by
  obtain ⟨-, hbit⟩ := lights_iff.mp h
  have hlt := BitVec.lt_of_getMsbD hbit
  omega

theorem lights_congr (h : ∀ k < height, rows.getD k 0 = rows'.getD k 0) :
    lights rows x top height px py = lights rows' x top height px py := by
  rw [lights, lights]
  by_cases hpy : x ≤ px ∧ top ≤ py ∧ py < top + height
  · rw [h (py - top) (by omega)]
  · rw [decide_eq_false hpy, Bool.false_and, Bool.false_and]

/-- A byte in its place, seen pixel by pixel. -/
theorem getMsbD_rowAt (b : UInt8) (hpx : px < 64) :
    (rowAt b x).getMsbD px = (decide (x ≤ px) && b.toBitVec.getMsbD (px - x)) := by
  have hx : ¬ (x : Int) < 0 := by omega
  have hshift : (min (x : Int) 64).toNat = min x 64 := by omega
  rw [rowAt, if_neg hx, hshift, BitVec.getMsbD_ushiftRight, BitVec.getMsbD_shiftLeft,
    BitVec.getMsbD_setWidth]
  by_cases hle : x ≤ px
  · have hmin : min x 64 = x := by omega
    have hbit : px - x + 56 + 8 - 64 = px - x := by omega
    simp [hmin, hbit, hpx, hle]
  · have hleft : px < min x 64 := by omega
    simp [hleft, hle]

/-- The lower edge does not wrap, and no row is clamped. -/
theorem getMsbD_flips (htop : top ≤ 32) (hheight : height ≤ maxSpriteHeight) (hpx : px < 64) :
    (flips rows x top height py).getMsbD px = lights rows x top height px py := by
  rw [maxSpriteHeight] at hheight
  have hedge : wrapLane ((top : Int) + height) = top + height :=
    wrapLane_of_fitsLane (fitsLane_iff.mpr (by omega))
  rw [flips, hedge, lights]
  by_cases hpy : top ≤ py ∧ py < top + height
  · have hrow : (clampInt 0 14 ((py : Int) - top)).toNat = py - top := by
      rw [clampInt]
      omega
    rw [if_pos (by omega), hrow, getMsbD_rowAt _ hpx]
    simp [hpy]
  · rw [if_neg (by omega)]
    simp [hpy]

/-- The rows of the display that a sprite flips. -/
def placed (rows : List UInt8) (x top height : Nat) : Grid :=
  Vector.ofFn fun (y : Fin 32) => flips rows x top height y

theorem draw_eq (g : Grid) (rows : List UInt8) (x top height : Nat) :
    draw g rows x top height =
      { display := Vector.zipWith (· ^^^ ·) g (placed rows x top height)
        collision := (Vector.zipWith (· &&& ·) g (placed rows x top height)).any
          fun r => decide (r ≠ 0)
        toggled := (placed rows x top height).any fun r => decide (r ≠ 0) } := rfl

section

variable {x top height : Int}

/-- A drawing reports a change exactly when the display is another one. -/
theorem toggled_iff_ne :
    (draw g rows x top height).toggled = true ↔ (draw g rows x top height).display ≠ g := by
  rw [draw]
  dsimp only
  -- The placed sprite is a grid like any other, and what it is made of is left folded.
  generalize (Vector.ofFn _ : Grid) = sprite
  exact Grid.xor_ne_iff.symm

theorem display_of_not_toggled (h : (draw g rows x top height).toggled = false) :
    (draw g rows x top height).display = g := by
  apply Decidable.byContradiction
  intro hne
  rw [toggled_iff_ne.mpr hne] at h
  cases h

end

section

variable (htop : top ≤ 32) (hheight : height ≤ maxSpriteHeight)
include htop hheight

theorem pixel_placed (hpx : px < 64) (hpy : py < 32) :
    (placed rows x top height).pixel px py = lights rows x top height px py := by
  rw [Grid.pixel_of_lt hpy, placed, Vector.getElem_ofFn, getMsbD_flips htop hheight hpx]

/-- **A drawing flips the pixels that the sprite lights**, and no others. -/
theorem pixel_draw (hpx : px < 64) (hpy : py < 32) :
    (draw g rows x top height).display.pixel px py =
      (g.pixel px py ^^ lights rows x top height px py) := by
  rw [← pixel_placed htop hheight hpx hpy]
  exact Grid.pixel_xor hpy

/-- It collides where such a pixel was on. -/
theorem collision_iff :
    (draw g rows x top height).collision = true ↔
      ∃ px py, px < 64 ∧ py < 32 ∧
        g.pixel px py = true ∧ lights rows x top height px py = true := by
  rw [draw_eq, Grid.any_ne_zero_iff]
  refine exists_congr fun px => exists_congr fun py =>
    and_congr_right fun hpx => and_congr_right fun hpy => ?_
  rw [← pixel_placed htop hheight hpx hpy, Grid.pixel_of_lt hpy, Vector.getElem_zipWith,
    BitVec.getMsbD_and, Bool.and_eq_true, Grid.pixel_of_lt hpy, Grid.pixel_of_lt hpy]

/-- And it changes the display when there is one. -/
theorem toggled_iff :
    (draw g rows x top height).toggled = true ↔
      ∃ px py, px < 64 ∧ py < 32 ∧ lights rows x top height px py = true := by
  rw [draw_eq, Grid.any_ne_zero_iff]
  refine exists_congr fun px => exists_congr fun py =>
    and_congr_right fun hpx => and_congr_right fun hpy => ?_
  rw [pixel_placed htop hheight hpx hpy]

/-- The rows of a sprite at its height and below are not drawn. -/
theorem draw_congr (h : ∀ k < height, rows.getD k 0 = rows'.getD k 0) :
    draw g rows x top height = draw g rows' x top height := by
  have hplaced : placed rows x top height = placed rows' x top height := by
    apply Grid.ext_pixel
    intro px py hpx hpy
    rw [pixel_placed htop hheight hpx hpy, pixel_placed htop hheight hpx hpy, lights_congr h]
  rw [draw_eq, draw_eq, hplaced]

end

end Sprite
end ChipEight
