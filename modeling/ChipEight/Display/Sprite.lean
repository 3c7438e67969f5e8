/-
Drawing a sprite: eight columns wide, up to fifteen rows high, one byte a row.

A sprite flips the pixels under its set bits. What would lie beside or below the
display is cut off; nothing wraps round an edge. `Drawing.collision` says whether
a pixel that was on went off, `Drawing.toggled` whether any pixel changed.

The place and the height are lanes: the lower edge `y + height` is formed there,
and one that no lane can hold has wrapped to a negative number, above every row.
-/
import ChipEight.Display.Grid
import ChipEight.Lane
import ChipEight.Error

set_option autoImplicit false

namespace ChipEight

/-- The most rows a sprite has. -/
def maxSpriteHeight : Nat := 15

/-- A grid after drawing, and what the drawing did to it. -/
structure Drawing where
  display : Grid
  /-- Some pixel went off. -/
  collision : Bool
  /-- Some pixel changed. -/
  toggled : Bool
  deriving DecidableEq

namespace Sprite

/-- A byte as a row of the display, its first bit in column `x`, cut off at both edges. -/
def rowAt (b : UInt8) (x : Int) : BitVec 64 :=
  let row : BitVec 64 := b.toBitVec.setWidth 64 <<< 56
  if x < 0 then row <<< (min (-x) 64).toNat else row >>> (min x 64).toNat

/-- What a sprite flips in row `y` of the display. -/
def flips (rows : List UInt8) (x top height : Int) (y : Nat) : BitVec 64 :=
  if top ≤ y ∧ (y : Int) < wrapLane (top + height) then
    rowAt (rows.getD (clampInt 0 14 (y - top)).toNat 0) x
  else 0

/-- Draws a sprite with its top left corner at column `x` of row `top`. -/
def draw (g : Grid) (rows : List UInt8) (x top height : Int) : Drawing :=
  let sprite : Grid := Vector.ofFn fun (y : Fin 32) => flips rows x top height y
  { display := Vector.zipWith (· ^^^ ·) g sprite
    collision := (Vector.zipWith (· &&& ·) g sprite).any fun r => decide (r ≠ 0)
    toggled := sprite.any fun r => decide (r ≠ 0) }

/-- `draw` for numbers that come from outside and have to fit a lane. -/
def drawLane (g : Grid) (rows : List UInt8) (x top height : Int) : Except Error Drawing :=
  if fitsLane x && fitsLane top && fitsLane height then .ok (draw g rows x top height)
  else .error .numberRange

end Sprite
end ChipEight
