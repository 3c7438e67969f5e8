/-
Frames: displays as colours, row by row.

A frame has a row for every row of the display. It begins black and is painted twice,
through the pixels that are on and through those that are off. Then it is stretched by
a whole factor in both directions; a factor of one or less leaves it as it is. So the
pixel in column `X` of row `Y` shows the pixel of the display at `X / s` and `Y / s`.
-/
import ChipEight.Display.Grid
import ChipEight.Picture.Scheme

set_option autoImplicit false

namespace ChipEight

/-- Rows of colours, from the top. -/
abbrev Frame := List (List Color)

namespace Frame

/-- A frame of the size of the display, before anything is painted. -/
def black : Frame :=
  List.replicate 32 (List.replicate 64 ⟨0, 0, 0⟩)

/-- One colour wherever the mask is set, and the old one everywhere else. -/
def paint (mask : Nat → Nat → Bool) (c : Color) (f : Frame) : Frame :=
  f.mapIdx fun y row => row.mapIdx fun x old => if mask x y then c else old

/-- The colours of a display, one for each pixel. -/
def ofGrid (g : Grid) (colors : ColorScheme) : Frame :=
  (black.paint g.pixel colors.on).paint (fun x y => !g.pixel x y) colors.off

/-- Every entry so many times. -/
def repeatEach {α : Type} (times : Nat) (as : List α) : List α :=
  as.flatMap (List.replicate times)

/-- A frame stretched by a factor. -/
def stretch (factor : Int) (f : Frame) : Frame :=
  if 1 < factor then
    (repeatEach factor.toNat f).map (repeatEach factor.toNat)
  else f

/-- The picture of a display at a scale. -/
def render (g : Grid) (scale : Int) (colors : ColorScheme) : Frame :=
  (ofGrid g colors).stretch scale

/-- The picture of a display in two colours that are given by their components. -/
def renderIn (g : Grid) (scale : Int) (on off : List Int) : Except Error Frame := do
  let on ← Color.ofComponents on
  let off ← Color.ofComponents off
  return render g scale ⟨on, off⟩

/-- The width of the first row; every row of a picture has the same. -/
def width (f : Frame) : Nat :=
  match f with
  | [] => 0
  | row :: _ => row.length

/-- The height, in rows. -/
def height (f : Frame) : Nat := f.length

/-- The colour in a column of a row. -/
def at? (f : Frame) (x y : Nat) : Option Color :=
  (f[y]?.getD [])[x]?

/-- The colours in reading order. -/
def pixels (f : Frame) : List Color := f.flatten

/-- Rows as columns, or columns as rows, `count` of them. -/
def transpose (count : Nat) (lines : List (List Color)) : List (List Color) :=
  match count with
  | 0 => []
  | n + 1 => lines.filterMap List.head? :: transpose n (lines.map List.tail)

end Frame
end ChipEight
