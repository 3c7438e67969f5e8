/-
The display: 32 rows of 64 pixels, each on or off.

A row is sixty-four bits with the leftmost pixel first, so a whole row is flipped
by one exclusive or. `Grid.pixel` is the view of single pixels; two grids with the
same pixels are equal.
-/
set_option autoImplicit false

namespace ChipEight

/-- The rows of the display, from the top. -/
abbrev Grid := Vector (BitVec 64) 32

namespace Grid

/-- Every pixel off. -/
def blank : Grid :=
  Vector.replicate 32 0

/-- Is the pixel in column `x` of row `y` on? Off the display nothing is. -/
def pixel (g : Grid) (x y : Nat) : Bool :=
  (g.toArray.getD y 0).getMsbD x

/-- Two grids that agree on every pixel of the display are equal. -/
theorem ext_pixel {g h : Grid} (hp : ∀ x y, x < 64 → y < 32 → g.pixel x y = h.pixel x y) :
    g = h := by
  apply Vector.ext
  intro y hy
  apply BitVec.eq_of_getMsbD_eq
  intro x hx
  have hxy := hp x y hx hy
  simp only [pixel, Array.getD_eq_getD_getElem?] at hxy
  simpa [hy] using hxy

end Grid
end ChipEight
