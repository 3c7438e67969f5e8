/-
Rendering, pixel by pixel.

A frame is painted through a mask and its complement, then stretched by repeating its rows
and the entries of each. `Frame.Shows` says what comes of it in terms of single pixels:
every pixel of the display fills one square of the frame, in the colour it has. This holds
of the frame before it is stretched with squares of one pixel, because a mask and its
complement leave nothing of what was below (`at?_paint_paint_not`), and stretching makes the
squares larger; that entry `i` of a list whose entries are repeated `n` times is entry
`i / n` of the list is the one fact about lists behind it.

The corners of the squares are enough to read the display back. They are found from the
height of the frame alone, so a reader needs no scale, and for a screenshot no scheme
either: no colour that is off in one scheme is on in another.
-/
import ChipEight.Picture.Screenshot
import ChipEight.Proofs.Success

set_option autoImplicit false

namespace ChipEight

/-! ## Displays from their pixels -/

namespace Grid

/-- The display whose pixels are on where the function says so. -/
def ofPixels (p : Nat → Nat → Bool) : Grid :=
  Vector.ofFn fun y : Fin 32 =>
    (BitVec.ofBoolListBE ((List.range 64).map fun x => p x y)).cast (by simp)

theorem pixel_ofPixels (p : Nat → Nat → Bool) {x y : Nat} (hx : x < 64) (hy : y < 32) :
    (ofPixels p).pixel x y = p x y := by
  simp [ofPixels, pixel, hx, hy]

/-- One pixel is on. -/
def single (column row : Nat) : Grid :=
  ofPixels fun x y => x == column && y == row

end Grid

/-! ## Repeated entries -/

namespace Frame

section Repeated

variable {α : Type} {times : Nat} {as : List α}

theorem length_repeatEach : (repeatEach times as).length = as.length * times := by
  simp [repeatEach, List.length_flatMap, List.map_const']

theorem mem_of_mem_repeatEach {a : α} (h : a ∈ repeatEach times as) : a ∈ as := by
  obtain ⟨b, hb, ha⟩ := List.mem_flatMap.mp h
  rwa [List.eq_of_mem_replicate ha]

/-- **The entry of a list with repetitions** is found by dividing. -/
theorem getElem?_repeatEach (htimes : 0 < times) (i : Nat) :
    (repeatEach times as)[i]? = as[i / times]? := by
  induction as generalizing i with
  | nil => simp [repeatEach]
  | cons a as ih =>
    rw [repeatEach, List.flatMap_cons, List.getElem?_append, List.length_replicate]
    -- the repetitions of `a` come first, and passing over them takes one off the quotient
    by_cases hi : i < times
    · rw [if_pos hi, Nat.div_eq_of_lt hi]
      simp [hi]
    · have hdiv : i / times = (i - times) / times + 1 :=
        Nat.div_eq_sub_div htimes (Nat.le_of_not_lt hi)
      rw [if_neg hi, hdiv, List.getElem?_cons_succ]
      exact ih (i - times)

theorem repeatEach_one : repeatEach 1 as = as := by
  apply List.ext_getElem?
  intro i
  rw [getElem?_repeatEach Nat.one_pos, Nat.div_one]

end Repeated

/-! ## Stretched frames -/

variable {f : Frame} {g : Grid} {colors : ColorScheme}

/-- A factor that stretches nothing is a factor of one. -/
theorem stretch_eq (factor : Int) (f : Frame) :
    f.stretch factor =
      (repeatEach (max factor 1).toNat f).map (repeatEach (max factor 1).toNat) := by
  rw [stretch]
  by_cases h : 1 < factor
  · rw [if_pos h, Int.max_eq_left (Int.le_of_lt h)]
  · have hrow : repeatEach (α := Color) 1 = id := funext fun _ => repeatEach_one
    rw [if_neg h, Int.max_eq_right (Int.not_lt.mp h)]
    simp [repeatEach_one, hrow]

theorem at?_stretch (factor : Int) (f : Frame) (x y : Nat) :
    (f.stretch factor).at? x y =
      f.at? (x / (max factor 1).toNat) (y / (max factor 1).toNat) := by
  have hpos : 0 < (max factor 1).toNat := by omega
  rw [stretch_eq, at?, at?, List.getElem?_map, getElem?_repeatEach hpos]
  cases f[y / (max factor 1).toNat]? with
  | none => simp
  | some row => exact getElem?_repeatEach hpos x

/-! ## Painting through masks -/

section Paint

variable {mask : Nat → Nat → Bool} {c : Color} {x y : Nat}

theorem height_paint : (f.paint mask c).height = f.height := by
  simp [height, paint]

theorem exists_row_of_mem_paint {row : List Color} (h : row ∈ f.paint mask c) :
    ∃ old ∈ f, row.length = old.length := by
  obtain ⟨y, hy, rfl⟩ := List.mem_mapIdx.mp h
  exact ⟨f[y], List.getElem_mem hy, List.length_mapIdx⟩

theorem at?_paint :
    (f.paint mask c).at? x y = (f.at? x y).map fun old => if mask x y then c else old := by
  rw [at?, at?, paint, List.getElem?_mapIdx]
  cases f[y]? <;> simp

/-- **A mask and its complement paint everything**: nothing is left of the frame below. -/
theorem at?_paint_paint_not {on off old : Color} (h : f.at? x y = some old) :
    ((f.paint mask on).paint (fun x y => !mask x y) off).at? x y =
      some (if mask x y then on else off) := by
  rw [at?_paint, at?_paint, h]
  cases mask x y <;> rfl

theorem at?_black (hx : x < 64) (hy : y < 32) : black.at? x y = some ⟨0, 0, 0⟩ := by
  rw [at?, black, List.getElem?_replicate_of_lt hy, Option.getD_some,
    List.getElem?_replicate_of_lt hx]

end Paint

/-! ## What a frame shows -/

/-- The frame shows a display, each pixel of it as a square so many pixels wide. -/
structure Shows (f : Frame) (g : Grid) (side : Nat) (colors : ColorScheme) : Prop where
  height_eq : f.height = 32 * side
  length_row : ∀ row ∈ f, row.length = 64 * side
  at?_eq : ∀ x y, x < 64 * side → y < 32 * side →
    f.at? x y = some (if g.pixel (x / side) (y / side) then colors.on else colors.off)

/-- **A painted frame** shows its display in squares of one pixel. -/
theorem shows_ofGrid (g : Grid) (colors : ColorScheme) :
    (ofGrid g colors).Shows g 1 colors where
  height_eq := by rw [ofGrid, height_paint, height_paint, height, black, List.length_replicate]
  length_row := by
    intro row hrow
    -- below a row that was painted twice there is a black one of the same length
    obtain ⟨once, honce, hlength⟩ := exists_row_of_mem_paint hrow
    obtain ⟨below, hbelow, hlength'⟩ := exists_row_of_mem_paint honce
    rw [hlength, hlength', List.eq_of_mem_replicate hbelow, List.length_replicate]
  at?_eq := by
    intro x y hx hy
    rw [Nat.mul_one] at hx hy
    rw [ofGrid, at?_paint_paint_not (at?_black hx hy), Nat.div_one, Nat.div_one]

/-- Stretching makes the squares larger. -/
theorem Shows.stretch (h : f.Shows g 1 colors) (factor : Int) :
    (f.stretch factor).Shows g (max factor 1).toNat colors where
  height_eq := by
    have hheight : f.length = 32 * 1 := h.height_eq
    rw [height, stretch_eq, List.length_map, length_repeatEach, hheight]
  length_row := by
    intro row hrow
    rw [stretch_eq] at hrow
    obtain ⟨narrow, hnarrow, rfl⟩ := List.mem_map.mp hrow
    rw [length_repeatEach, h.length_row narrow (mem_of_mem_repeatEach hnarrow)]
  at?_eq := by
    intro x y hx hy
    -- the pixel is inside the frame that was stretched
    have hx' : x / (max factor 1).toNat < 64 * 1 := Nat.div_lt_of_lt_mul (by omega)
    have hy' : y / (max factor 1).toNat < 32 * 1 := Nat.div_lt_of_lt_mul (by omega)
    rw [at?_stretch, h.at?_eq _ _ hx' hy', Nat.div_one, Nat.div_one]

/-- **A picture shows its display** in squares as wide as the scale, or one pixel wide. -/
theorem shows_render (g : Grid) (scale : Int) (colors : ColorScheme) :
    (render g scale colors).Shows g (max scale 1).toNat colors :=
  (shows_ofGrid g colors).stretch scale

/-! ## Reading a display back -/

/-- The display that a frame shows, read at the corners of its squares; the function says
which colours are on. -/
def readGrid (lit : Color → Bool) (f : Frame) : Grid :=
  Grid.ofPixels fun x y => (f.at? (f.height / 32 * x) (f.height / 32 * y)).any lit

/-- **A display is recovered** from any frame that shows it. -/
theorem Shows.readGrid_eq {side : Nat} {lit : Color → Bool} (h : f.Shows g side colors)
    (hside : 0 < side) (hon : lit colors.on = true) (hoff : lit colors.off = false) :
    f.readGrid lit = g := by
  have hsquare : f.height / 32 = side := by
    rw [h.height_eq, Nat.mul_div_cancel_left side (by decide)]
  apply Grid.ext_pixel
  intro x y hx hy
  -- the corner of the square is a pixel of the frame, and lies in no other square
  have hcorner := h.at?_eq (side * x) (side * y)
    (by rw [Nat.mul_comm 64]; exact Nat.mul_lt_mul_of_pos_left hx hside)
    (by rw [Nat.mul_comm 32]; exact Nat.mul_lt_mul_of_pos_left hy hside)
  rw [readGrid, Grid.pixel_ofPixels _ hx hy, hsquare, hcorner,
    Nat.mul_div_cancel_left x hside, Nat.mul_div_cancel_left y hside, Option.any_some]
  cases g.pixel x y
  · exact hoff
  · exact hon

theorem readGrid_render {lit : Color → Bool} (g : Grid) (scale : Int)
    (hon : lit colors.on = true) (hoff : lit colors.off = false) :
    (render g scale colors).readGrid lit = g :=
  (shows_render g scale colors).readGrid_eq (by omega) hon hoff

end Frame

/-! ## Colours and schemes -/

namespace Color

theorem component_eq_ok_iff {n : Int} {u : UInt8} : component n = .ok u ↔ n = u.toNat := by
  rw [component]
  constructor
  · intro h
    by_cases hn : 0 ≤ n ∧ n < 256
    · rw [if_pos hn] at h
      cases h
      rw [UInt8.toNat_ofNat']
      omega
    · rw [if_neg hn] at h
      cases h
  · rintro rfl
    have hu := u.toNat_lt
    rw [if_pos (by omega), Int.toNat_natCast, UInt8.ofNat_toNat]

theorem exists_component {n : Int} (h : 0 ≤ n ∧ n < 256) : ∃ u, component n = .ok u :=
  ⟨_, if_pos h⟩

/-- The three components of a colour. -/
def components (c : Color) : List Int :=
  [(c.red.toNat : Int), (c.green.toNat : Int), (c.blue.toNat : Int)]

/-- A colour is found from its components, and has them. -/
theorem ofComponents_eq_ok_iff {r g b : Int} {c : Color} :
    ofComponents [r, g, b] = .ok c ↔ c.components = [r, g, b] := by
  rw [ofComponents, bind_eq_ok_iff]
  simp only [List.mapM_cons, List.mapM_nil, bind_eq_ok_iff, component_eq_ok_iff, pure,
    Except.pure, Except.ok.injEq]
  constructor
  · rintro ⟨_, ⟨red, rfl, _, ⟨green, rfl, _, ⟨blue, rfl, _, rfl, rfl⟩, rfl⟩, rfl⟩, hc⟩
    cases hc
    rfl
  · intro h
    cases h
    exact ⟨_, ⟨_, rfl, _, ⟨_, rfl, _, ⟨_, rfl, _, rfl, rfl⟩, rfl⟩, rfl⟩, rfl⟩

/-- **The colours are the triples of numbers from 0 to 255.** -/
theorem exists_ofComponents {ns : List Int} (hlength : ns.length = 3)
    (hbytes : ∀ n ∈ ns, 0 ≤ n ∧ n < 256) :
    ∃ c : Color, ofComponents ns = .ok c ∧ c.components = ns := by
  match ns, hlength with
  | [r, g, b], _ =>
    obtain ⟨red, hred⟩ := exists_component (hbytes r (by simp))
    obtain ⟨green, hgreen⟩ := exists_component (hbytes g (by simp))
    obtain ⟨blue, hblue⟩ := exists_component (hbytes b (by simp))
    have hcomponents : (⟨red, green, blue⟩ : Color).components = [r, g, b] := by
      rw [components, component_eq_ok_iff.mp hred, component_eq_ok_iff.mp hgreen,
        component_eq_ok_iff.mp hblue]
    exact ⟨_, ofComponents_eq_ok_iff.mpr hcomponents, hcomponents⟩

end Color

namespace ColorScheme

/-- Is the colour that of the pixels that are on, in one of the schemes? -/
def lit (c : Color) : Bool :=
  all.any fun scheme => scheme.2.on == c

/-- **No colour that is off in a scheme is on in another.** -/
theorem lit_of_mem : ∀ scheme ∈ all, lit scheme.2.on = true ∧ lit scheme.2.off = false := by
  decide

theorem mem_of_named {name : String} {colors : ColorScheme} (h : named name = .ok colors) :
    (name, colors) ∈ all := by
  rw [named] at h
  cases hfind : all.find? fun s => s.1 == name with
  | none => simp [hfind] at h
  | some scheme =>
    simp only [hfind, Except.ok.injEq] at h
    have hname : scheme.1 = name := by simpa using List.find?_some hfind
    rw [← hname, ← h]
    exact List.mem_of_find?_eq_some hfind

theorem named_of_mem : ∀ scheme ∈ all, named scheme.1 = .ok scheme.2 := by
  simp [all, named]

end ColorScheme

/-! ## Screenshots -/

namespace Screenshot

variable {formats : PictureFormats} {g : Grid} {file name : String} {scale : Int}

/-- **The screenshots that are taken**: pictures in the colours of a scheme, for the files
whose ending stands for a format. -/
theorem take_eq_ok_iff {shot : Screenshot} :
    take formats g file scale name = .ok shot ↔
      (ending file).toLower ∈ formats.endings ∧ ∃ colors,
        ColorScheme.named name = .ok colors ∧
        shot = ⟨file, Frame.render g scale colors⟩ := by
  rw [take, bind_eq_ok_iff]
  constructor
  · rintro ⟨colors, hnamed, h⟩
    by_cases hformat : (ending file).toLower ∈ formats.endings
    · rw [if_pos hformat] at h
      cases h
      exact ⟨hformat, colors, hnamed, rfl⟩
    · rw [if_neg hformat] at h
      cases h
  · rintro ⟨hformat, colors, hnamed, rfl⟩
    refine ⟨colors, hnamed, ?_⟩
    rw [if_pos hformat]
    rfl

/-- **A display is recovered** from any screenshot of it, whatever its scale and scheme. -/
theorem readGrid_of_take {shot : Screenshot}
    (h : take formats g file scale name = .ok shot) :
    shot.picture.readGrid ColorScheme.lit = g := by
  obtain ⟨-, colors, hnamed, rfl⟩ := take_eq_ok_iff.mp h
  obtain ⟨hon, hoff⟩ := ColorScheme.lit_of_mem _ (ColorScheme.mem_of_named hnamed)
  exact Frame.readGrid_render g scale hon hoff

end Screenshot

/-! ## Exactness -/

/-- **Rendering is exact and loses nothing.** Any two triples of numbers from 0 to 255 are the
colours of a picture, and it shows its display in squares as wide as the scale. If its two
colours differ, the display can be read from the picture, so that no other display has the
same picture, at this scale or at another one. Screenshots are these pictures in the colours
of their scheme, and every one of them can be read without knowing its scale and its scheme;
whatever formats there are, a name that ends in ".png" is never refused. -/
theorem Frame.rendering_exact :
    (∀ (g : Grid) (scale : Int) (on off : List Int), on.length = 3 → off.length = 3 →
      (∀ n ∈ on ++ off, 0 ≤ n ∧ n < 256) →
      ∃ colors : ColorScheme, colors.on.components = on ∧ colors.off.components = off ∧
        renderIn g scale on off = .ok (render g scale colors)) ∧
    (∀ (g : Grid) (scale : Int) (colors : ColorScheme),
      (render g scale colors).Shows g (max scale 1).toNat colors) ∧
    (∀ (g : Grid) (scale : Int) (colors : ColorScheme), colors.on ≠ colors.off →
      (render g scale colors).readGrid (· == colors.on) = g ∧
      ∀ (h : Grid) (other : Int), render g scale colors = render h other colors → g = h) ∧
    ∀ scheme ∈ ColorScheme.all, ∀ (formats : PictureFormats) (g : Grid) (file : String)
        (scale : Int),
      ((Screenshot.ending file).toLower = ".png" ∨
          (Screenshot.ending file).toLower ∈ formats.endings →
        Screenshot.take formats g file scale scheme.1 = .ok ⟨file, render g scale scheme.2⟩) ∧
      ∀ shot, Screenshot.take formats g file scale scheme.1 = .ok shot →
        shot.picture = render g scale scheme.2 ∧
        shot.picture.readGrid ColorScheme.lit = g := by
  refine ⟨?_, shows_render, ?_, ?_⟩
  · intro g scale on off hon hoff hbytes
    have hbyte := List.forall_mem_append.mp hbytes
    obtain ⟨lit, hlit, hlitComponents⟩ := Color.exists_ofComponents hon hbyte.1
    obtain ⟨dark, hdark, hdarkComponents⟩ := Color.exists_ofComponents hoff hbyte.2
    refine ⟨⟨lit, dark⟩, hlitComponents, hdarkComponents, ?_⟩
    rw [renderIn, hlit, hdark]
    rfl
  · intro g scale colors hcolors
    have hread (g : Grid) (scale : Int) :
        (render g scale colors).readGrid (· == colors.on) = g := by
      apply readGrid_render
      · exact beq_self_eq_true colors.on
      · exact beq_false_of_ne hcolors.symm
    refine ⟨hread g scale, ?_⟩
    -- what is read depends on the picture only, not on the scale it was made at
    intro h other heq
    rw [← hread g scale, heq, hread h other]
  · intro scheme hmem formats g file scale
    have hnamed := ColorScheme.named_of_mem scheme hmem
    constructor
    · rintro (hpng | hformat)
      · have hformat : (Screenshot.ending file).toLower ∈ formats.endings := by
          rw [hpng]
          exact formats.png_mem
        exact Screenshot.take_eq_ok_iff.mpr ⟨hformat, scheme.2, hnamed, rfl⟩
      · exact Screenshot.take_eq_ok_iff.mpr ⟨hformat, scheme.2, hnamed, rfl⟩
    · intro shot htaken
      obtain ⟨-, colors, hcolors, hshot⟩ := Screenshot.take_eq_ok_iff.mp htaken
      have hsame : scheme.2 = colors := Except.ok.inj (hnamed.symm.trans hcolors)
      exact ⟨by rw [hshot, hsame], Screenshot.readGrid_of_take htaken⟩

/-- A single pixel, twice as wide in green on black: where column and row are taken for each
other there is none, and the display is read back from the picture and from a file. -/
theorem Frame.single_pixel_rendered :
    (∃ colors : ColorScheme, colors.on.components = [0, 255, 0] ∧
      renderIn (.single 10 3) 2 [0, 255, 0] [0, 0, 0] =
        .ok (render (.single 10 3) 2 colors)) ∧
    (render (.single 10 3) 2 ⟨⟨0, 255, 0⟩, ⟨0, 0, 0⟩⟩).at? 21 7 = some ⟨0, 255, 0⟩ ∧
    (render (.single 10 3) 2 ⟨⟨0, 255, 0⟩, ⟨0, 0, 0⟩⟩).at? 7 21 = some ⟨0, 0, 0⟩ ∧
    (render (.single 10 3) 2 ⟨⟨0, 255, 0⟩, ⟨0, 0, 0⟩⟩).readGrid (· == ⟨0, 255, 0⟩) =
      .single 10 3 ∧
    ∃ shot, Screenshot.take .onlyPng (.single 10 3) "shot.PNG" 2 "classic" = .ok shot ∧
      shot.picture.readGrid ColorScheme.lit = .single 10 3 := by
  obtain ⟨haccepted, hshows, hread, hshots⟩ := rendering_exact
  obtain ⟨colors, hgreen, -, hrendered⟩ :=
    haccepted (.single 10 3) 2 [0, 255, 0] [0, 0, 0] rfl rfl (by decide)
  have hpicture := hshows (.single 10 3) 2 ⟨⟨0, 255, 0⟩, ⟨0, 0, 0⟩⟩
  have hpictureRead := (hread (.single 10 3) 2 ⟨⟨0, 255, 0⟩, ⟨0, 0, 0⟩⟩ (by decide)).1
  have hon : (Grid.single 10 3).pixel 10 3 = true :=
    Grid.pixel_ofPixels _ (by decide) (by decide)
  have hoff : (Grid.single 10 3).pixel 3 10 ≠ true :=
    ne_true_of_eq_false (Grid.pixel_ofPixels _ (by decide) (by decide))
  obtain ⟨htake, hback⟩ := hshots ("classic", ⟨⟨0, 255, 0⟩, ⟨0, 0, 0⟩⟩) (by decide)
    .onlyPng (.single 10 3) "shot.PNG" 2
  have htaken := htake (.inl (by decide +kernel))
  refine ⟨⟨colors, hgreen, hrendered⟩, ?_, ?_, hpictureRead, _, htaken, (hback _ htaken).2⟩
  · rw [hpicture.at?_eq 21 7 (by decide) (by decide)]
    exact congrArg some (if_pos hon)
  · rw [hpicture.at?_eq 7 21 (by decide) (by decide)]
    exact congrArg some (if_neg hoff)

end ChipEight
