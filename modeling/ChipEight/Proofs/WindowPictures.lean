/-
A screenshot is what the window shows.

The window and its screenshots are drawn apart. The window is filled with one colour when it
opens, and from then on overwritten with frames that are turned from rows into columns, in
the colours it was opened with. A screenshot is rendered from the display that the window
remembers, and looks its colours up again by their name. `Window.Faithful` is what keeps the
two together: the surface has the pixels of the frame that a screenshot would have now.

It holds of a window that was just opened, because a blank display has no pixel in the other
colour, and every request keeps it. A surface is read from its columns by `Surface.at?` and a
frame from its rows by `Frame.at?`, so turning a frame changes neither (`at?_ofFrame`).
-/
import ChipEight.Proofs.Keyboard
import ChipEight.Proofs.Rendering
import Mathlib.Algebra.GroupWithZero.Nat

set_option autoImplicit false

namespace ChipEight

/-! ## Turning rows into columns -/

/-- Where a function is defined on all entries, none is left out. -/
theorem getElem?_filterMap_of_isSome {α β : Type} {f : α → Option β} {as : List α}
    (h : ∀ a ∈ as, (f a).isSome) (i : Nat) : (as.filterMap f)[i]? = as[i]?.bind f := by
  induction as generalizing i with
  | nil => simp
  | cons a as ih =>
    obtain ⟨b, hb⟩ := Option.isSome_iff_exists.mp (h a List.mem_cons_self)
    rw [List.filterMap_cons_some hb]
    cases i with
    | zero => simp [hb]
    | succ i => simpa using ih (fun c hc => h c (List.mem_cons_of_mem _ hc)) i

namespace Frame

/-- The frame has rows of one length. -/
def Rectangular (f : Frame) : Prop := ∀ row ∈ f, row.length = f.width

/-- Column by column, with the entries that there are. -/
theorem transpose_eq (count : Nat) (lines : List (List Color)) :
    transpose count lines = (List.range count).map fun x => lines.filterMap (·[x]?) := by
  induction count generalizing lines with
  | zero => rfl
  | succ n ih =>
    have hhead : lines.filterMap List.head? = lines.filterMap (·[0]?) :=
      congrArg (lines.filterMap ·) (funext fun row => List.head?_eq_getElem?)
    rw [transpose, ih, List.range_succ_eq_map, List.map_cons, hhead, List.map_map]
    simp [List.filterMap_map, Function.comp_def]

theorem Rectangular.getElem?_isSome {f : Frame} (h : f.Rectangular) {x : Nat}
    (hx : x < f.width) : ∀ row ∈ f, (row[x]?).isSome := by
  intro row hrow
  rw [List.getElem?_eq_getElem (by rw [h row hrow]; exact hx)]
  rfl

end Frame

namespace Surface

/-- The surface has the size and the pixels of a frame. -/
structure Mirrors (s : Surface) (f : Frame) : Prop where
  length_eq : s.length = f.width
  length_column : ∀ column ∈ s, column.length = f.height
  at?_eq : ∀ x y, x < f.width → y < f.height → s.at? x y = f.at? x y

variable {s : Surface} {f : Frame}

/-- **The surface of a frame** has its pixels. -/
theorem at?_ofFrame (h : f.Rectangular) {x : Nat} (hx : x < f.width) (y : Nat) :
    (ofFrame f).at? x y = f.at? x y := by
  rw [at?, Frame.at?, ofFrame, Frame.transpose_eq, List.getElem?_map, List.getElem?_range hx,
    Option.map_some, Option.getD_some, getElem?_filterMap_of_isSome (h.getElem?_isSome hx)]
  cases f[y]? with
  | none => simp
  | some row => rfl

theorem mirrors_ofFrame (h : f.Rectangular) : (ofFrame f).Mirrors f where
  length_eq := by rw [ofFrame, Frame.transpose_eq, List.length_map, List.length_range]
  length_column := by
    intro column hcolumn
    rw [ofFrame, Frame.transpose_eq] at hcolumn
    obtain ⟨x, hx, rfl⟩ := List.mem_map.mp hcolumn
    exact List.filterMap_length_eq_length.mpr
      (h.getElem?_isSome (List.mem_range.mp hx))
  at?_eq := fun _ y hx _ => at?_ofFrame h hx y

/-! ## Drawing over a surface -/

/-- Nothing is left of a list that is overwritten in its whole length. -/
theorem overwrite_eq {α : Type} {write : α → α → α} {olds news : List α}
    (hlength : olds.length = news.length)
    (hwrite : ∀ old ∈ olds, ∀ new ∈ news, write old new = new) :
    overwrite write olds news = news := by
  induction olds generalizing news with
  | nil =>
    obtain rfl := List.length_eq_zero_iff.mp hlength.symm
    rfl
  | cons old olds ih =>
    cases news with
    | nil => cases hlength
    | cons new news =>
      rw [overwrite, hwrite old List.mem_cons_self new List.mem_cons_self, ih]
      · simpa using hlength
      · intro o ho n hn
        exact hwrite o (List.mem_cons_of_mem _ ho) n (List.mem_cons_of_mem _ hn)

/-- **A surface of the same size** is overwritten by what is drawn on it. -/
theorem blit_eq {source : Surface} {height : Nat} (hlength : s.length = source.length)
    (hs : ∀ column ∈ s, column.length = height)
    (hsource : ∀ column ∈ source, column.length = height) : s.blit source = source := by
  apply overwrite_eq hlength
  intro old hold new hnew
  apply overwrite_eq
  · rw [hs old hold, hsource new hnew]
  · intro _ _ _ _
    rfl

theorem Mirrors.blit (h : s.Mirrors f) {g : Frame} (hg : g.Rectangular)
    (hwidth : f.width = g.width) (hheight : f.height = g.height) :
    (s.blit (ofFrame g)).Mirrors g := by
  have hsource := mirrors_ofFrame hg
  have hblit : s.blit (ofFrame g) = ofFrame g := by
    apply blit_eq
    · rw [h.length_eq, hsource.length_eq, hwidth]
    · exact h.length_column
    · rw [hheight]
      exact hsource.length_column
  rw [hblit]
  exact hsource

end Surface

/-! ## The sizes of pictures -/

namespace Frame

variable {f : Frame} {g : Grid} {side : Nat} {colors : ColorScheme}

theorem Shows.width_eq (h : f.Shows g side colors) (hside : 0 < side) : f.width = 64 * side := by
  have hheight : f.length = 32 * side := h.height_eq
  cases f with
  | nil =>
    rw [List.length_nil] at hheight
    omega
  | cons row rows => exact h.length_row row List.mem_cons_self

theorem Shows.rectangular (h : f.Shows g side colors) (hside : 0 < side) : f.Rectangular := by
  intro row hrow
  rw [h.length_row row hrow, h.width_eq hside]

/-- The picture of a display at a scale that is at least one. -/
theorem shows_render_of_pos {scale : Int} (hscale : 1 ≤ scale) (g : Grid)
    (colors : ColorScheme) : (render g scale colors).Shows g scale.toNat colors := by
  have hshows := shows_render g scale colors
  rwa [Int.max_eq_left hscale] at hshows

end Frame

theorem Grid.pixel_blank (x y : Nat) : Grid.blank.pixel x y = false := by
  by_cases hy : y < 32
  · simp [Grid.pixel, Grid.blank, hy]
  · simp [Grid.pixel, Grid.blank, hy]

/-- **A surface of one colour** is the picture of a blank display. -/
theorem Surface.mirrors_filled {scale : Int} (hscale : 1 ≤ scale) (colors : ColorScheme) :
    (filled (64 * scale).toNat (32 * scale).toNat colors.off).Mirrors
      (Frame.render Grid.blank scale colors) := by
  have hshows := Frame.shows_render_of_pos hscale Grid.blank colors
  have hwidth := hshows.width_eq (by omega)
  have hheight := hshows.height_eq
  refine ⟨?_, ?_, ?_⟩
  · rw [filled, List.length_replicate]
    omega
  · intro column hcolumn
    rw [List.eq_of_mem_replicate hcolumn, List.length_replicate]
    omega
  · intro x y hx hy
    -- no pixel of a blank display is on
    rw [hshows.at?_eq x y (by omega) (by omega), Grid.pixel_blank, at?, filled,
      List.getElem?_replicate_of_lt (by omega), Option.getD_some,
      List.getElem?_replicate_of_lt (by omega)]
    rfl

/-! ## Windows in use -/

/-- What a window is asked for. -/
inductive WindowRequest where
  | render (picture : Grid)
  | poll (epoch : Int) (events : List WindowEvent) (m : Machine)
  | screenshot (epoch : Int)

/-- How many screenshots a request asks for. -/
def WindowRequest.shots : WindowRequest → Nat
  | render _ => 0
  | poll _ events _ => ((served events).filter WindowEvent.takesScreenshot).length
  | screenshot _ => 1

/-- A screenshot, and what was in the window when it was taken. -/
structure Taken where
  shot : Screenshot
  screen : Surface

/-- The screenshot has the size of a window at a scale, and the pixels that were in it. -/
structure Taken.Agrees (t : Taken) (scale : Int) : Prop where
  width_eq : t.shot.picture.width = 64 * scale
  height_eq : t.shot.picture.height = 32 * scale
  length_row : ∀ row ∈ t.shot.picture, (row.length : Int) = 64 * scale
  at?_eq : ∀ x y : Nat, x < 64 * scale → y < 32 * scale →
    ∃ c, t.shot.picture.at? x y = some c ∧ t.screen.at? x y = some c

namespace Window

/-- Requests in turn: the window behind them, and the screenshots taken on the way. -/
def serve (w : Window) (formats : PictureFormats) :
    List WindowRequest → Except Error (Window × List Taken)
  | [] => .ok (w, [])
  | .render picture :: requests => (w.render picture).serve formats requests
  | .poll epoch events m :: requests => do
    let p ← w.poll formats epoch events m
    let (v, taken) ← w.serve formats requests
    return (v, p.shots.map (⟨·, w.screen⟩) ++ taken)
  | .screenshot epoch :: requests => do
    let shot ← w.screenshot formats epoch
    let (v, taken) ← w.serve formats requests
    return (v, ⟨shot, w.screen⟩ :: taken)

/-- The window shows the picture of the display that it remembers. -/
structure Faithful (w : Window) : Prop where
  opened : w.Opened
  scale_pos : 1 ≤ w.scale
  mirrors : w.screen.Mirrors (Frame.render w.lastDisplay w.scale w.colors)

variable {w : Window} {formats : PictureFormats}

/-- A window opens with every scheme there is. -/
theorem create_of_mem {entry : String × ColorScheme} (h : entry ∈ ColorScheme.all)
    (scale : Int) :
    create scale entry.1 =
      .ok { scale := scale, scheme := entry.1, colors := entry.2
            screen := Surface.filled (64 * scale).toNat (32 * scale).toNat entry.2.off
            lastDisplay := Grid.blank } := by
  rw [create, ColorScheme.named_of_mem entry h]
  rfl

/-- Before anything is shown it remembers a blank display, and is blank. -/
theorem faithful_of_create {scale : Int} {scheme : String} (hscale : 1 ≤ scale)
    (h : create scale scheme = .ok w) : w.Faithful := by
  have hopened := opened_of_create h
  unfold create at h
  obtain ⟨colors, -, hw⟩ := bind_eq_ok_iff.mp h
  cases hw
  exact ⟨hopened, hscale, Surface.mirrors_filled hscale colors⟩

theorem Faithful.shows (h : w.Faithful) :
    (Frame.render w.lastDisplay w.scale w.colors).Shows w.lastDisplay w.scale.toNat w.colors :=
  Frame.shows_render_of_pos h.scale_pos w.lastDisplay w.colors

/-- Showing a display changes the window and what it remembers together. -/
theorem Faithful.render (h : w.Faithful) (g : Grid) : (w.render g).Faithful where
  opened := h.opened.render g
  scale_pos := h.scale_pos
  mirrors := by
    have hpos : 0 < w.scale.toNat := by
      have := h.scale_pos
      omega
    have hnext := Frame.shows_render_of_pos h.scale_pos g w.colors
    apply h.mirrors.blit (hnext.rectangular hpos)
    · rw [h.shows.width_eq hpos, hnext.width_eq hpos]
    · rw [h.shows.height_eq, hnext.height_eq]

/-- **A screenshot of a faithful window** agrees with it. -/
theorem Faithful.agrees (h : w.Faithful) (file : String) :
    Taken.Agrees ⟨⟨file, Frame.render w.lastDisplay w.scale w.colors⟩, w.screen⟩ w.scale := by
  have hscale := h.scale_pos
  have hwidth := h.shows.width_eq (by omega)
  have hheight := h.shows.height_eq
  refine ⟨by dsimp only; omega, by dsimp only; omega, ?_, ?_⟩
  · intro row hrow
    have hrow := h.shows.length_row row hrow
    omega
  · intro x y hx hy
    have hpixel := h.shows.at?_eq x y (by omega) (by omega)
    refine ⟨_, hpixel, ?_⟩
    rw [h.mirrors.at?_eq x y (by omega) (by omega), hpixel]

theorem Faithful.screenshot (h : w.Faithful) (epoch : Int) :
    ∃ shot, w.screenshot formats epoch = .ok shot ∧
      Taken.Agrees ⟨shot, w.screen⟩ w.scale :=
  ⟨_, h.opened.screenshot_eq formats epoch, h.agrees _⟩

/-- A poll takes a screenshot for every event before the first one that quits and asks for
it; the window does not change meanwhile. -/
theorem Faithful.poll (h : w.Faithful) (epoch : Int) (events : List WindowEvent)
    (m : Machine) :
    ∃ p, w.poll formats epoch events m = .ok p ∧
      p.shots.length = (WindowRequest.poll epoch events m).shots ∧
      ∀ shot ∈ p.shots, Taken.Agrees ⟨shot, w.screen⟩ w.scale := by
  refine ⟨_, h.opened.poll_eq formats epoch events m, List.length_map _, ?_⟩
  intro shot hshot
  obtain ⟨-, -, rfl⟩ := List.mem_map.mp hshot
  exact h.agrees _

/-- **Requests in turn** are all served, and every screenshot that they ask for agrees with
the window as it was then. -/
theorem Faithful.serve (h : w.Faithful) (requests : List WindowRequest) :
    ∃ v taken, w.serve formats requests = .ok (v, taken) ∧
      taken.length = (requests.map WindowRequest.shots).sum ∧
      ∀ t ∈ taken, t.Agrees w.scale := by
  -- a picture that is shown changes the window for the requests behind it, but not its scale
  induction requests generalizing w with
  | nil => exact ⟨w, [], rfl, rfl, by simp⟩
  | cons r requests ih =>
    cases r with
    | render picture =>
      obtain ⟨v, taken, hserve, hlength, hagrees⟩ := ih (h.render picture)
      refine ⟨v, taken, hserve, ?_, hagrees⟩
      rw [hlength, List.map_cons, List.sum_cons, WindowRequest.shots, Nat.zero_add]
    | poll epoch events m =>
      obtain ⟨v, taken, hserve, hlength, hagrees⟩ := ih h
      obtain ⟨p, hpoll, hcount, hshots⟩ := h.poll epoch events m
      refine ⟨v, p.shots.map (⟨·, w.screen⟩) ++ taken, ?_, ?_, ?_⟩
      · rw [Window.serve, hpoll, hserve]
        rfl
      · rw [List.length_append, List.length_map, hcount, hlength, List.map_cons, List.sum_cons]
      · intro t ht
        rcases List.mem_append.mp ht with ht | ht
        · obtain ⟨shot, hshot, rfl⟩ := List.mem_map.mp ht
          exact hshots shot hshot
        · exact hagrees t ht
    | screenshot epoch =>
      obtain ⟨v, taken, hserve, hlength, hagrees⟩ := ih h
      obtain ⟨shot, hshot, hagree⟩ := h.screenshot epoch
      refine ⟨v, ⟨shot, w.screen⟩ :: taken, ?_, ?_, ?_⟩
      · rw [Window.serve, hshot, hserve]
        rfl
      · rw [List.length_cons, hlength, List.map_cons, List.sum_cons, WindowRequest.shots,
          Nat.add_comm]
      · intro t ht
        rcases List.mem_cons.mp ht with rfl | ht
        · exact hagree
        · exact hagrees t ht

/-- **A screenshot is what the window shows.** A window can be opened with every scheme
there is, at every scale from one on. Displays shown, polls and screenshots in any order all
succeed, also before anything was shown, and whatever formats there are besides PNG; every
screenshot that is asked for is taken; and each has the size of the window and, pixel by
pixel, what was in it at that moment. -/
theorem screenshots_show_the_window {scale : Int} {scheme : String} (hscale : 1 ≤ scale)
    (hscheme : scheme ∈ ColorScheme.names) (formats : PictureFormats)
    (requests : List WindowRequest) :
    ∃ w v taken, create scale scheme = .ok w ∧ w.serve formats requests = .ok (v, taken) ∧
      taken.length = (requests.map WindowRequest.shots).sum ∧
      ∀ t ∈ taken, t.Agrees scale := by
  obtain ⟨entry, hentry, rfl⟩ := List.mem_map.mp hscheme
  have hcreate := create_of_mem hentry scale
  obtain ⟨v, taken, hserve, hlength, hagrees⟩ :=
    (faithful_of_create hscale hcreate).serve requests
  exact ⟨_, v, taken, hcreate, hserve, hlength, hagrees⟩

/-- A screenshot before anything is shown, one by key of a single pixel, none for the key
that is pressed behind escape, and one after the window went blank again. -/
theorem three_screenshots_in_amber :
    let requests : List WindowRequest :=
      [.screenshot 0, .render (Grid.single 10 3),
        .poll 5 [.keyDown "f12", .keyDown "escape", .keyDown "f12"]
          (Machine.booted 0 ⟨0, 0⟩ [0x12, 0x00]),
        .render Grid.blank, .screenshot 5]
    ∃ w v taken, create 2 "amber" = .ok w ∧ w.serve .onlyPng requests = .ok (v, taken) ∧
      taken.length = 3 ∧ ∀ t ∈ taken, t.Agrees 2 := by
  intro requests
  have hscale : (1 : Int) ≤ 2 := by decide
  have hscheme : "amber" ∈ ColorScheme.names := by decide
  obtain ⟨w, v, taken, hw, hserve, hlength, hagrees⟩ :=
    screenshots_show_the_window hscale hscheme .onlyPng requests
  exact ⟨w, v, taken, hw, hserve, hlength, hagrees⟩

end Window
end ChipEight
