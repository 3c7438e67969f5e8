/-
The window: a surface that shows the display, and a keyboard.

The sixteen keys of the keypad lie on the left of the keyboard, four by four.
Escape and closing the window quit, and F12 takes a screenshot. The window keeps
its pixels in columns, as a surface; a screenshot is rendered afresh from the last
display that was shown, by the name of the colour scheme.
-/
import ChipEight.Calendar
import ChipEight.Picture.Screenshot
import ChipEight.Schedule.Frontend

set_option autoImplicit false

namespace ChipEight

/-! ## The keyboard -/

/-- Something that happens at the window. -/
inductive WindowEvent where
  | keyDown (key : String)
  | keyUp (key : String)
  | close
  /-- Anything else, such as a move of the mouse. -/
  | other
  deriving DecidableEq

/-- The keys of the keyboard with their keys of the keypad, row by row. -/
def keyMap : List (String × Int) :=
  [("1", 0x1), ("2", 0x2), ("3", 0x3), ("4", 0xC),
    ("q", 0x4), ("w", 0x5), ("e", 0x6), ("r", 0xD),
    ("a", 0x7), ("s", 0x8), ("d", 0x9), ("f", 0xE),
    ("z", 0xA), ("x", 0x0), ("c", 0xB), ("v", 0xF)]

/-- The key of the keypad that a key of the keyboard stands for. -/
def keypadKey? (key : String) : Option Int :=
  (keyMap.find? fun e => e.1 == key).map (·.2)

namespace WindowEvent

/-- Does the event quit? -/
def quits : WindowEvent → Bool
  | close => true
  | keyDown key => key == "escape"
  | _ => false

/-- Does the event ask for a screenshot? -/
def takesScreenshot : WindowEvent → Bool
  | keyDown key => key == "f12"
  | _ => false

/-- What the event asks of a run. -/
def request? : WindowEvent → Option Request
  | close => some .quit
  | keyDown key => if key == "escape" then some .quit else (keypadKey? key).map .press
  | keyUp key => (keypadKey? key).map .release
  | other => none

end WindowEvent

/-- The requests of a list of events. -/
def requestsOf (events : List WindowEvent) : List Request :=
  events.filterMap WindowEvent.request?

/-! ## The surface -/

/-- Columns of colours, from the left. -/
abbrev Surface := List (List Color)

namespace Surface

/-- A surface of one colour. -/
def filled (width height : Nat) (c : Color) : Surface :=
  List.replicate width (List.replicate height c)

/-- The surface that shows a frame. -/
def ofFrame (f : Frame) : Surface :=
  Frame.transpose f.width f

/-- The pixels in rows. -/
def toFrame (s : Surface) : Frame :=
  Frame.transpose (Frame.width s) s

/-- The beginning of a list overwritten by another one. -/
def overwrite {α : Type} (write : α → α → α) : List α → List α → List α
  | old :: olds, new :: news => write old new :: overwrite write olds news
  | olds, [] => olds
  | [], _ => []

/-- Draws a surface over another one from the top left corner; what does not fit is cut off. -/
def blit (target source : Surface) : Surface :=
  overwrite (overwrite fun _ new => new) target source

/-- The colour in a column, at a height from the top. -/
def at? (s : Surface) (x y : Nat) : Option Color :=
  (s[x]?.getD [])[y]?

end Surface

/-! ## The window -/

/-- An open window. -/
structure Window where
  scale : Int
  scheme : String
  /-- The colours of the scheme when the window was opened. -/
  colors : ColorScheme
  screen : Surface
  /-- The display that was shown last. -/
  lastDisplay : Grid

/-- What a poll of the window leads to. -/
structure WindowPoll where
  machine : Machine
  running : Bool
  shots : List Screenshot

namespace Window

/-- Opens a window, blank in the colour of the pixels that are off. -/
def create (scale : Int) (scheme : String) : Except Error Window := do
  let colors ← ColorScheme.named scheme
  return { scale := scale, scheme := scheme, colors := colors
           screen := Surface.filled (64 * scale).toNat (32 * scale).toNat colors.off
           lastDisplay := Grid.blank }

/-- Shows a display. -/
def render (w : Window) (g : Grid) : Window :=
  { w with
    lastDisplay := g
    screen := w.screen.blit (Surface.ofFrame (Frame.render g w.scale w.colors)) }

/-- The name of a screenshot taken at a time, in seconds since the start of 1970. -/
def screenshotName (epoch : Int) : String :=
  "octet_" ++ (CalendarTime.ofSeconds epoch).stamp ++ ".png"

/-- Takes a screenshot of what was shown last. -/
def screenshot (w : Window) (formats : PictureFormats) (epoch : Int) :
    Except Error Screenshot :=
  Screenshot.take formats w.lastDisplay (screenshotName epoch) w.scale w.scheme

/-- Serves events in order, up to the one that quits. -/
def poll (w : Window) (formats : PictureFormats) (epoch : Int) (events : List WindowEvent)
    (m : Machine) : Except Error WindowPoll := do
  let served := events.takeWhile fun e => !e.quits
  let shots ← (served.filter WindowEvent.takesScreenshot).mapM fun _ =>
    w.screenshot formats epoch
  let polled := m.serve false (requestsOf events)
  match polled.verdict with
  | .failed e => throw e
  | .quit => return ⟨polled.machine, false, shots⟩
  | .goOn => return ⟨polled.machine, true, shots⟩

/-- The notice of a screenshot. -/
def shotNotice (s : Screenshot) : Notice := .pictureSaved s.file

end Window
end ChipEight
