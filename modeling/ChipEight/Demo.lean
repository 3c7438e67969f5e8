/-
The demo: a program that draws the sixteen digits, run without a clock.

It draws the digits in two rows of eight, by a loop that calls a subroutine for the
second row, and then spins. The picture is written to a file.
-/
import ChipEight.Picture.Screenshot
import ChipEight.Schedule.Headless

set_option autoImplicit false

namespace ChipEight.Demo

/-- The words of the program, from the start address on. -/
def words : List UInt16 :=
  [0x6000, -- 200: V0 is the digit
    0x6101, -- 202: V1 is the column
    0x6201, -- 204: V2 is the row
    0xF029, -- 206: the index is at the glyph
    0xD125, -- 208: draw its five rows
    0x7106, -- 20A: move on by six columns
    0x7001, -- 20C: the next digit
    0x4008, -- 20E: at the eighth one
    0x2218, -- 210: call 218
    0x3010, -- 212: unless it was the last one
    0x1206, -- 214: go on
    0x1216, -- 216: spin
    0x6101, -- 218: back to the first column
    0x7208, -- 21A: eight rows down
    0x00EE] -- 21C: return

/-- The program, the high byte of each word first. -/
def program : List UInt8 :=
  words.flatMap fun (w : UInt16) => [(w >>> 8).toUInt8, w.toUInt8]

/-- How many instructions are carried out. -/
def instructions : Int := 500

/-- What the demo reports, and its picture. -/
structure Result where
  notices : List Notice
  shot : Screenshot

/-- Runs the demo, which takes `span` seconds, and writes the picture under a name. -/
def run (formats : PictureFormats) (span : Float) (file : String) : Except Error Result := do
  let (m, loaded) ← Machine.create program 0
  let (m, report, reported) := m.runHeadless instructions Machine.instructionsPerTick span
  let report ← report
  let shot ← Screenshot.take formats m.state.display file 8 "octet"
  return { notices := loaded ++ reported ++
             [.registers "DEBUG" m.state, report.notice, .message "INFO" ("Saved " ++ file)]
           shot := shot }

end ChipEight.Demo
