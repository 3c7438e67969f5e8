/-
Screenshots: pictures that are written to a file.

The ending of the file's name decides the format, and a name whose ending stands for
none is refused. Which endings do is a table of whoever writes pictures,
`PictureFormats`. A screenshot is the picture that is handed over to be written; PNG
keeps every pixel of it, and not every format does.
-/
import ChipEight.Picture.Frame

set_option autoImplicit false

namespace ChipEight

/-- The endings of names, in small letters, that stand for a format a picture can be
written in. PNG is always among them. -/
structure PictureFormats where
  endings : List String
  png_mem : ".png" ∈ endings

/-- PNG and no other format. -/
def PictureFormats.onlyPng : PictureFormats :=
  ⟨[".png"], List.mem_singleton.mpr rfl⟩

/-- A picture under the name of its file. -/
structure Screenshot where
  file : String
  picture : Frame

namespace Screenshot

/-- The last part of a path. -/
def baseName (path : List Char) : List Char :=
  (path.reverse.takeWhile (· != '/')).reverse

/-- The ending of a file's name, from its last point on. Points at the start of the name
belong to the name. -/
def ending (file : String) : String :=
  let name := (baseName file.toList).dropWhile (· == '.')
  if name.contains '.' then
    String.ofList ('.' :: (name.reverse.takeWhile (· != '.')).reverse)
  else ""

/-- The picture of a display in the colours of a scheme, for a file. -/
def take (formats : PictureFormats) (g : Grid) (file : String) (scale : Int)
    (scheme : String) : Except Error Screenshot := do
  let colors ← ColorScheme.named scheme
  if (ending file).toLower ∈ formats.endings then
    return ⟨file, Frame.render g scale colors⟩
  else throw .pictureFormat

end Screenshot
end ChipEight
