/-
References between settings.

A text may refer to a setting by its name between a dollar sign with a brace and a
closing brace. A text that is one reference and nothing else has the value of that
setting; in any other text the value's text is put in its place. A backslash before
the dollar sign takes its meaning away, and of backslashes before a reference two
stand for one.
-/
import ChipEight.Error
import ChipEight.Text.Numeral

set_option autoImplicit false

namespace ChipEight

/-- A part of a text with references. -/
inductive Piece where
  | literal (s : String)
  | reference (name : String)
  /-- A reference to something else than a setting. -/
  | foreign
  deriving DecidableEq

namespace Piece

/-- Does a reference start somewhere in the text, plain or with its meaning taken away? -/
def occurIn : List Char → Bool
  | '$' :: '\x7b' :: _ => true
  | _ :: cs => occurIn cs
  | [] => false

/-- A character that a name may hold. -/
def isNameChar (c : Char) : Bool :=
  !(c == '\\' || c == '\x7b' || c == '\x7d' || c == '(' || c == ')' || c == '[' || c == ']'
    || c == ':' || c == ' ' || c == '\t' || c == '\'' || c == '"' || c == '$')

/-- A space or a tab. -/
def isSpace (c : Char) : Bool := c == ' ' || c == '\t'

/-- Reads the rest of a reference behind its opening brace: the name, up to the closing
brace. A point before the name says that it is looked up among the settings themselves,
where every name is. -/
def readName (cs : List Char) : Except Error (Piece × List Char) :=
  let cs := cs.dropWhile isSpace
  let cs := match cs with
    | '.' :: rest => rest
    | _ => cs
  let name := cs.takeWhile isNameChar
  match (cs.drop name.length).dropWhile isSpace with
  | '\x7d' :: rest =>
    if name.isEmpty then .error .malformedReference
    else .ok (reference (String.ofList name), rest)
  | ':' :: rest =>
    match rest.dropWhile (· != '\x7d') with
    | _ :: rest => if name.isEmpty then .error .malformedReference else .ok (foreign, rest)
    | [] => .error .malformedReference
  | _ => .error .malformedReference

/-- Adds characters to the pieces read so far, the latest of which comes first. -/
def addText (cs : List Char) : List Piece → List Piece
  | literal s :: ps => literal (s ++ String.ofList cs) :: ps
  | ps => if cs.isEmpty then ps else literal (String.ofList cs) :: ps

/-- Reads pieces, the latest first, for as many characters as there may be. -/
def readAll : Nat → List Piece → List Char → Except Error (List Piece)
  | 0, ps, _ => .ok ps
  | _, ps, [] => .ok ps
  | fuel + 1, ps, c :: cs =>
    let slashes := (c :: cs).takeWhile (· == '\\')
    match (c :: cs).drop slashes.length with
    | '$' :: '\x7b' :: rest =>
      let kept := List.replicate (slashes.length / 2) '\\'
      if slashes.length % 2 = 1 then
        readAll fuel (addText (kept ++ ['$', '\x7b']) ps) rest
      else
        match readName rest with
        | .error e => .error e
        | .ok (piece, rest) => readAll fuel (piece :: addText kept ps) rest
    | rest =>
      if slashes.isEmpty then readAll fuel (addText [c] ps) cs
      else readAll fuel (addText slashes ps) rest

/-- The pieces of a text. -/
def ofText (s : String) : Except Error (List Piece) :=
  (readAll (s.length + 1) [] s.toList).map List.reverse

end Piece
end ChipEight
