/-
Overrides: settings on the command line.

An argument `name=value` gives an existing setting another value; with `+` in front
it adds one that is not there, with `++` it does either, and `~name` takes one away.
A value without quotes is read as what it looks like: nothing, a flag, a number, or
else a text. Commas outside of quotes and brackets list several values, which is of
no use for a single run.

All arguments are read before the first one is carried out, so an argument that
cannot be read decides over one that does not fit.
-/
import ChipEight.Settings.Merge

set_option autoImplicit false

namespace ChipEight

/-- One change to the settings. -/
inductive Override where
  /-- Replaces a setting that is there. -/
  | replace (name : String) (value : Given)
  /-- Adds a setting that is not there. -/
  | add (name : String) (value : Given)
  | addOrReplace (name : String) (value : Given)
  /-- Takes a setting away, if it has the value when one is told. -/
  | remove (name : String) (value : Option Given)
  /-- Asks for several runs. -/
  | sweep

namespace Override

/-! ## Reading values -/

/-- Without spaces and tabs at the ends. -/
def trim (cs : List Char) : List Char :=
  ((cs.dropWhile Piece.isSpace).reverse.dropWhile Piece.isSpace).reverse

/-- Characters that a text without quotes may hold. -/
def isPlain (c : Char) : Bool :=
  c.isAlphanum || "_-/\\+.$%*@?|: \t".contains c

/-- Characters that a backslash makes plain. -/
def isEscapable (c : Char) : Bool :=
  "\\()[]\x7b\x7d:=, \t".contains c

/-- Reads a text without quotes. `inside` says that a reference is open, which goes up to
its closing brace. -/
def readPlain (inside : Bool) : List Char → Option (List Char)
  | [] => if inside then none else some []
  | [c] => if inside then (if c == '\x7d' then some [c] else none)
    else if isPlain c then some [c] else none
  | c :: d :: cs =>
    if inside then
      if c == '\x7d' then (readPlain false (d :: cs)).map (c :: ·)
      else (readPlain true (d :: cs)).map (c :: ·)
    else if c == '\\' && isEscapable d then (readPlain false cs).map (d :: ·)
    else if c == '$' && d == '\x7b' then (readPlain true cs).map (c :: d :: ·)
    else if isPlain c then (readPlain false (d :: cs)).map (c :: ·)
    else none

/-- A whole numeral without superfluous zeros. -/
def readWhole (cs : List Char) : Option Int :=
  let (_, body) := Text.takeSign cs
  let wellFormed := match body with
    | ['0'] => true
    | c :: _ => c != '0'
    | [] => false
  if wellFormed then Text.readInteger (String.ofList cs) else none

/-- A numeral with a point or an exponent, or a word for a special double. -/
def readReal (cs : List Char) : Option Double :=
  let (_, body) := Text.takeSign cs
  let word := body.map Char.toLower
  if body.contains '.' || word.contains 'e' || word == "inf".toList || word == "nan".toList then
    Text.readFloat (String.ofList cs)
  else none

/-- A value without quotes. -/
def readBare (cs : List Char) : Option Given :=
  let word := String.ofList (cs.map Char.toLower)
  if word == "null" then some .absent
  else if word == "true" then some (.flag true)
  else if word == "false" then some (.flag false)
  else
    match readWhole cs with
    | some n => some (.whole n)
    | none =>
      match readReal cs with
      | some x => some (.real x)
      | none => (readPlain false cs).map fun t => .text (String.ofList t)

/-- Reads a quoted text behind its opening quote. Before a quote two backslashes stand for
one, and one takes the quote's meaning away. Nothing may follow the closing quote. -/
def readQuoted (quote : Char) (slashes : Nat) : List Char → Option (List Char)
  | [] => none
  | c :: cs =>
    if c == '\\' then readQuoted quote (slashes + 1) cs
    else if c == quote then
      if slashes % 2 = 0 then
        if cs.isEmpty then some (List.replicate (slashes / 2) '\\') else none
      else
        (readQuoted quote 0 cs).map fun t => List.replicate (slashes / 2) '\\' ++ c :: t
    else (readQuoted quote 0 cs).map fun t => List.replicate slashes '\\' ++ c :: t

/-- The words that stand for several values at once. -/
def sweepWords : List String := ["choice", "range", "interval", "glob", "shuffle"]

/-- One value among those that commas separate, or none where it asks for several. -/
def readElement (cs : List Char) : Except Error (Option Given) :=
  match cs with
  | '\'' :: rest | '"' :: rest =>
    match readQuoted (cs.headD '"') 0 rest with
    | some t => .ok (some (.text (String.ofList t)))
    | none => .error .malformedOverride
  | '[' :: _ =>
    if cs.getLast? == some ']' then .ok (some (.list [])) else .error .malformedOverride
  | '\x7b' :: _ =>
    if cs.getLast? == some '\x7d' then .ok (some (.record [])) else .error .malformedOverride
  | _ =>
    match readBare cs with
    | some v => .ok (some v)
    | none =>
      let word := String.ofList (cs.takeWhile (· != '('))
      if cs.getLast? == some ')' && sweepWords.contains word then .ok none
      else .error .malformedOverride

/-- Splits at the commas outside of quotes and brackets; nothing if those do not match.
`quote` is the open quote, `depth` counts the open brackets, `escaped` says that a
backslash stands before, and `current` holds the part being read, the latest first. -/
def splitAtCommas (quote : Option Char) (depth : Nat) (escaped : Bool) (current : List Char) :
    List Char → Option (List (List Char))
  | [] => if quote.isSome || depth != 0 then none else some [current.reverse]
  | c :: cs =>
    if escaped then splitAtCommas quote depth false (c :: current) cs
    else if c == '\\' then splitAtCommas quote depth true (c :: current) cs
    else
      match quote with
      | some q =>
        splitAtCommas (if c == q then none else quote) depth false (c :: current) cs
      | none =>
        if c == '\'' || c == '"' then splitAtCommas (some c) depth false (c :: current) cs
        else if c == '[' || c == '\x7b' || c == '(' then
          splitAtCommas none (depth + 1) false (c :: current) cs
        else if c == ']' || c == '\x7d' || c == ')' then
          if depth = 0 then none else splitAtCommas none (depth - 1) false (c :: current) cs
        else if c == ',' && depth == 0 then
          (splitAtCommas none 0 false [] cs).map (current.reverse :: ·)
        else splitAtCommas none depth false (c :: current) cs

/-- The value behind the sign of equality, or none where it asks for several runs. -/
def readValue (cs : List Char) : Except Error (Option Given) :=
  let cs := trim cs
  if cs.isEmpty then .ok (some (.text ""))
  else
    match splitAtCommas none 0 false [] cs with
    | none => .error .malformedOverride
    | some [element] => readElement (trim element)
    | some elements =>
      (elements.forM fun e =>
        if (trim e).isEmpty then .error .malformedOverride
        else (readElement (trim e)).map fun _ => ()).map fun _ => none

/-! ## Reading arguments -/

/-- Characters that a name may hold, with the signs that lead to settings of other programs. -/
def isNameChar (c : Char) : Bool :=
  c.isAlphanum || "_-$./@:".contains c

/-- A name, if it is one. -/
def readName (cs : List Char) : Except Error String :=
  if cs.isEmpty || !cs.all isNameChar then .error .malformedOverride
  else .ok (String.ofList cs)

/-- A change with the name and the value of an argument; the value is told after a sign of
equality. -/
def withValue (make : String → Given → Override) (cs : List Char) : Except Error Override := do
  let name := cs.takeWhile (· != '=')
  match cs.drop name.length with
  | [] => throw .malformedOverride
  | _ :: rest =>
    let name ← readName name
    match ← readValue rest with
    | some v => return make name v
    | none => return sweep

/-- Reads an argument. -/
def ofArgument (s : String) : Except Error Override :=
  match s.toList with
  | '+' :: '+' :: cs => withValue addOrReplace cs
  | '+' :: cs => withValue add cs
  | '~' :: cs =>
    if cs.contains '=' then withValue (fun name v => remove name (some v)) cs
    else (readName cs).map fun name => remove name none
  | cs => withValue replace cs

/-! ## Carrying changes out -/

/-- Are two single values the same? Numbers are compared as numbers. -/
def sameValue : Given → Given → Bool
  | .absent, .absent => true
  | .flag a, .flag b => a == b
  | .whole a, .whole b => a == b
  | .real a, .real b => a.toFloat == b.toFloat
  | .real a, .whole b => (Text.floatOfInt? b).any fun x => x == a.toFloat
  | .whole a, .real b => (Text.floatOfInt? a).any fun x => x == b.toFloat
  | .text a, .text b => a == b
  | _, _ => false

/-- Gives a name another value, in its place, or behind the others. -/
def putMember (name : String) (v : Given) (ms : List (String × Given)) :
    List (String × Given) :=
  if ms.any fun m => m.1 == name then
    ms.map fun m => if m.1 == name then (name, v) else m
  else ms ++ [(name, v)]

/-- Carries out one change. -/
def apply (ms : List (String × Given)) : Override → Except Error (List (String × Given))
  | replace name v =>
    if ms.any fun m => m.1 == name then .ok (putMember name v ms) else .error .misplacedOverride
  | add name v =>
    if ms.any fun m => m.1 == name then .error .misplacedOverride else .ok (putMember name v ms)
  | addOrReplace name v => .ok (putMember name v ms)
  | remove name expected =>
    match ms.find? fun m => m.1 == name with
    | none => .error .misplacedOverride
    | some m =>
      if expected.all fun v => sameValue m.2 v then .ok (ms.filter fun m => m.1 != name)
      else .error .misplacedOverride
  | sweep => .error .misplacedOverride

end Override

namespace Settings

/-- The settings by name, with their defaults. -/
def defaults : List (String × Given) :=
  Setting.all.map fun s => (s.name, ({} : Settings).value s)

/-- Refuses changes that ask for several runs. -/
def checkSingle (changes : List Override) : Except Error Unit :=
  changes.forM fun c =>
    match c with
    | .sweep => .error .misplacedOverride
    | _ => .ok ()

/-- The settings that the arguments of the command line make of the defaults. -/
def ofArguments (arguments : List String) : Except Error Settings := do
  let changes ← arguments.mapM Override.ofArgument
  checkSingle changes
  let members ← changes.foldlM Override.apply defaults
  ofSource (.record members)

end Settings
end ChipEight
