/-
Reading numbers from text.

A numeral may stand between blanks, may have a sign, and may hold an underscore
between two digits. Digits and blanks of every script count: a digit of any
script stands for its value, and a blank is any character that separates words.
A whole numeral has digits only; a decimal numeral may have a point, an exponent,
or be one of the words for a number that is none and for one past all bounds.
-/
import ChipEight.Text.Binary64

set_option autoImplicit false

namespace ChipEight.Text

/-! ## Digits and blanks -/

/-- The zeros of the decimal digits of every script; nine digits follow each. -/
def decimalZeros : List Nat :=
  [0x0030, 0x0660, 0x06F0, 0x07C0, 0x0966, 0x09E6, 0x0A66, 0x0AE6, 0x0B66, 0x0BE6, 0x0C66,
    0x0CE6, 0x0D66, 0x0DE6, 0x0E50, 0x0ED0, 0x0F20, 0x1040, 0x1090, 0x17E0, 0x1810, 0x1946,
    0x19D0, 0x1A80, 0x1A90, 0x1B50, 0x1BB0, 0x1C40, 0x1C50, 0xA620, 0xA8D0, 0xA900, 0xA9D0,
    0xA9F0, 0xAA50, 0xABF0, 0xFF10, 0x104A0, 0x10D30, 0x11066, 0x110F0, 0x11136, 0x111D0,
    0x112F0, 0x11450, 0x114D0, 0x11650, 0x116C0, 0x11730, 0x118E0, 0x11950, 0x11C50, 0x11D50,
    0x11DA0, 0x11F50, 0x16A60, 0x16AC0, 0x16B50, 0x1D7CE, 0x1D7D8, 0x1D7E2, 0x1D7EC, 0x1D7F6,
    0x1E140, 0x1E2F0, 0x1E4F0, 0x1E950, 0x1FBF0]

/-- The value of a decimal digit of any script. -/
def digitValue? (c : Char) : Option Nat :=
  (decimalZeros.find? fun z => z ≤ c.toNat && c.toNat < z + 10).map fun z => c.toNat - z

/-- A character that separates words. -/
def isBlank (c : Char) : Bool :=
  let n := c.toNat
  (0x09 ≤ n && n ≤ 0x0D) || (0x1C ≤ n && n ≤ 0x20) || n == 0x85 || n == 0xA0 || n == 0x1680
    || (0x2000 ≤ n && n ≤ 0x200A) || n == 0x2028 || n == 0x2029 || n == 0x202F || n == 0x205F
    || n == 0x3000

/-- A text without the blanks at its ends. -/
def trimBlanks (cs : List Char) : List Char :=
  ((cs.dropWhile isBlank).reverse.dropWhile isBlank).reverse

/-- The sign of a numeral, and what follows it. -/
def takeSign : List Char → Bool × List Char
  | '-' :: cs => (true, cs)
  | '+' :: cs => (false, cs)
  | cs => (false, cs)

/-- Does a text start with a digit? -/
def startsWithDigit : List Char → Bool
  | c :: _ => (digitValue? c).isSome
  | [] => false

/-- The digits that a text starts with, underscores between two digits left out, and
what follows. `joined` says that a digit stands before the text. -/
def takeDigits (joined : Bool) : List Char → List Nat × List Char
  | [] => ([], [])
  | c :: cs =>
    match digitValue? c with
    | some d =>
      let (ds, after) := takeDigits true cs
      (d :: ds, after)
    | none =>
      if c == '_' && joined && startsWithDigit cs then takeDigits false cs
      else ([], c :: cs)

/-- The number that digits stand for. -/
def valueOf (ds : List Nat) : Nat :=
  ds.foldl (fun n d => 10 * n + d) 0

/-! ## Whole numerals -/

/-- The most digits a whole numeral may have. -/
def maxDigits : Nat := 4300

/-- The integer that a text stands for. -/
def readInteger (s : String) : Option Int :=
  let (negative, body) := takeSign (trimBlanks s.toList)
  match takeDigits false body with
  | (d :: ds, []) =>
    if maxDigits < (d :: ds).length then none
    else
      let n : Int := valueOf (d :: ds)
      some (if negative then -n else n)
  | _ => none

/-! ## Decimal numerals -/

/-- The exponent part of a numeral, if the text is one or empty. -/
def readExponent : List Char → Option Int
  | [] => some 0
  | c :: cs =>
    if c == 'e' || c == 'E' then
      let (negative, body) := takeSign cs
      match takeDigits false body with
      | (d :: ds, []) =>
        let n : Int := valueOf (d :: ds)
        some (if negative then -n else n)
      | _ => none
    else none

/-- The double nearest to `significand · 10 ^ exponent`. A decimal exponent far outside
the range of doubles is settled without forming the power. -/
def decimalToFloat (negative : Bool) (significand : Nat) (exponent : Int) (length : Nat) :
    Float :=
  if significand = 0 then nearest negative 0 1
  else if 400 < exponent then nearest negative (tenTo 400) 1
  else if exponent + length < -400 then nearest negative 0 1
  else nearest negative (significand * tenTo exponent.toNat) (tenTo (-exponent).toNat)

/-- The double that a text stands for. -/
def readFloat (s : String) : Option Double :=
  let (negative, body) := takeSign (trimBlanks s.toList)
  let word := body.map Char.toLower
  if word == "inf".toList || word == "infinity".toList then
    some (.ofFloat (nearest negative (tenTo 400) 1))
  else if word == "nan".toList then
    some ⟨if negative then 0xFFF8000000000000 else 0x7FF8000000000000⟩
  else
    let (whole, rest) := takeDigits false body
    let (fraction, rest) := match rest with
      | '.' :: cs => takeDigits false cs
      | _ => ([], rest)
    let ds := whole ++ fraction
    if ds.isEmpty then none
    else
      match readExponent rest with
      | none => none
      | some e =>
        some (.ofFloat
          (decimalToFloat negative (valueOf ds) (e - fraction.length) ds.length))

end ChipEight.Text
