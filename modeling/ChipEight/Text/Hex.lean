/-
Hexadecimal text.

Addresses, words and registers are written in upper case and padded with zeros
to a width; bytes of a program or a picture are written in lower case, two
digits each. A negative number keeps its sign in front of the zeros, and the
sign counts towards the width.
-/
set_option autoImplicit false

namespace ChipEight.Text

/-- The digits in upper case, `0` to `F`. -/
def hexDigit (d : Fin 16) : Char :=
  if d.val < 10 then Char.ofNat ('0'.toNat + d.val) else Char.ofNat ('A'.toNat + d.val - 10)

/-- The digits of a number, most significant first; zero has the one digit `0`. -/
def hexDigits (n : Nat) : List Char :=
  if n < 16 then [hexDigit (Fin.ofNat 16 n)]
  else hexDigits (n / 16) ++ [hexDigit (Fin.ofNat 16 n)]

/-- `cs` with enough copies of `c` in front to reach `width` characters. -/
def padStart (c : Char) (width : Nat) (cs : List Char) : List Char :=
  List.replicate (width - cs.length) c ++ cs

/-- An integer in upper case, at least `width` characters wide with its sign. -/
def hex (width : Nat) (n : Int) : String :=
  if n < 0 then String.ofList ('-' :: padStart '0' (width - 1) (hexDigits n.natAbs))
  else String.ofList (padStart '0' width (hexDigits n.natAbs))

/-- A byte as two digits in lower case. -/
def byteHex (b : UInt8) : String :=
  String.ofList ((padStart '0' 2 (hexDigits b.toNat)).map Char.toLower)

/-- Bytes in lower case, two digits each and nothing between them. -/
def bytesHex (bs : List UInt8) : String :=
  String.join (bs.map byteHex)

end ChipEight.Text
