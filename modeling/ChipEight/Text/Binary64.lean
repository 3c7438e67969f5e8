/-
Doubles as exact numbers.

Text and time need to know exactly which number a double is, and which double is
nearest to a given quotient. Both are settled here on the sixty-four bits: a
finite double is a sign, a whole significand and a power of two, and a quotient
is rounded once, ties to the even significand. Below the last word of the
exponent field the bits of consecutive doubles are consecutive numbers, which is
why a significand that rounds up to the next power of two needs no case.
-/
set_option autoImplicit false

namespace ChipEight

/-- A double by its bits. Unlike the numbers that are computed with, it keeps apart the
values that are no number. -/
structure Double where
  bits : UInt64
  deriving DecidableEq

/-- The double that is computed with. -/
def Double.toFloat (d : Double) : Float := Float.ofBits d.bits

/-- The bits of a double that is computed with. -/
def Double.ofFloat (x : Float) : Double := ⟨x.toBits⟩

namespace Text

/-- `2 ^ n`. -/
def twoTo (n : Nat) : Nat := Nat.pow 2 n

/-- `10 ^ n`. -/
def tenTo (n : Nat) : Nat := Nat.pow 10 n

/-- The quotient of two numbers rounded to a whole number, a half to the even neighbour. -/
def roundDiv (num den : Nat) : Nat :=
  let q := num / den
  let twice := 2 * (num % den)
  if den < twice || (twice == den && q % 2 == 1) then q + 1 else q

/-- A finite double: `significand · 2 ^ exponent`, and a sign that a zero has too. -/
structure Finite where
  negative : Bool
  significand : Nat
  exponent : Int

/-- What a double stands for. -/
inductive Reading where
  | nan
  | infinite (negative : Bool)
  | finite (value : Finite)

/-- The number that sixty-four bits stand for. -/
def Reading.ofBits (bits : UInt64) : Reading :=
  let negative := decide (twoTo 63 ≤ bits.toNat)
  let field : Nat := bits.toNat / twoTo 52 % 2048
  let fraction := bits.toNat % twoTo 52
  if field = 2047 then
    if fraction = 0 then .infinite negative else .nan
  else if field = 0 then .finite ⟨negative, fraction, -1074⟩
  else .finite ⟨negative, twoTo 52 + fraction, (field : Int) - 1075⟩

/-- The number that a double stands for. -/
def Reading.of (x : Float) : Reading :=
  Reading.ofBits x.toBits

/-- `num / den` with a power of two moved to one side: `num · 2 ^ (-e) / den`. -/
def scaleByTwo (num den : Nat) (e : Int) : Nat × Nat :=
  if e < 0 then (num * twoTo (-e).toNat, den) else (num, den * twoTo e.toNat)

/-- The exponent at which the significand of `num / den` has its fifty-three bits, but
not below the least exponent there is. -/
def placeOf (num den : Nat) : Int :=
  let guess : Int := (num.log2 : Int) - (den.log2 : Int) - 52
  let (n, d) := scaleByTwo num den guess
  let place := if n / d < twoTo 52 then guess - 1 else guess
  max place (-1074)

/-- The bits of the double nearest to `num / den`, without a sign. -/
def nearestBits (num den : Nat) : Nat :=
  if num = 0 then 0
  else
    let place := placeOf num den
    let (n, d) := scaleByTwo num den place
    min ((place + 1074).toNat * twoTo 52 + roundDiv n d) (2047 * twoTo 52)

/-- The double nearest to `num / den`; past the greatest double it is infinite. -/
def nearest (negative : Bool) (num den : Nat) : Float :=
  let magnitude := nearestBits num den
  Float.ofBits (UInt64.ofNat (if negative then twoTo 63 + magnitude else magnitude))

/-- The double nearest to an integer, if the integer is not past the greatest double. -/
def floatOfInt? (n : Int) : Option Float :=
  let x := nearest (decide (n < 0)) n.natAbs 1
  if x.isInf then none else some x

/-- The whole part of a double, toward zero; nothing for an infinite double or for none at all. -/
def Reading.wholePart? : Reading → Option Int
  | .finite v =>
    let magnitude : Nat :=
      if v.exponent < 0 then v.significand / twoTo (-v.exponent).toNat
      else v.significand * twoTo v.exponent.toNat
    some (if v.negative then -(magnitude : Int) else magnitude)
  | _ => none

end Text
end ChipEight
