/-
Doubles as decimal text.

There are two forms. With fixed places, the exact value of the double is rounded
to the last place, a half to the even digit. In the shortest form, the fewest
digits are written that read back as the same double, and of those the nearest;
they stand in positional notation from 0.0001 up to below 10 ^ 16, and with an
exponent outside. Both keep the sign of a zero.
-/
import ChipEight.Text.Binary64

set_option autoImplicit false

namespace ChipEight.Text

/-- The decimal digits of a number; zero has the one digit `0`. -/
def digits (n : Nat) : List Char :=
  if n < 10 then [Char.ofNat ('0'.toNat + n)]
  else digits (n / 10) ++ [Char.ofNat ('0'.toNat + n % 10)]

/-- The decimal text of an integer. -/
def integer (n : Int) : String :=
  String.ofList (if n < 0 then '-' :: digits n.natAbs else digits n.natAbs)

/-- A text that is not a number of digits. -/
def special (negative : Bool) (word : String) : String :=
  if negative then "-" ++ word else word

/-! ## Fixed places -/

/-- A whole number of units in the last place, with a point before `places` digits. -/
def withPoint (places units : Nat) : List Char :=
  let ds := digits units
  let padded := List.replicate (places + 1 - ds.length) '0' ++ ds
  if places = 0 then padded
  else padded.take (padded.length - places) ++ '.' :: padded.drop (padded.length - places)

/-- A double with a fixed number of places. -/
def fixed (places : Nat) (x : Float) : String :=
  match Reading.of x with
  | .nan => "nan"
  | .infinite negative => special negative "inf"
  | .finite v =>
    let units := roundDiv (v.significand * twoTo v.exponent.toNat * tenTo places)
      (twoTo (-v.exponent).toNat)
    special v.negative (String.ofList (withPoint places units))

/-! ## The shortest text -/

/-- Compares `c · 10 ^ (-s)` with `a · 2 ^ e`, exactly. -/
def compareScaled (c : Nat) (s : Int) (a : Nat) (e : Int) : Ordering :=
  compare (c * tenTo (-s).toNat * twoTo (-e).toNat) (a * twoTo e.toNat * tenTo s.toNat)

/-- The numbers that round to one double: those from `low` to `high` in units of
`2 ^ exponent`, with the ends when `closed`. -/
structure Neighbourhood where
  low : Nat
  value : Nat
  high : Nat
  exponent : Int
  closed : Bool

/-- Half way to each neighbour of a double, the ends belonging to an even significand.
The neighbour below a power of two is half as far away. -/
def Neighbourhood.of (v : Finite) : Neighbourhood where
  low := 4 * v.significand -
    (if v.significand = twoTo 52 && decide (-1074 < v.exponent) then 1 else 2)
  value := 4 * v.significand
  high := 4 * v.significand + 2
  exponent := v.exponent - 2
  closed := v.significand % 2 == 0

/-- Does `c · 10 ^ (-s)` round to the double? -/
def Neighbourhood.admits (h : Neighbourhood) (c : Nat) (s : Int) : Bool :=
  let below := compareScaled c s h.low h.exponent
  let above := compareScaled c s h.high h.exponent
  if h.closed then below != .lt && above != .gt else below == .gt && above == .lt

/-- The number of digits before the point of `a · 2 ^ e`, negative when zeros follow the point. -/
def pointPlace (a : Nat) (e : Int) : Int :=
  let num := a * twoTo e.toNat
  let den := twoTo (-e).toNat
  let guess : Int := ((digits num).length : Int) - ((digits den).length : Int)
  if compareScaled 1 (-guess) a e == .gt then guess else guess + 1

/-- The digits on the grid with `count` digits that read back as the double, if there
are any: of the two neighbours of the value the nearer, a tie to the even one. -/
def Neighbourhood.digitsOn (h : Neighbourhood) (count : Nat) (place : Int) : Option Nat :=
  let s : Int := count - place
  let num := h.value * twoTo h.exponent.toNat * tenTo s.toNat
  let den := twoTo (-h.exponent).toNat * tenTo (-s).toNat
  let lo := num / den
  let hi := lo + 1
  match h.admits lo s, h.admits hi s with
  | false, false => none
  | true, false => some lo
  | false, true => some hi
  | true, true => some (roundDiv num den)

/-- The first grid with digits that read back; seventeen digits always do. -/
def Neighbourhood.fewest (h : Neighbourhood) (place : Int) : Nat → Nat → Nat × Nat
  | 0, count => (count, (h.digitsOn count place).getD 0)
  | more + 1, count =>
    match h.digitsOn count place with
    | some c => (count, c)
    | none => h.fewest place more (count + 1)

/-- Digits without the zeros at the end. -/
def dropTrailingZeros (ds : List Char) : List Char :=
  (ds.reverse.dropWhile (· == '0')).reverse

/-- Digits with the point after the first `place` of them, in positional notation. -/
def positional (ds : List Char) (place : Int) : List Char :=
  if place ≤ 0 then '0' :: '.' :: List.replicate (-place).toNat '0' ++ ds
  else if ds.length ≤ place.toNat then
    ds ++ List.replicate (place.toNat - ds.length) '0' ++ ['.', '0']
  else ds.take place.toNat ++ '.' :: ds.drop place.toNat

/-- Digits with the point after the first one and an exponent of at least two digits. -/
def scientific (ds : List Char) (exponent : Int) : List Char :=
  let mantissa := match ds with
    | d :: [] => [d]
    | d :: rest => d :: '.' :: rest
    | [] => ['0']
  let es := digits exponent.natAbs
  mantissa ++ 'e' :: (if exponent < 0 then '-' else '+')
    :: (List.replicate (2 - es.length) '0' ++ es)

/-- The shortest text that reads back as the double. -/
def shortest (x : Float) : String :=
  match Reading.of x with
  | .nan => "nan"
  | .infinite negative => special negative "inf"
  | .finite v =>
    if v.significand = 0 then special v.negative "0.0"
    else
      let h := Neighbourhood.of v
      let place := pointPlace h.value h.exponent
      let (count, c) := h.fewest place 16 1
      -- a grid may be left at its upper end, where one more digit stands before the point
      let place := place + ((digits c).length : Int) - count
      let ds := dropTrailingZeros (digits c)
      special v.negative (String.ofList
        (if -4 < place && place ≤ 16 then positional ds place else scientific ds (place - 1)))

end ChipEight.Text
