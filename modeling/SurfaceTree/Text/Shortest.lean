import SurfaceTree.Text.Digits

namespace SurfaceTree.Shortest

/-- A decimal number `digits * 10 ^ exponent`. -/
structure Decimal where
  digits : Nat
  exponent : Int

/-- A positive fraction with the fractions halfway to its neighbours on either side, all over one
denominator. A number between those reads back as this one, and so do they themselves if
`closed`. -/
structure Interval where
  below : Nat
  value : Nat
  above : Nat
  denominator : Nat
  closed : Bool

/-- The interval of the number `mantissa * 2 ^ exponent`. At a power of two the neighbour below is
only half as far away. -/
def Interval.ofBinary (mantissa : Nat) (exponent : Int) (nearBelow : Bool) : Interval :=
  let scale (n : Nat) := if 2 ≤ exponent then n * Nat.pow 2 (exponent - 2).toNat else n
  { below := scale (4 * mantissa - if nearBelow then 1 else 2)
    value := scale (4 * mantissa)
    above := scale (4 * mantissa + 2)
    denominator := if 2 ≤ exponent then 1 else Nat.pow 2 (2 - exponent).toNat
    closed := mantissa % 2 = 0 }

/-- Whether `digits * 10 ^ exponent` lies in an interval. -/
def Interval.contains (i : Interval) (d : Decimal) : Bool :=
  let numerator := d.digits * Nat.pow 10 d.exponent.toNat * i.denominator
  let scale := Nat.pow 10 (-d.exponent).toNat
  if i.closed then i.below * scale ≤ numerator && numerator ≤ i.above * scale
  else i.below * scale < numerator && numerator < i.above * scale

/-- How many decimal digits stand before the point, counted negative from the first nonzero digit
where there are none: the least `p` for which the number is below `10 ^ p`. -/
def Interval.magnitude (i : Interval) : Int :=
  if i.denominator ≤ i.value then (Nat.toDigits 10 (i.value / i.denominator)).length
  else
    let enough (zeros : Nat) : Bool := i.denominator ≤ i.value * Nat.pow 10 (zeros + 1)
    Int.negOfNat (((List.range 400).find? enough).getD 0)

/-- The grid neighbours of a number at a decimal exponent, by rounding down and up. -/
def Interval.neighbour (i : Interval) (exponent : Int) : Decimal :=
  ⟨i.value * Nat.pow 10 (-exponent).toNat / (i.denominator * Nat.pow 10 exponent.toNat), exponent⟩

/-- Of the two neighbours on a grid the nearer one that reads back, the upper one on a tie. -/
def Interval.onGrid? (i : Interval) (exponent : Int) : Option Decimal :=
  let lower := i.neighbour exponent
  let upper : Decimal := ⟨lower.digits + 1, exponent⟩
  let doubled := 2 * i.value * Nat.pow 10 (-exponent).toNat
  let middle := (lower.digits + upper.digits) * Nat.pow 10 exponent.toNat * i.denominator
  match i.contains lower, i.contains upper with
  | true, true => some (if doubled < middle then lower else upper)
  | true, false => some lower
  | false, true => some upper
  | false, false => none

/-- The decimal number of fewest digits that reads back; seventeen always suffice. -/
def Interval.shortest (i : Interval) : Decimal :=
  let p := i.magnitude
  let found := (List.range 17).findSome? fun n => i.onGrid? (p - (n + 1 : Nat))
  found.getD (i.neighbour (p - 17))

/-- The digits of a positive decimal number without trailing zeros, and how many of them stand
before the point. -/
def Decimal.normal (d : Decimal) : List Char × Int :=
  let all := Nat.toDigits 10 d.digits
  ((all.reverse.dropWhile (· == '0')).reverse, all.length + d.exponent)

/-- Digits with a point. There is at least one digit on either side of it. -/
def positional (digits : List Char) (point : Int) : List Char :=
  if point ≤ 0 then ['0', '.'] ++ List.replicate (-point).toNat '0' ++ digits
  else if point < digits.length then
    digits.take point.toNat ++ ['.'] ++ digits.drop point.toNat
  else digits ++ List.replicate (point.toNat - digits.length) '0' ++ ['.', '0']

/-- Digits with an exponent. The point follows the first digit if there is another one. -/
def scientific (digits : List Char) (point : Int) : List Char :=
  digits.take 1 ++ (if digits.length ≤ 1 then [] else '.' :: digits.drop 1)
    ++ ['e'] ++ (Digits.ofInt (point - 1)).toList

/-- The text of a double-precision number given by its bits. Numbers from one ten-thousandth up to
ten quadrillion are written with a point, others with an exponent. -/
def double (bits : UInt64) : String :=
  let sign := if bits.toNat / Nat.pow 2 63 = 1 then "-" else ""
  let biased : Nat := bits.toNat / Nat.pow 2 52 % Nat.pow 2 11
  let fraction : Nat := bits.toNat % Nat.pow 2 52
  if biased = 2047 then if fraction = 0 then sign ++ "inf" else "NaN"
  else if biased = 0 ∧ fraction = 0 then sign ++ "0.0"
  else
    let interval :=
      if biased = 0 then Interval.ofBinary fraction (-1074) false
      else Interval.ofBinary (Nat.pow 2 52 + fraction) ((biased : Int) - 1075)
        (fraction = 0 && 1 < biased)
    let (digits, point) := interval.shortest.normal
    let text := if -4 < point ∧ point ≤ 16 then positional digits point else scientific digits point
    sign ++ String.ofList text

end SurfaceTree.Shortest
