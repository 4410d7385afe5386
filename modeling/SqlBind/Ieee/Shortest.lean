import SqlBind.Ieee.Number
import SqlBind.Text.Numeral

/-!
# Shortest decimals

A positive floating-point number is written with the fewest significant decimal digits that still
round to it, and among those with the digits nearest to it.

* `Decimal`: digits and the exponent of the first of them.
* `compareScaled a k b q`: the order of `a · 10 ^ k` and `b · 2 ^ q`, in exact arithmetic.
* `Neighbourhood`: a number together with the interval of reals that round to it.
* `Neighbourhood.candidate`: the best decimal with a given number of digits, if one rounds back.
* `Neighbourhood.shortest`: the first that does, from one digit on.
-/

namespace SqlBind.Ieee
set_option autoImplicit false

/-- A positive decimal `d₁.d₂d₃… · 10 ^ exponent`. -/
structure Decimal where
  digits : List Char
  exponent : Int
  deriving DecidableEq, Repr

/-- Which of two equally near digits is taken. -/
inductive Tie where
  | up
  | even
  deriving DecidableEq, Repr

/-- The order of `a · 10 ^ k` and `b · 2 ^ q`: negative powers are moved to the other side. -/
def compareScaled (a : Nat) (k : Int) (b : Nat) (q : Int) : Ordering :=
  compare (a * 10 ^ k.toNat * 2 ^ (-q).toNat) (b * 2 ^ q.toNat * 10 ^ (-k).toNat)

/-- The integer part of `m · 2 ^ q / 10 ^ k`. -/
def floorScaled (m : Nat) (q k : Int) : Nat :=
  m * 2 ^ q.toNat * 10 ^ (-k).toNat / (2 ^ (-q).toNat * 10 ^ k.toNat)

def digitCount (n : Nat) : Nat :=
  (Numeral.ofNat n).length

/-- The exponent of the leading decimal digit of `m · 2 ^ q`, for `m` above zero. Below one it is
read off the number of digits of the reciprocal. -/
def leadingExponent (m : Nat) (q : Int) : Int :=
  let num := m * 2 ^ q.toNat
  let den := 2 ^ (-q).toNat
  if den ≤ num then (digitCount (num / den) : Int) - 1 else -(digitCount ((den - 1) / num) : Int)

/-- A positive number `significand · 2 ^ scale` and the interval that rounds to it: its ends are
`lower` and `upper` quarters of the last place, and belong to it if `closed`. -/
structure Neighbourhood where
  significand : Nat
  scale : Int
  lower : Nat
  upper : Nat
  closed : Bool

namespace Neighbourhood

/-- The neighbourhood of a positive number. The lower neighbour of a power of two is only half as
far away as the upper one, unless both are among the smallest numbers. An end rounds to the number
with the even significand. -/
def of (f : Interchange) (m : Nat) (q : Int) : Neighbourhood where
  significand := m
  scale := q
  lower := if m = 2 ^ f.fractionBits ∧ f.leastScale < q then 4 * m - 1 else 4 * m - 2
  upper := 4 * m + 2
  closed := m % 2 == 0

/-- Whether `d · 10 ^ k` rounds to the number. -/
def holds (v : Neighbourhood) (d : Nat) (k : Int) : Bool :=
  let below := compareScaled d k v.lower (v.scale - 2)
  let above := compareScaled d k v.upper (v.scale - 2)
  (below == .gt || v.closed && below == .eq) && (above == .lt || v.closed && above == .eq)

/-- The better of `d · 10 ^ k` and `(d + 1) · 10 ^ k`, between which the number lies. -/
def nearer (tie : Tie) (v : Neighbourhood) (d : Nat) (k : Int) : Nat :=
  match compareScaled (2 * d + 1) k (2 * v.significand) v.scale with
  | .lt => d + 1
  | .gt => d
  | .eq =>
    match tie with
    | .up => d + 1
    | .even => if d % 2 = 0 then d else d + 1

/-- On the grid of multiples of `10 ^ k`, the point that rounds to the number and is nearest to it;
the two points on either side are the only ones to try. -/
def onGrid (tie : Tie) (v : Neighbourhood) (k : Int) : Option Nat :=
  let d := floorScaled v.significand v.scale k
  match v.holds d k, v.holds (d + 1) k with
  | true, true => some (v.nearer tie d k)
  | true, false => some d
  | false, true => some (d + 1)
  | false, false => none

def withoutTrailingZeros (digits : List Char) : List Char :=
  (digits.reverse.dropWhile (· == '0')).reverse

/-- The decimal `d · 10 ^ k`, without zeros at its end. -/
def decimal (d : Nat) (k : Int) : Decimal where
  digits := withoutTrailingZeros (Numeral.ofNat d)
  exponent := k + digitCount d - 1

/-- The best decimal of `n` significant digits, if one rounds to the number. -/
def candidate (tie : Tie) (v : Neighbourhood) (n : Nat) : Option Decimal :=
  let k := leadingExponent v.significand v.scale - n + 1
  (v.onGrid tie k).map (decimal · k)

/-- Seventeen digits tell all double-precision numbers apart. -/
def mostDigits : Nat := 17

/-- The shortest decimal that rounds to the number, and of those the nearest. -/
def shortest (tie : Tie) (v : Neighbourhood) : Decimal :=
  ((List.range' 1 mostDigits).findSome? (v.candidate tie)).getD ⟨['0'], 0⟩

end Neighbourhood

/-- The shortest decimal of the positive number `m · 2 ^ q` of a format. -/
def shortest (f : Interchange) (tie : Tie) (m : Nat) (q : Int) : Decimal :=
  (Neighbourhood.of f m q).shortest tie

end SqlBind.Ieee
