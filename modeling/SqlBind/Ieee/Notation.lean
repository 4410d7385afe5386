import SqlBind.Ieee.Shortest

/-!
# Writing decimals

A decimal is written with a point among its digits while its exponent lies in a window, and with an
explicit exponent otherwise.

* `DecimalStyle`: the decisions of one output format.
* `Decimal.positional`, `Decimal.scientific`: the two notations.
* `DecimalStyle.text`: the text of a finite number in a style.
-/

namespace SqlBind.Ieee
set_option autoImplicit false

/-- The decisions that one output format makes about its numbers. -/
structure DecimalStyle where
  /-- The least exponent that is still written positionally. -/
  lowest : Int
  /-- The greatest exponent that is still written positionally. -/
  highest : Int
  /-- What stands before a positive explicit exponent. -/
  plus : List Char
  /-- Which of two equally near digits is taken. -/
  tie : Tie

namespace Decimal

/-- Digits around a point, with at least one digit on each side. -/
def positional (d : Decimal) : List Char :=
  if d.exponent < 0 then
    '0' :: '.' :: List.replicate (-d.exponent - 1).toNat '0' ++ d.digits
  else
    let whole := d.exponent.toNat + 1
    if d.digits.length ≤ whole then
      d.digits ++ List.replicate (whole - d.digits.length) '0' ++ ['.', '0']
    else
      d.digits.take whole ++ '.' :: d.digits.drop whole

/-- The first digit, a point before the others if there are any, and the exponent after `e`. -/
def scientific (plus : List Char) (d : Decimal) : List Char :=
  let rest := d.digits.drop 1
  d.digits.take 1 ++ (if rest.isEmpty then [] else '.' :: rest) ++
    'e' :: ((if d.exponent < 0 then [] else plus) ++ Numeral.ofInt d.exponent)

end Decimal

namespace DecimalStyle

/-- A decimal in the notation that its exponent asks for. -/
def decimal (style : DecimalStyle) (d : Decimal) : List Char :=
  if style.lowest ≤ d.exponent ∧ d.exponent ≤ style.highest then d.positional
  else d.scientific style.plus

/-- The magnitude `m · 2 ^ q` of a finite number; zero is `0.0`. -/
def magnitude (style : DecimalStyle) (f : Interchange) (m : Nat) (q : Int) : List Char :=
  if m = 0 then ['0', '.', '0'] else style.decimal (shortest f style.tie m q)

/-- A finite number with its sign; zero has one too. -/
def text (style : DecimalStyle) (f : Interchange) (negative : Bool) (m : Nat) (q : Int) :
    List Char :=
  if negative then '-' :: style.magnitude f m q else style.magnitude f m q

end DecimalStyle

end SqlBind.Ieee
