import SqlBind.Debug
import SqlBind.Ieee.Notation
import SqlBind.Ieee.Order
import SqlBind.Ieee.Widen

/-!
# Numbers sent as decimal text

A double-precision number can be bound as text, so that it survives as a readable decimal.

* `Extended`: the number, as a bit pattern; `Extended.ofSingle` widens a single-precision one.
* `Extended.style`: positional notation from `1e-4` up to `1e16`, bare exponents outside.
* `Extended.number`: what the bit pattern stands for.
* `Extended.text`: the text that is sent.
* `Extended.equal`, `Extended.compare?`: comparison.
-/

namespace SqlBind
set_option autoImplicit false

/-- A double-precision number that is bound as decimal text. -/
structure Extended where
  bits : UInt64
  deriving DecidableEq, Repr

namespace Extended

/-- Zero, unless told otherwise. -/
instance : Inhabited Extended := ⟨⟨0⟩⟩

/-- The same number, given in single precision. -/
def ofSingle (bits : UInt32) : Extended :=
  ⟨Ieee.widen bits⟩

/-- Decimals from `1e-4` up to `1e16` are positional; other exponents have no sign and no padding;
of two equally near digits the larger is taken. -/
def style : Ieee.DecimalStyle where
  lowest := -4
  highest := 15
  plus := []
  tie := .up

def number (x : Extended) : Ieee.Number :=
  Ieee.binary64.number x.bits.toNat

def text (x : Extended) : List Char :=
  match x.number with
  | .nan => "NAN".toList
  | .infinite true => "-INF".toList
  | .infinite false => "INF".toList
  | .finite negative m q => style.text Ieee.binary64 negative m q

/-- Equality of numbers: no NaN is equal to anything, and the zeros are equal. -/
def equal (x y : Extended) : Bool :=
  Ieee.equal x.bits y.bits

/-- The order of two numbers, if neither is a NaN. -/
def compare? (x y : Extended) : Option Ordering :=
  Ieee.compare? x.bits y.bits

def debug (x : Extended) : Debug :=
  .wrap "Extended" <| .atom <|
    match x.number with
    | .nan => "NaN"
    | .infinite true => "-inf"
    | .infinite false => "inf"
    | .finite negative m q => String.ofList (style.text Ieee.binary64 negative m q)

end Extended

end SqlBind
