/-!
# Binary interchange formats

Floating-point values are handled as bit patterns. A pattern holds a sign bit, an exponent field
and a fraction field; decoding it gives an exact number `± m · 2 ^ q`.

* `Interchange`: the widths of the two fields; `binary32` and `binary64` are the usual ones.
* `Number`: a decoded pattern.
* `Interchange.number`: decoding.
-/

namespace SqlBind.Ieee
set_option autoImplicit false

/-- A binary interchange format, by the widths of its fields. -/
structure Interchange where
  fractionBits : Nat
  exponentBits : Nat

def binary32 : Interchange := ⟨23, 8⟩

def binary64 : Interchange := ⟨52, 11⟩

/-- What a bit pattern stands for. -/
inductive Number where
  | nan
  | infinite (negative : Bool)
  /-- The exact value is `significand · 2 ^ scale`, below zero if `negative`; zero has a sign. -/
  | finite (negative : Bool) (significand : Nat) (scale : Int)
  deriving DecidableEq, Repr

namespace Interchange

def negative (f : Interchange) (bits : Nat) : Bool :=
  bits / 2 ^ (f.fractionBits + f.exponentBits) % 2 == 1

def exponent (f : Interchange) (bits : Nat) : Nat :=
  bits / 2 ^ f.fractionBits % 2 ^ f.exponentBits

def fraction (f : Interchange) (bits : Nat) : Nat :=
  bits % 2 ^ f.fractionBits

/-- The exponent field of infinities and NaNs. -/
def lastExponent (f : Interchange) : Nat :=
  2 ^ f.exponentBits - 1

/-- What is subtracted from the exponent field. -/
def bias (f : Interchange) : Nat :=
  2 ^ (f.exponentBits - 1) - 1

/-- The scale of the smallest numbers, those without an implicit leading bit. -/
def leastScale (f : Interchange) : Int :=
  1 - (f.bias : Int) - f.fractionBits

/-- What a bit pattern stands for. -/
def number (f : Interchange) (bits : Nat) : Number :=
  let e := f.exponent bits
  if e = f.lastExponent then
    if f.fraction bits = 0 then .infinite (f.negative bits) else .nan
  else if e = 0 then
    .finite (f.negative bits) (f.fraction bits) f.leastScale
  else
    .finite (f.negative bits) (2 ^ f.fractionBits + f.fraction bits) (f.leastScale + (e - 1))

end Interchange

end SqlBind.Ieee
