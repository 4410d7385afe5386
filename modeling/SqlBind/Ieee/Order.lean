import SqlBind.Ieee.Number

/-!
# Comparing double-precision patterns

Without its sign bit a pattern grows with the number it stands for, so the patterns of two numbers
are compared as signed integers.

* `isNaN`, `orderKey`: the parts of a comparison.
* `equal`, `compare?`: equality and order; a NaN is equal to nothing and unordered.
-/

namespace SqlBind.Ieee
set_option autoImplicit false

/-- The pattern without its sign bit. -/
def magnitudeBits (bits : UInt64) : Nat :=
  bits.toNat % 2 ^ 63

/-- Whether a pattern is above those of the infinities. -/
def isNaN (bits : UInt64) : Bool :=
  2047 * 2 ^ 52 < magnitudeBits bits

/-- The pattern without its sign bit, counted downwards for negative numbers. Both zeros have the
key zero. -/
def orderKey (bits : UInt64) : Int :=
  if binary64.negative bits.toNat then -(magnitudeBits bits : Int) else magnitudeBits bits

/-- Equality of numbers: no NaN is equal to anything, and the zeros are equal. -/
def equal (a b : UInt64) : Bool :=
  !isNaN a && !isNaN b && (a == b || magnitudeBits a == 0 && magnitudeBits b == 0)

/-- The order of two numbers, if neither is a NaN. -/
def compare? (a b : UInt64) : Option Ordering :=
  if isNaN a || isNaN b then none else some (compare (orderKey a) (orderKey b))

end SqlBind.Ieee
