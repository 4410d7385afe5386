import SqlBind.Ieee.Number

/-!
# From single to double precision

Every single-precision number is also a double-precision one.

* `widen bits`: the double-precision pattern of the same number.
-/

namespace SqlBind.Ieee
set_option autoImplicit false

/-- A double-precision pattern from its fields. -/
def assemble64 (negative : Bool) (exponent fraction : Nat) : UInt64 :=
  UInt64.ofNat ((if negative then 2 ^ 63 else 0) + exponent * 2 ^ 52 + fraction)

/-- The double-precision pattern of a single-precision number. A number that lacked an implicit
leading bit gets one, since double precision reaches further down; a NaN keeps its payload and
becomes quiet. -/
def widen (bits : UInt32) : UInt64 :=
  let negative := binary32.negative bits.toNat
  match binary32.number bits.toNat with
  | .nan => assemble64 negative 2047 (2 ^ 51 + binary32.fraction bits.toNat % 2 ^ 22 * 2 ^ 29)
  | .infinite _ => assemble64 negative 2047 0
  | .finite _ m q =>
    if m = 0 then
      assemble64 negative 0 0
    else
      let top := m.log2
      assemble64 negative (q + top + 1023).toNat ((m - 2 ^ top) * 2 ^ (52 - top))

end SqlBind.Ieee
