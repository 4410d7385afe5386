import SqlBind.Bytes.BigEndian

/-!
# Hexadecimal text of bytes

* `Hex.pair b`: the two lower-case digits of a byte, high half first.
* `Hex.digits bs`: the pairs of all bytes, one after another.
-/

namespace SqlBind.Hex
set_option autoImplicit false

/-- The two lower-case hexadecimal digits of a byte, high half first. -/
def pair (b : UInt8) : List Char :=
  [Nat.digitChar (b.toNat / 16), Nat.digitChar (b.toNat % 16)]

/-- Two digits per byte, in the order of the bytes. -/
def digits (bs : Bytes) : List Char :=
  bs.flatMap pair

@[simp] theorem length_digits (bs : Bytes) : (digits bs).length = 2 * bs.length := by
  induction bs with
  | nil => rfl
  | cons b bs ih =>
    simp only [digits, List.flatMap_cons, List.length_append, List.length_cons] at ih ⊢
    rw [ih]
    simp only [pair, List.length_cons, List.length_nil]
    omega

end SqlBind.Hex
