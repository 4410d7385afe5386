import SqlBind.Bytes.Hex

/-!
# Bytes as readable text

Diagnostics show a byte string with its printable characters as they are.

* `Quoted.byte b`: the character of a printable byte, else `\x` and two hexadecimal digits.
* `Quoted.text bs`: a whole byte string between `b"` and `"`.
-/

namespace SqlBind.Quoted
set_option autoImplicit false

/-- Bytes from the blank to the tilde stand for themselves, quotes and backslashes too; every
other byte is `\x` and its two hexadecimal digits. -/
def byte (b : UInt8) : List Char :=
  if 0x20 ≤ b ∧ b ≤ 0x7e then [Char.ofNat b.toNat] else '\\' :: 'x' :: Hex.pair b

/-- The readable form of a byte string, between `b"` and `"`. -/
def text (bs : Bytes) : String :=
  String.ofList ('b' :: '"' :: bs.flatMap byte ++ ['"'])

end SqlBind.Quoted
