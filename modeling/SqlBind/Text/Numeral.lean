/-!
# Decimal numerals

* `Numeral.ofNat n`: the decimal digits of a natural number, without leading zeros.
* `Numeral.ofInt n`: the same with a minus sign before a negative number.
* `Numeral.padded width n`: the digits of `n`, with zeros in front up to a width.
* `Numeral.read? cs`: the number that a text of digits stands for; `read?_ofNat` reads back what
  `ofNat` writes.
-/

namespace SqlBind.Numeral
set_option autoImplicit false

/-- The decimal digits of `n`, most significant first; zero is the single digit `0`. -/
def ofNat (n : Nat) : List Char :=
  Nat.toDigits 10 n

/-- The decimal digits of the magnitude, after a minus sign if the number is negative. -/
def ofInt (n : Int) : List Char :=
  if n < 0 then '-' :: ofNat n.natAbs else ofNat n.natAbs

/-- The digits of `n` with zeros in front, at least `width` characters in all. -/
def padded (width n : Nat) : List Char :=
  List.replicate (width - (ofNat n).length) '0' ++ ofNat n

/-- The number of a text that consists of digits and has at least one; zeros may stand in front. -/
def read? (cs : List Char) : Option Nat :=
  if !cs.isEmpty && cs.all Char.isDigit then some (Nat.ofDigitChars 10 cs 0) else none

theorem ofNat_ne_nil (n : Nat) : ofNat n ≠ [] :=
  Nat.toDigits_ne_nil

theorem isDigit_of_mem_ofNat {n : Nat} {c : Char} (h : c ∈ ofNat n) : c.isDigit = true :=
  Nat.isDigit_of_mem_toDigits (by decide) (by decide) h

theorem read?_eq_some {cs : List Char} (hne : cs ≠ []) (hdigits : ∀ c ∈ cs, c.isDigit = true) :
    read? cs = some (Nat.ofDigitChars 10 cs 0) := by
  have hall : cs.all Char.isDigit = true := List.all_eq_true.2 hdigits
  simp [read?, hall, hne]

theorem read?_ofNat (n : Nat) : read? (ofNat n) = some n := by
  rw [read?_eq_some (ofNat_ne_nil n) fun _ => isDigit_of_mem_ofNat, ofNat,
    Nat.ofDigitChars_toDigits (by decide) (by decide)]

end SqlBind.Numeral
