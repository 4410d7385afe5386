import SqlBind.Proofs.Ieee.Exact

/-!
# Widening is exact

Double precision has room for every single-precision number, so widening changes the pattern and
neither the value nor the sign.

* `number_assemble64`: what a pattern that is put together from its fields stands for.
* `number_widen`: a widened number is the same number, a widened NaN is one.
-/

namespace SqlBind.Ieee
set_option autoImplicit false

open Interchange

/-! ## Patterns from fields -/

section

variable {negative : Bool} {e t : Nat} (he : e < 2 ^ 11) (ht : t < 2 ^ 52)
include he ht

theorem toNat_assemble64 : (assemble64 negative e t).toNat =
    (if negative then 2 ^ 63 else 0) + e * 2 ^ 52 + t := by
  rw [assemble64, UInt64.toNat_ofNat']
  split_ifs <;> omega

theorem fields_assemble64 :
    binary64.negative (assemble64 negative e t).toNat = negative ∧
      binary64.exponent (assemble64 negative e t).toNat = e ∧
      binary64.fraction (assemble64 negative e t).toNat = t := by
  rw [toNat_assemble64 he ht]
  refine ⟨?_, ?_, ?_⟩
  · show (((if negative then 2 ^ 63 else 0) + e * 2 ^ 52 + t) / 2 ^ 63 % 2 == 1) = negative
    cases negative with
    | false => exact beq_eq_false_iff_ne.2 (by rw [if_neg Bool.false_ne_true]; omega)
    | true => exact beq_iff_eq.2 (by rw [if_pos rfl]; omega)
  · show ((if negative then 2 ^ 63 else 0) + e * 2 ^ 52 + t) / 2 ^ 52 % 2 ^ 11 = e
    split_ifs <;> omega
  · show ((if negative then 2 ^ 63 else 0) + e * 2 ^ 52 + t) % 2 ^ 52 = t
    split_ifs <;> omega

theorem number_assemble64 : binary64.number (assemble64 negative e t).toNat =
    if e = 2047 then if t = 0 then .infinite negative else .nan
    else if e = 0 then .finite negative t (-1074)
    else .finite negative (2 ^ 52 + t) (-1074 + ((e : Int) - 1)) := by
  obtain ⟨hnegative, hexponent, hfraction⟩ :
      binary64.negative (assemble64 negative e t).toNat = negative ∧ _ := fields_assemble64 he ht
  rw [Interchange.number, hnegative, hexponent, hfraction]
  rfl

end

/-! ## The value is kept -/

section

variable {m : Nat} (hm : m ≠ 0) (hlt : m < 2 ^ 24)
include hm hlt

/-- The leading bit of a significand becomes implicit, and the others are moved up behind it. -/
theorem significand_moved :
    2 ^ 52 + (m - 2 ^ m.log2) * 2 ^ (52 - m.log2) = m * 2 ^ (52 - m.log2) := by
  have hlog : m.log2 < 24 := (Nat.log2_lt hm).2 hlt
  have hone : 2 ^ m.log2 * 2 ^ (52 - m.log2) = 2 ^ 52 := by
    rw [← pow_add, Nat.add_sub_cancel' (by omega)]
  have hle := Nat.mul_le_mul_right (2 ^ (52 - m.log2)) (Nat.log2_self_le hm)
  rw [Nat.sub_mul]
  omega

theorem fraction_moved : (m - 2 ^ m.log2) * 2 ^ (52 - m.log2) < 2 ^ 52 := by
  have hlog : m.log2 < 24 := (Nat.log2_lt hm).2 hlt
  have hfull : m * 2 ^ (52 - m.log2) < 2 ^ 53 := by
    have hpower : 2 ^ (m.log2 + 1) * 2 ^ (52 - m.log2) = 2 ^ 53 := by
      rw [← pow_add]
      congr 1
      omega
    rw [← hpower]
    exact Nat.mul_lt_mul_of_pos_right Nat.lt_log2_self (Nat.two_pow_pos _)
  have hmoved := significand_moved hm hlt
  omega

theorem value_moved (q : Int) :
    ((2 ^ 52 + (m - 2 ^ m.log2) * 2 ^ (52 - m.log2) : Nat) : ℚ) * 2 ^ (q + m.log2 - 52) =
      m * 2 ^ q := by
  have hlog : m.log2 < 24 := (Nat.log2_lt hm).2 hlt
  have hscale : ((52 - m.log2 : Nat) : Int) + (q + m.log2 - 52) = q := by omega
  rw [significand_moved hm hlt, Nat.cast_mul, Nat.cast_pow, Nat.cast_two, mul_assoc,
    ← zpow_natCast, ← zpow_add₀ two_ne_zero, hscale]

end

theorem number_widen (bits : UInt32) :
    (binary64.number (widen bits).toNat).value? = (binary32.number bits.toNat).value? ∧
      (binary64.number (widen bits).toNat).negative? = (binary32.number bits.toNat).negative? := by
  rcases lt_trichotomy (binary32.magnitude bits.toNat) binary32.infinity with h | h | h
  · have hm := significand_lt (f := binary32) (binary32.magnitude bits.toNat)
    have hq : -149 ≤ binary32.scale (binary32.magnitude bits.toNat) ∧
        binary32.scale (binary32.magnitude bits.toNat) ≤ 104 := by
      have hlt : binary32.magnitude bits.toNat < 255 * 2 ^ 23 := h
      show -149 ≤ (-149 : Int) + (binary32.magnitude bits.toNat / 2 ^ 23 - 1 : Nat) ∧
        (-149 : Int) + (binary32.magnitude bits.toNat / 2 ^ 23 - 1 : Nat) ≤ 104
      omega
    rw [widen, number_of_lt h]
    generalize binary32.significand (binary32.magnitude bits.toNat) = m at hm
    generalize binary32.scale (binary32.magnitude bits.toNat) = q at hq
    dsimp only
    -- Where no leading bit was implicit, the first one of the significand becomes so.
    by_cases hzero : m = 0
    · rw [if_pos hzero, number_assemble64 (by decide) (by decide), hzero]
      simp [Number.value?, Number.negative?]
    · have hlog : m.log2 < 24 := (Nat.log2_lt hzero).2 hm
      have hscale : -1074 + (((q + m.log2 + 1023).toNat : Int) - 1) = q + m.log2 - 52 := by omega
      rw [if_neg hzero, number_assemble64 (by omega) (fraction_moved hzero hm),
        if_neg (by omega), if_neg (by omega), hscale, Number.value?, Number.value?,
        value_moved hzero hm q]
      exact ⟨rfl, rfl⟩
  · rw [widen, number_of_eq h]
    dsimp only
    rw [number_assemble64 (by decide) (by decide)]
    exact ⟨rfl, rfl⟩
  · rw [widen, number_of_gt h]
    dsimp only
    rw [number_assemble64 (by decide) (by omega), if_pos rfl, if_neg (by omega)]
    exact ⟨rfl, rfl⟩

end SqlBind.Ieee
