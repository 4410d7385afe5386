import Mathlib.Algebra.Order.Field.Power
import Mathlib.Algebra.Order.Field.Rat
import Mathlib.Tactic.Linarith
import Mathlib.Tactic.NormNum
import Mathlib.Tactic.Positivity
import Mathlib.Tactic.Ring
import SqlBind.Bytes.BigEndian
import SqlBind.Ieee.Shortest

/-!
# Exact arithmetic with two scales

Multiples of powers of ten are compared with multiples of powers of two, on natural numbers: powers
with a negative exponent are moved to the other side.

* `compareScaled_eq_lt_iff`, `compareScaled_eq_gt_iff`, `compareScaled_eq_eq_iff`: the order.
* `floorScaled_le`, `lt_floorScaled`: the integer part.
* `digitCount_le_iff`: how many digits a number has.
* `leadingExponent_spec`: the power of ten at or below a number.
-/

namespace SqlBind.Ieee
set_option autoImplicit false

theorem ten_zpow_pos (k : Int) : (0 : ℚ) < 10 ^ k :=
  zpow_pos (by norm_num) k

theorem pow_toNat {b : ℚ} (hb : b ≠ 0) (k : Int) : b ^ k.toNat = b ^ k * b ^ (-k).toNat := by
  rw [← zpow_natCast, ← zpow_natCast, ← zpow_add₀ hb]
  congr 1
  omega

/-- What both sides of a comparison are multiplied by, so that no negative powers are left. -/
def clearing (k q : Int) : ℚ :=
  10 ^ (-k).toNat * 2 ^ (-q).toNat

theorem clearing_pos (k q : Int) : 0 < clearing k q := by
  unfold clearing
  positivity

theorem cleared_ten (a : Nat) (k q : Int) :
    ((a * 10 ^ k.toNat * 2 ^ (-q).toNat : Nat) : ℚ) = a * 10 ^ k * clearing k q := by
  push_cast
  rw [pow_toNat (by norm_num : (10 : ℚ) ≠ 0) k, clearing]
  ring

theorem cleared_two (b : Nat) (k q : Int) :
    ((b * 2 ^ q.toNat * 10 ^ (-k).toNat : Nat) : ℚ) = b * 2 ^ q * clearing k q := by
  push_cast
  rw [pow_toNat (by norm_num : (2 : ℚ) ≠ 0) q, clearing]
  ring

variable {a b m n : Nat} {k q : Int}

theorem compareScaled_eq_lt_iff : compareScaled a k b q = .lt ↔ (a : ℚ) * 10 ^ k < b * 2 ^ q := by
  rw [compareScaled, Nat.compare_eq_lt, ← Nat.cast_lt (α := ℚ), cleared_ten, cleared_two,
    mul_lt_mul_iff_left₀ (clearing_pos k q)]

theorem compareScaled_eq_gt_iff : compareScaled a k b q = .gt ↔ (b : ℚ) * 2 ^ q < a * 10 ^ k := by
  rw [compareScaled, Nat.compare_eq_gt, ← Nat.cast_lt (α := ℚ), cleared_ten, cleared_two,
    mul_lt_mul_iff_left₀ (clearing_pos k q)]

theorem compareScaled_eq_eq_iff : compareScaled a k b q = .eq ↔ (a : ℚ) * 10 ^ k = b * 2 ^ q := by
  rw [compareScaled, Nat.compare_eq_eq, ← Nat.cast_inj (R := ℚ), cleared_ten, cleared_two,
    mul_left_inj' (clearing_pos k q).ne']

/-! ## Integer parts -/

theorem cleared_den (k q : Int) :
    ((2 ^ (-q).toNat * 10 ^ k.toNat : Nat) : ℚ) = 10 ^ k * clearing k q := by
  have h := cleared_ten 1 k q
  rw [Nat.one_mul, Nat.mul_comm, Nat.cast_one, one_mul] at h
  exact h

theorem floorScaled_le (m : Nat) (q k : Int) : (floorScaled m q k : ℚ) * 10 ^ k ≤ m * 2 ^ q := by
  have h : floorScaled m q k * (2 ^ (-q).toNat * 10 ^ k.toNat) ≤
      m * 2 ^ q.toNat * 10 ^ (-k).toNat := Nat.div_mul_le_self _ _
  rw [← Nat.cast_le (α := ℚ), Nat.cast_mul, cleared_den, cleared_two, ← mul_assoc] at h
  exact le_of_mul_le_mul_right h (clearing_pos k q)

theorem lt_floorScaled (m : Nat) (q k : Int) :
    (m : ℚ) * 2 ^ q < (floorScaled m q k + 1) * 10 ^ k := by
  have hden : 0 < 2 ^ (-q).toNat * 10 ^ k.toNat := by positivity
  have h : m * 2 ^ q.toNat * 10 ^ (-k).toNat <
      (floorScaled m q k + 1) * (2 ^ (-q).toNat * 10 ^ k.toNat) := by
    rw [Nat.mul_comm (_ + 1)]
    exact Nat.lt_mul_div_succ _ hden
  rw [← Nat.cast_lt (α := ℚ), Nat.cast_mul (floorScaled m q k + 1), cleared_den, cleared_two,
    ← mul_assoc] at h
  exact_mod_cast lt_of_mul_lt_mul_right h (clearing_pos k q).le

/-- On the grid of multiples of `10 ^ k`, the integer part is the last point that is not above. -/
theorem le_floorScaled {c : Nat} (h : (c : ℚ) * 10 ^ k ≤ m * 2 ^ q) : c ≤ floorScaled m q k := by
  have hlt := lt_of_mul_lt_mul_right (h.trans_lt (lt_floorScaled m q k)) (ten_zpow_pos k).le
  exact Nat.le_of_lt_succ (by exact_mod_cast hlt)

theorem floorScaled_lt {c : Nat} (h : (m : ℚ) * 2 ^ q < c * 10 ^ k) : floorScaled m q k < c := by
  have hlt := lt_of_mul_lt_mul_right ((floorScaled_le m q k).trans_lt h) (ten_zpow_pos k).le
  exact_mod_cast hlt

/-! ## Leading digits -/

theorem digitCount_pos (n : Nat) : 0 < digitCount n :=
  Nat.length_toDigits_pos

theorem digitCount_le_iff {s : Nat} (hs : 0 < s) : digitCount n ≤ s ↔ n < 10 ^ s :=
  Nat.length_toDigits_le_iff (by norm_num) hs

theorem lt_ten_pow_digitCount (n : Nat) : n < 10 ^ digitCount n :=
  (digitCount_le_iff (digitCount_pos n)).1 le_rfl

theorem ten_pow_le_of_pos (hn : 0 < n) : 10 ^ (digitCount n - 1) ≤ n := by
  by_contra hlt
  by_cases hone : digitCount n = 1
  · rw [hone] at hlt
    exact hlt hn
  · have hpos := digitCount_pos n
    have hle := (digitCount_le_iff (by omega)).2 (not_le.1 hlt)
    omega

section

variable {num den : Nat}

theorem ten_pow_mul_le (hden : 0 < den) (h : den ≤ num) :
    10 ^ (digitCount (num / den) - 1) * den ≤ num ∧ num < 10 ^ digitCount (num / den) * den :=
  ⟨(Nat.le_div_iff_mul_le hden).1 (ten_pow_le_of_pos (Nat.div_pos h hden)),
    (Nat.div_lt_iff_lt_mul hden).1 (lt_ten_pow_digitCount _)⟩

theorem le_ten_pow_mul (hnum : 0 < num) (h : num < den) :
    den ≤ 10 ^ digitCount ((den - 1) / num) * num ∧
      10 ^ (digitCount ((den - 1) / num) - 1) * num < den := by
  have hupper := (Nat.div_lt_iff_lt_mul hnum).1 (lt_ten_pow_digitCount ((den - 1) / num))
  have hquotient : 0 < (den - 1) / num := Nat.div_pos (Nat.le_sub_one_of_lt h) hnum
  have hlower := (Nat.le_div_iff_mul_le hnum).1 (ten_pow_le_of_pos hquotient)
  constructor <;> omega

end

/-- **The leading digit of a number has this exponent.** -/
theorem leadingExponent_spec (hm : 0 < m) (q : Int) :
    (10 : ℚ) ^ leadingExponent m q ≤ m * 2 ^ q ∧
      (m : ℚ) * 2 ^ q < 10 ^ (leadingExponent m q + 1) := by
  have hvalue : (m : ℚ) * 2 ^ q * (2 ^ (-q).toNat : Nat) = (m * 2 ^ q.toNat : Nat) := by
    push_cast
    rw [pow_toNat two_ne_zero q]
    ring
  have hnum : 0 < m * 2 ^ q.toNat := Nat.mul_pos hm (Nat.two_pow_pos _)
  have hden : 0 < 2 ^ (-q).toNat := Nat.two_pow_pos _
  unfold leadingExponent
  dsimp only
  generalize m * 2 ^ q.toNat = num at *
  generalize 2 ^ (-q).toNat = den at *
  have hden' : (0 : ℚ) < den := Nat.cast_pos.2 hden
  by_cases hle : den ≤ num
  · obtain ⟨hlower, hupper⟩ := ten_pow_mul_le hden hle
    have hpos := digitCount_pos (num / den)
    generalize digitCount (num / den) = digits at *
    have hexponent : (digits : Int) - 1 = (digits - 1 : Nat) := by omega
    rw [if_pos hle, Int.sub_add_cancel, hexponent, zpow_natCast, zpow_natCast,
      ← mul_le_mul_iff_left₀ hden', ← mul_lt_mul_iff_left₀ hden', hvalue]
    exact ⟨by exact_mod_cast hlower, by exact_mod_cast hupper⟩
  · obtain ⟨hlower, hupper⟩ := le_ten_pow_mul hnum (not_le.1 hle)
    have hpos := digitCount_pos ((den - 1) / num)
    generalize digitCount ((den - 1) / num) = digits at *
    have hexponent : -(digits : Int) + 1 = -((digits - 1 : Nat) : Int) := by omega
    have hten' : (0 : ℚ) < 10 := by norm_num
    rw [if_neg hle, hexponent, zpow_neg, zpow_neg, zpow_natCast, zpow_natCast, inv_eq_one_div,
      inv_eq_one_div, div_le_iff₀ (pow_pos hten' _), lt_div_iff₀ (pow_pos hten' _),
      ← mul_le_mul_iff_left₀ hden', ← mul_lt_mul_iff_left₀ hden', mul_right_comm, hvalue,
      mul_right_comm, hvalue, one_mul, mul_comm, mul_comm (num : ℚ)]
    exact ⟨by exact_mod_cast hlower, by exact_mod_cast hupper⟩

end SqlBind.Ieee
