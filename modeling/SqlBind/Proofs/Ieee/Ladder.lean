import Mathlib.Algebra.Order.AbsoluteValue.Basic
import Mathlib.Algebra.Order.Field.Power
import Mathlib.Algebra.Order.Field.Rat
import Mathlib.Order.Monotone.Basic
import Mathlib.Tactic.Linarith
import Mathlib.Tactic.NormNum
import Mathlib.Tactic.Ring
import SqlBind.Bytes.BigEndian
import SqlBind.Ieee.Order

/-!
# Rounding to the nearest number

Without its sign bit a pattern counts the numbers of a format from zero upwards. They are the rungs
of a ladder: neighbours are as far apart as the last place of the lower one is worth. The ladder
goes on where a format ends, so that a number which is too large can be told from one that is not.

* `Interchange.rung f n`: the `n`-th number; `rung_succ` is the gap to the next one.
* `number_of_lt`, `number_of_eq`, `number_of_gt`: the finite numbers of a format are its first
  rungs, and infinity is the next.
* `Interchange.Nearest f r n`: the `n`-th number is nearest to `r`, and of two it is the even one.
* `Nearest.unique`, `nearest_iff`: there is one such number at most, and it is decided by the two
  midpoints next to it.
* `Interchange.RoundsTo f negative r bits`: rounding to a pattern, with a sign; `roundsTo_iff_eq`:
  what is nearest to a finite number rounds to its pattern only.
-/

namespace SqlBind.Ieee.Interchange
set_option autoImplicit false

variable (f : Interchange)

/-- The significand of the `n`-th number. -/
def significand (n : Nat) : Nat :=
  if n < 2 ^ f.fractionBits then n else 2 ^ f.fractionBits + n % 2 ^ f.fractionBits

/-- The scale of the `n`-th number; without an implicit leading bit it is the least one. -/
def scale (n : Nat) : Int :=
  f.leastScale + (n / 2 ^ f.fractionBits - 1 : Nat)

/-- The `n`-th number. -/
def rung (n : Nat) : ℚ :=
  f.significand n * 2 ^ f.scale n

variable {f}

theorem fraction_range_pos (f : Interchange) : 0 < 2 ^ f.fractionBits :=
  Nat.two_pow_pos _

theorem significand_zero : f.significand 0 = 0 :=
  if_pos f.fraction_range_pos

theorem rung_zero : f.rung 0 = 0 := by
  rw [rung, significand_zero, Nat.cast_zero, zero_mul]

theorem significand_pos {n : Nat} (hn : 0 < n) : 0 < f.significand n := by
  have := f.fraction_range_pos
  unfold significand
  split_ifs <;> omega

theorem significand_lt (n : Nat) : f.significand n < 2 ^ (f.fractionBits + 1) := by
  have hfraction := Nat.mod_lt n f.fraction_range_pos
  rw [pow_succ]
  unfold significand
  split_ifs <;> omega

theorem significand_mod_two (hf : 0 < f.fractionBits) (n : Nat) : f.significand n % 2 = n % 2 := by
  obtain ⟨half, hhalf⟩ : 2 ∣ 2 ^ f.fractionBits := dvd_pow_self 2 hf.ne'
  have hfraction : n % 2 ^ f.fractionBits % 2 = n % 2 := Nat.mod_mod_of_dvd n ⟨half, hhalf⟩
  unfold significand
  split_ifs <;> omega

/-! ## Gaps -/

theorem significand_eq {e t : Nat} (ht : t < 2 ^ f.fractionBits) :
    f.significand (2 ^ f.fractionBits * e + t) = if e = 0 then t else 2 ^ f.fractionBits + t := by
  have hle : e ≠ 0 → 2 ^ f.fractionBits ≤ 2 ^ f.fractionBits * e := fun he =>
    Nat.le_mul_of_pos_right _ (Nat.pos_of_ne_zero he)
  rw [significand, Nat.mul_add_mod, Nat.mod_eq_of_lt ht]
  by_cases he : e = 0
  · rw [if_pos he, if_pos (by rwa [he, Nat.mul_zero, Nat.zero_add]), he, Nat.mul_zero, Nat.zero_add]
  · rw [if_neg he, if_neg (by have := hle he; omega)]

theorem scale_eq {e t : Nat} (ht : t < 2 ^ f.fractionBits) :
    f.scale (2 ^ f.fractionBits * e + t) = f.leastScale + (e - 1 : Nat) := by
  rw [scale, Nat.mul_add_div f.fraction_range_pos, Nat.div_eq_of_lt ht, Nat.add_zero]

theorem exists_fields (f : Interchange) (n : Nat) :
    ∃ e t, t < 2 ^ f.fractionBits ∧ n = 2 ^ f.fractionBits * e + t :=
  ⟨_, _, Nat.mod_lt n f.fraction_range_pos, (Nat.div_add_mod n _).symm⟩

theorem two_zpow_pos (q : Int) : (0 : ℚ) < 2 ^ q :=
  zpow_pos two_pos q

/-- The gap above a number is one unit in its last place. -/
theorem rung_succ (n : Nat) : f.rung (n + 1) = f.rung n + 2 ^ f.scale n := by
  obtain ⟨e, t, ht, rfl⟩ := f.exists_fields n
  rw [rung, rung, significand_eq ht, scale_eq ht]
  by_cases hlast : t + 1 < 2 ^ f.fractionBits
  · rw [Nat.add_assoc, significand_eq hlast, scale_eq hlast]
    split_ifs <;> push_cast <;> ring
  -- The last number of its scale, before a power of two.
  · have hcarry : 2 ^ f.fractionBits * e + t + 1 = 2 ^ f.fractionBits * (e + 1) + 0 := by
      rw [Nat.mul_succ]
      omega
    have hfull : (2 : ℚ) ^ f.fractionBits = t + 1 := by
      exact_mod_cast (by omega : 2 ^ f.fractionBits = t + 1)
    rw [hcarry, significand_eq f.fraction_range_pos, scale_eq f.fraction_range_pos]
    cases e with
    | zero =>
      rw [if_pos rfl, if_neg (Nat.succ_ne_zero 0), Nat.add_zero, Nat.cast_pow, Nat.cast_two, hfull]
      exact add_one_mul _ _
    | succ e =>
      have hscale : f.leastScale + (e + 1 + 1 - 1 : Nat) =
          f.leastScale + (e + 1 - 1 : Nat) + 1 := by omega
      rw [if_neg e.succ_ne_zero, if_neg (e + 1).succ_ne_zero, hscale, zpow_add_one₀ two_ne_zero]
      push_cast [hfull]
      ring

theorem strictMono_rung (f : Interchange) : StrictMono f.rung :=
  strictMono_nat_of_lt_succ fun n => by
    rw [rung_succ]
    exact lt_add_of_pos_right _ (two_zpow_pos _)

/-- The gap below a power of two is half as wide as the one above, unless numbers lack an implicit
leading bit there. -/
theorem scale_pred {n : Nat} (hn : n ≠ 0) :
    f.scale (n - 1) = if f.significand n = 2 ^ f.fractionBits ∧ f.leastScale < f.scale n
      then f.scale n - 1 else f.scale n := by
  obtain ⟨e, t, ht, rfl⟩ := f.exists_fields n
  rw [significand_eq ht, scale_eq ht]
  cases t with
  | succ t =>
    have hpred : 2 ^ f.fractionBits * e + (t + 1) - 1 = 2 ^ f.fractionBits * e + t := by omega
    rw [hpred, scale_eq (Nat.lt_of_succ_lt ht), if_neg]
    split_ifs <;> omega
  | zero =>
    obtain ⟨e, rfl⟩ : ∃ e', e = e' + 1 := Nat.exists_eq_succ_of_ne_zero (by rintro rfl; simp at hn)
    have hpred : 2 ^ f.fractionBits * (e + 1) + 0 - 1 =
        2 ^ f.fractionBits * e + (2 ^ f.fractionBits - 1) := by
      rw [Nat.mul_succ]
      omega
    rw [hpred, scale_eq (Nat.sub_lt ht one_pos), if_neg e.succ_ne_zero, Nat.add_zero]
    by_cases he : e = 0
    · rw [if_neg (by simp [he]), he]
    · rw [if_pos ⟨rfl, by omega⟩]
      omega

/-! ## Patterns -/

/-- A pattern without its sign bit. -/
def magnitude (f : Interchange) (bits : Nat) : Nat :=
  bits % 2 ^ (f.fractionBits + f.exponentBits)

/-- The pattern of infinity without its sign bit; NaNs are above, finite numbers below. -/
def infinity (f : Interchange) : Nat :=
  f.lastExponent * 2 ^ f.fractionBits

theorem exponent_eq (bits : Nat) : f.exponent bits = f.magnitude bits / 2 ^ f.fractionBits := by
  rw [exponent, magnitude, pow_add, Nat.mod_mul_right_div_self]

theorem fraction_eq (bits : Nat) : f.fraction bits = f.magnitude bits % 2 ^ f.fractionBits := by
  rw [fraction, magnitude, pow_add, Nat.mod_mul_right_mod]

theorem exponent_le (bits : Nat) : f.exponent bits ≤ f.lastExponent :=
  Nat.le_sub_one_of_lt (Nat.mod_lt _ (Nat.two_pow_pos _))

theorem magnitude_eq (bits : Nat) :
    f.magnitude bits = f.exponent bits * 2 ^ f.fractionBits + f.fraction bits := by
  rw [exponent_eq, fraction_eq, Nat.div_add_mod']

theorem number_of_lt {bits : Nat} (h : f.magnitude bits < f.infinity) :
    f.number bits = .finite (f.negative bits) (f.significand (f.magnitude bits))
      (f.scale (f.magnitude bits)) := by
  have hexponent : f.exponent bits ≠ f.lastExponent := by
    intro heq
    rw [magnitude_eq, heq, ← infinity] at h
    omega
  have hfraction : f.fraction bits < 2 ^ f.fractionBits := Nat.mod_lt _ f.fraction_range_pos
  have hfields : f.magnitude bits = 2 ^ f.fractionBits * f.exponent bits + f.fraction bits := by
    rw [magnitude_eq, Nat.mul_comm]
  rw [number, if_neg hexponent, hfields, significand_eq hfraction, scale_eq hfraction]
  by_cases hzero : f.exponent bits = 0
  · rw [if_pos hzero, if_pos hzero, hzero]
    simp
  · have hscale : ((f.exponent bits - 1 : Nat) : Int) = (f.exponent bits : Int) - 1 := by omega
    rw [if_neg hzero, if_neg hzero, hscale]

theorem exponent_of_le {bits : Nat} (h : f.infinity ≤ f.magnitude bits) :
    f.exponent bits = f.lastExponent := by
  refine le_antisymm (exponent_le bits) ?_
  rw [exponent_eq, Nat.le_div_iff_mul_le f.fraction_range_pos]
  exact h

theorem fraction_of_le {bits : Nat} (h : f.infinity ≤ f.magnitude bits) :
    f.magnitude bits = f.infinity + f.fraction bits := by
  rw [magnitude_eq, exponent_of_le h, infinity]

theorem number_of_eq {bits : Nat} (h : f.magnitude bits = f.infinity) :
    f.number bits = .infinite (f.negative bits) := by
  have hfraction := fraction_of_le h.ge
  rw [number, if_pos (exponent_of_le h.ge), if_pos (by omega)]

theorem number_of_gt {bits : Nat} (h : f.infinity < f.magnitude bits) : f.number bits = .nan := by
  have hfraction := fraction_of_le h.le
  rw [number, if_pos (exponent_of_le h.le), if_neg (by omega)]

/-- A pattern is its sign bit and what is left without it. -/
theorem eq_of_fields {bits bits' : Nat}
    (hbits : bits < 2 ^ (f.fractionBits + f.exponentBits + 1))
    (hbits' : bits' < 2 ^ (f.fractionBits + f.exponentBits + 1))
    (hsign : f.negative bits = f.negative bits')
    (hmagnitude : f.magnitude bits = f.magnitude bits') : bits = bits' := by
  have hdigit : ∀ b : Nat, b < 2 ^ (f.fractionBits + f.exponentBits + 1) →
      b = 2 ^ (f.fractionBits + f.exponentBits) * (if f.negative b then 1 else 0) +
        f.magnitude b := by
    intro b hb
    have hlt : b / 2 ^ (f.fractionBits + f.exponentBits) < 2 := by
      rw [Nat.div_lt_iff_lt_mul (Nat.two_pow_pos _), ← pow_succ']
      exact hb
    have hsplit := Nat.div_add_mod b (2 ^ (f.fractionBits + f.exponentBits))
    have hsign : ∀ top < 2, top = if (top % 2 == 1) then 1 else 0 := by decide
    rw [negative, ← hsign _ hlt]
    exact hsplit.symm
  rw [hdigit bits hbits, hdigit bits' hbits', hsign, hmagnitude]

/-! ## The nearest number -/

/-- The `n`-th number is nearest to `r`; if another is as near, the `n`-th is the one whose last
place is even. -/
structure Nearest (f : Interchange) (r : ℚ) (n : Nat) : Prop where
  le : ∀ n', |f.rung n - r| ≤ |f.rung n' - r|
  even : ∀ n', n' ≠ n → |f.rung n' - r| = |f.rung n - r| → n % 2 = 0

/-- Half-way between two numbers. -/
def midpoint (f : Interchange) (n n' : Nat) : ℚ :=
  (f.rung n + f.rung n') / 2

variable {n n' : Nat} {r : ℚ}

theorem dist_lower_le_iff (h : n < n') :
    |f.rung n - r| ≤ |f.rung n' - r| ↔ r ≤ f.midpoint n n' := by
  have hlt := f.strictMono_rung h
  rw [← sq_le_sq, midpoint]
  constructor
  · intro hle
    nlinarith
  · intro hle
    nlinarith

theorem dist_upper_le_iff (h : n < n') :
    |f.rung n' - r| ≤ |f.rung n - r| ↔ f.midpoint n n' ≤ r := by
  have hlt := f.strictMono_rung h
  rw [← sq_le_sq, midpoint]
  constructor
  · intro hle
    nlinarith
  · intro hle
    nlinarith

theorem dist_eq_iff (h : n < n') :
    |f.rung n - r| = |f.rung n' - r| ↔ r = f.midpoint n n' := by
  rw [le_antisymm_iff, dist_lower_le_iff h, dist_upper_le_iff h, le_antisymm_iff]

theorem midpoint_mono {k k' : Nat} (h : n ≤ k) (h' : n' ≤ k') :
    f.midpoint n n' ≤ f.midpoint k k' := by
  have hlower := f.strictMono_rung.monotone h
  have hupper := f.strictMono_rung.monotone h'
  rw [midpoint, midpoint]
  linarith

theorem rung_lt_midpoint (h : n < n') : f.rung n < f.midpoint n n' := by
  have hlt := f.strictMono_rung h
  rw [midpoint]
  linarith

theorem Nearest.not_above (h : f.Nearest r n) (h' : f.Nearest r n') : ¬ n < n' := by
  intro hlt
  have htie := le_antisymm (h.le n') (h'.le n)
  have hmid := (dist_eq_iff hlt).1 htie
  -- Both are even, so there is a number between them, and it is nearer.
  have hn := h.even n' hlt.ne' htie.symm
  have hn' := h'.even n hlt.ne htie
  have hbetween : n + 1 < n' := by omega
  have hnearer := (dist_lower_le_iff (Nat.lt_succ_self n)).1 (h.le (n + 1))
  have hlower := f.strictMono_rung hbetween
  rw [hmid, midpoint, midpoint] at hnearer
  linarith

theorem Nearest.unique (h : f.Nearest r n) (h' : f.Nearest r n') : n = n' :=
  le_antisymm (not_lt.1 (h'.not_above h)) (not_lt.1 (h.not_above h'))

/-- What is nearest is decided by the midpoints to the neighbours, of which zero has only one. -/
theorem nearest_iff :
    f.Nearest r n ↔
      (n ≠ 0 → f.midpoint (n - 1) n < r ∨ n % 2 = 0 ∧ r = f.midpoint (n - 1) n) ∧
        (r < f.midpoint n (n + 1) ∨ n % 2 = 0 ∧ r = f.midpoint n (n + 1)) := by
  constructor
  · intro h
    constructor
    · intro hn
      have hpred : n - 1 < n := by omega
      rcases ((dist_upper_le_iff hpred).1 (h.le (n - 1))).lt_or_eq with hlt | heq
      · exact .inl hlt
      · exact .inr ⟨h.even (n - 1) hpred.ne ((dist_eq_iff hpred).2 heq.symm), heq.symm⟩
    · have hsucc := Nat.lt_succ_self n
      rcases ((dist_lower_le_iff hsucc).1 (h.le (n + 1))).lt_or_eq with hlt | heq
      · exact .inl hlt
      · exact .inr ⟨h.even (n + 1) hsucc.ne' ((dist_eq_iff hsucc).2 heq).symm, heq⟩
  · rintro ⟨hlower, hupper⟩
    have hhigh : r ≤ f.midpoint n (n + 1) := hupper.elim le_of_lt fun h => h.2.le
    have hlow : n ≠ 0 → f.midpoint (n - 1) n ≤ r := fun hn =>
      (hlower hn).elim le_of_lt fun h => h.2.ge
    have hbelow : ∀ n' < n, f.midpoint n' n ≤ f.midpoint (n - 1) n := fun n' hlt =>
      midpoint_mono (Nat.le_sub_one_of_lt hlt) le_rfl
    have habove : ∀ n', n < n' → f.midpoint n (n + 1) ≤ f.midpoint n n' := fun n' hlt =>
      midpoint_mono le_rfl hlt
    constructor
    · intro n'
      rcases lt_trichotomy n' n with hlt | rfl | hlt
      · exact (dist_upper_le_iff hlt).2 ((hbelow n' hlt).trans (hlow (Nat.ne_zero_of_lt hlt)))
      · exact le_rfl
      · exact (dist_lower_le_iff hlt).2 (hhigh.trans (habove n' hlt))
    -- A tie with a number further off than a neighbour would lie beyond the midpoint to that one.
    · intro n' hne htie
      rcases hne.lt_or_gt with hlt | hlt
      · rw [(dist_eq_iff hlt).1 htie] at hlower
        have hnot := (hbelow n' hlt).not_gt
        exact ((hlower (Nat.ne_zero_of_lt hlt)).resolve_left hnot).1
      · rw [(dist_eq_iff hlt).1 htie.symm] at hupper
        exact (hupper.resolve_left (habove n' hlt).not_gt).1

theorem nearest_zero : f.Nearest 0 0 := by
  have hmid : f.rung 0 < f.midpoint 0 1 := rung_lt_midpoint Nat.zero_lt_one
  rw [rung_zero] at hmid
  exact nearest_iff.2 ⟨fun h => absurd rfl h, .inl hmid⟩

/-- A number with this sign and this exact magnitude rounds to a pattern: that of the nearest
number, or that of infinity if the nearest number is not one of the format. -/
def RoundsTo (f : Interchange) (negative : Bool) (r : ℚ) (bits : Nat) : Prop :=
  f.negative bits = negative ∧ ∃ n, f.Nearest r n ∧ f.magnitude bits = min n f.infinity

/-- What rounds to a finite number rounds to no other. -/
theorem roundsTo_iff_eq {bits bits' : Nat}
    (hbits : bits < 2 ^ (f.fractionBits + f.exponentBits + 1))
    (hbits' : bits' < 2 ^ (f.fractionBits + f.exponentBits + 1))
    (hfinite : f.magnitude bits < f.infinity) {r : ℚ} (h : f.Nearest r (f.magnitude bits)) :
    f.RoundsTo (f.negative bits) r bits' ↔ bits' = bits := by
  have hmin : min (f.magnitude bits) f.infinity = f.magnitude bits := min_eq_left hfinite.le
  constructor
  · rintro ⟨hsign, n, hn, hmagnitude⟩
    rw [hn.unique h, hmin] at hmagnitude
    exact eq_of_fields hbits' hbits hsign hmagnitude
  · rintro rfl
    exact ⟨rfl, _, h, hmin.symm⟩

end SqlBind.Ieee.Interchange
