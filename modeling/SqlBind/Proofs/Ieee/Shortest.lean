import Mathlib.Data.Nat.Digits.Lemmas
import SqlBind.Proofs.Ieee.Ladder
import SqlBind.Proofs.Ieee.Scaled
import SqlBind.Proofs.Text.Notation

/-!
# Shortest decimals

The decimals that round to a number are those in an interval around it. With so many digits the
decimals are the points of a grid, and if a point of a grid lies in the interval, one of the two
points next to the number does.

* `significantDigits c`: how many digits a decimal has, zeros at its end not counted.
* `Neighbourhood.Contains v r`: `r` lies in the interval of a number; `holds_iff` decides it.
* `contains_iff_nearest`: what lies in the interval of a number is what rounds to it.
* `Neighbourhood.Meets v k`: a grid meets the interval, next to the number.
* `Neighbourhood.Shortest v d k`: no decimal in the interval has fewer digits than `d · 10 ^ k`.
* `exists_shortest`: such a decimal is found.
-/

namespace SqlBind.Ieee
set_option autoImplicit false

/-! ## Significant digits -/

/-- How many digits a number has, zeros at its end not counted. -/
def significantDigits (c : Nat) : Nat :=
  ((Nat.digits 10 c).dropWhile (· = 0)).length

theorem significantDigits_mul_pow (c i : Nat) :
    significantDigits (c * 10 ^ i) = significantDigits c := by
  rcases Nat.eq_zero_or_pos c with rfl | hc
  · rw [Nat.zero_mul]
  · rw [significantDigits, Nat.mul_comm, Nat.digits_base_pow_mul (by norm_num) hc,
      List.dropWhile_append_of_pos (by simp), significantDigits]

theorem significantDigits_le {c s : Nat} (hs : 0 < s) (h : c ≤ 10 ^ s) :
    significantDigits c ≤ s := by
  rcases h.lt_or_eq with hlt | rfl
  · have hlength := (Nat.digits_length_le_iff (by norm_num) c).2 hlt
    exact (List.dropWhile_suffix _).length_le.trans hlength
  · rw [← Nat.one_mul (10 ^ s), significantDigits_mul_pow]
    exact (le_of_eq (by simp [significantDigits])).trans hs

theorem exists_lt_significantDigits (c : Nat) :
    ∃ c' i, c = c' * 10 ^ i ∧ c' < 10 ^ significantDigits c := by
  have hzeros : Nat.ofDigits 10 ((Nat.digits 10 c).takeWhile (· = 0)) = 0 := by
    rw [takeWhile_eq_replicate fun _ => of_decide_eq_true, Nat.ofDigits_replicate_zero]
  refine ⟨Nat.ofDigits 10 ((Nat.digits 10 c).dropWhile (· = 0)),
    ((Nat.digits 10 c).takeWhile (· = 0)).length, ?_, ?_⟩
  · conv_lhs => rw [← Nat.ofDigits_digits 10 c,
      ← List.takeWhile_append_dropWhile (p := (· = 0)) (l := Nat.digits 10 c)]
    rw [Nat.ofDigits_append, hzeros, Nat.zero_add, Nat.mul_comm]
  · refine Nat.ofDigits_lt_base_pow_length (by norm_num) fun d hd => ?_
    exact Nat.digits_lt_base (by norm_num) ((List.dropWhile_suffix _).subset hd)

namespace Neighbourhood

/-- The lower end of the interval. -/
def low (v : Neighbourhood) : ℚ :=
  v.lower * 2 ^ (v.scale - 2)

/-- The upper end of the interval. -/
def high (v : Neighbourhood) : ℚ :=
  v.upper * 2 ^ (v.scale - 2)

/-- The exact number. -/
def value (v : Neighbourhood) : ℚ :=
  v.significand * 2 ^ v.scale

/-- The interval contains `r`; its ends belong to it if it is closed. -/
def Contains (v : Neighbourhood) (r : ℚ) : Prop :=
  (v.low < r ∨ v.closed = true ∧ r = v.low) ∧ (r < v.high ∨ v.closed = true ∧ r = v.high)

variable {v : Neighbourhood} {d n : Nat} {k : Int}

theorem holds_iff : v.holds d k = true ↔ v.Contains (d * 10 ^ k) := by
  simp only [holds, Contains, low, high, Bool.and_eq_true, Bool.or_eq_true, beq_iff_eq,
    compareScaled_eq_gt_iff, compareScaled_eq_lt_iff, compareScaled_eq_eq_iff]

/-- An interval is convex. -/
theorem Contains.between {r r' x : ℚ} (h : v.Contains r) (h' : v.Contains r') (hle : r ≤ x)
    (hle' : x ≤ r') : v.Contains x := by
  constructor
  · rcases h.1 with hlow | ⟨hclosed, hlow⟩
    · exact .inl (hlow.trans_le hle)
    · exact (hlow.symm.trans_le hle).lt_or_eq.imp id fun heq => ⟨hclosed, heq.symm⟩
  · rcases h'.2 with hhigh | ⟨hclosed, hhigh⟩
    · exact .inl (hle'.trans_lt hhigh)
    · exact (hle'.trans_eq hhigh).lt_or_eq.imp id fun heq => ⟨hclosed, heq⟩

theorem contains_of_lt {r : ℚ} (hlow : v.low < r) (hhigh : r < v.high) : v.Contains r :=
  ⟨.inl hlow, .inl hhigh⟩

/-! ## Grids -/

theorem mem_onGrid {tie : Tie} {c : Nat} (h : v.onGrid tie k = some c) :
    v.Contains (c * 10 ^ k) ∧ c ≤ floorScaled v.significand v.scale k + 1 := by
  rw [← holds_iff]
  unfold onGrid at h
  dsimp only at h
  generalize floorScaled v.significand v.scale k = d at *
  have hnearer : v.nearer tie d k = d ∨ v.nearer tie d k = d + 1 := by
    unfold nearer
    split
    · exact .inr rfl
    · exact .inl rfl
    · cases tie with
      | up => exact .inr rfl
      | even => exact (ite_eq_or_eq _ _ _)
  cases hlower : v.holds d k <;> cases hupper : v.holds (d + 1) k <;> rw [hlower, hupper] at h
  · cases h
  · cases h
    exact ⟨hupper, le_rfl⟩
  · cases h
    exact ⟨hlower, Nat.le_succ _⟩
  · cases h
    rcases hnearer with heq | heq <;> rw [heq]
    · exact ⟨hlower, Nat.le_succ _⟩
    · exact ⟨hupper, le_rfl⟩

/-- One of the two grid points next to the number rounds to it. -/
def Meets (v : Neighbourhood) (k : Int) : Prop :=
  v.Contains (floorScaled v.significand v.scale k * 10 ^ k) ∨
    v.Contains ((floorScaled v.significand v.scale k + 1 : Nat) * 10 ^ k)

theorem exists_onGrid (tie : Tie) (h : v.Meets k) : ∃ c, v.onGrid tie k = some c := by
  rw [Meets, ← holds_iff, ← holds_iff] at h
  unfold onGrid
  dsimp only
  generalize floorScaled v.significand v.scale k = d at *
  cases hlower : v.holds d k <;> cases hupper : v.holds (d + 1) k
  · simp [hlower, hupper] at h
  · exact ⟨_, rfl⟩
  · exact ⟨_, rfl⟩
  · exact ⟨_, rfl⟩

/-- The grid of decimals with so many significant digits. -/
def grid (v : Neighbourhood) (n : Nat) : Int :=
  leadingExponent v.significand v.scale - n + 1

/-- A number lies within its interval, which is wide enough for seventeen digits. -/
structure Sound (v : Neighbourhood) : Prop where
  significand_pos : 0 < v.significand
  low_pos : 0 < v.low
  low_lt : v.low < v.value
  lt_high : v.value < v.high
  width : 10 ^ v.grid mostDigits < v.high - v.low

namespace Sound

variable (hv : v.Sound)
include hv

theorem contains_value : v.Contains v.value :=
  contains_of_lt hv.low_lt hv.lt_high

theorem pos_of_contains {r : ℚ} (h : v.Contains r) : 0 < r :=
  hv.low_pos.trans_le (h.1.elim le_of_lt fun heq => heq.2.ge)

theorem significantDigits_pos {c : Nat} {j : Int} (h : v.Contains (c * 10 ^ j)) :
    0 < significantDigits c := by
  obtain ⟨c', i, hc', hlt⟩ := exists_lt_significantDigits c
  refine Nat.pos_of_ne_zero fun hzero => ?_
  rw [hzero, pow_zero, Nat.lt_one_iff] at hlt
  have hpos := hv.pos_of_contains h
  rw [hc', hlt, Nat.zero_mul, Nat.cast_zero, zero_mul] at hpos
  exact lt_irrefl 0 hpos

/-- The two grid points next to the number are not both outside of a wide interval. -/
theorem meets_of_width (hwidth : 10 ^ k < v.high - v.low) : v.Meets k := by
  have hle := floorScaled_le v.significand v.scale k
  have hlt := lt_floorScaled v.significand v.scale k
  rw [← value] at hle hlt
  by_cases hlow : v.low < floorScaled v.significand v.scale k * 10 ^ k
  · exact .inl (contains_of_lt hlow (hle.trans_lt hv.lt_high))
  · right
    push_cast
    refine contains_of_lt (hv.low_lt.trans hlt) ?_
    rw [add_one_mul]
    linarith

/-- A point of a grid lies on one side of the number, and the next point on that side between. -/
theorem meets_of_point {c : Nat} (h : v.Contains (c * 10 ^ k)) : v.Meets k := by
  have hfloor := floorScaled_le v.significand v.scale k
  have hceil := lt_floorScaled v.significand v.scale k
  rw [← value] at hfloor hceil
  rcases le_or_gt ((c : ℚ) * 10 ^ k) v.value with hle | hgt
  · have hpoint : c ≤ floorScaled v.significand v.scale k := le_floorScaled hle
    refine .inl (h.between hv.contains_value ?_ hfloor)
    exact mul_le_mul_of_nonneg_right (Nat.cast_le.2 hpoint) (ten_zpow_pos k).le
  · have hpoint : floorScaled v.significand v.scale k + 1 ≤ c := floorScaled_lt hgt
    refine .inr (hv.contains_value.between h ?_ ?_)
    · exact_mod_cast hceil.le
    · exact mul_le_mul_of_nonneg_right (Nat.cast_le.2 hpoint) (ten_zpow_pos k).le

/-- The power of ten at or below the number lies on every grid. -/
theorem meets_of_le {s : Nat} {r : ℚ} (h : v.Contains r)
    (hr : r ≤ 10 ^ leadingExponent v.significand v.scale) : v.Meets (v.grid (s + 1)) := by
  have hleading := (leadingExponent_spec hv.significand_pos v.scale).1
  have hpower : (10 : ℚ) ^ leadingExponent v.significand v.scale =
      (10 ^ s : Nat) * 10 ^ v.grid (s + 1) := by
    push_cast
    rw [← zpow_natCast, ← zpow_add₀ (by norm_num), grid]
    congr 1
    push_cast
    ring
  apply hv.meets_of_point
  rw [← hpower]
  exact h.between hv.contains_value hr hleading

/-- Whatever the interval holds with so many digits, the grid of these digits meets it. -/
theorem meets_of_digits {c s : Nat} {j : Int} (hs : 0 < s) (hc : c < 10 ^ s)
    (h : v.Contains (c * 10 ^ j)) : v.Meets (v.grid s) := by
  have hten : (10 : ℚ) ≠ 0 := by norm_num
  by_cases hj : v.grid s ≤ j
  -- A coarser decimal is itself on the grid.
  · obtain ⟨i, rfl⟩ : ∃ i : Nat, j = v.grid s + i := ⟨(j - v.grid s).toNat, by omega⟩
    have hgrid : (c : ℚ) * 10 ^ (v.grid s + i : Int) = (c * 10 ^ i : Nat) * 10 ^ v.grid s := by
      rw [zpow_add₀ hten, zpow_natCast]
      push_cast
      ring
    rw [hgrid] at h
    exact hv.meets_of_point h
  -- A finer one is not above the leading power of ten.
  · obtain ⟨s, rfl⟩ : ∃ s', s = s' + 1 := Nat.exists_eq_succ_of_ne_zero hs.ne'
    have hstep : (10 : ℚ) ^ j ≤ 10 ^ (v.grid (s + 1) - 1) :=
      zpow_le_zpow_right₀ (by norm_num) (by omega)
    refine hv.meets_of_le h ?_
    calc (c : ℚ) * 10 ^ j ≤ (10 ^ (s + 1) : Nat) * 10 ^ (v.grid (s + 1) - 1) :=
          mul_le_mul (Nat.cast_le.2 hc.le) hstep (ten_zpow_pos _).le (Nat.cast_nonneg _)
      _ = 10 ^ leadingExponent v.significand v.scale := by
          push_cast
          rw [← zpow_natCast, ← zpow_add₀ hten, grid]
          congr 1
          push_cast
          ring

end Sound

theorem exists_candidate (tie : Tie) (h : v.Meets (v.grid n)) : v.candidate tie n ≠ none := by
  obtain ⟨c, hc⟩ := exists_onGrid tie h
  rw [candidate, ← grid, hc]
  exact Option.some_ne_none _

theorem candidate_eq_some (hv : v.Sound) {tie : Tie} {shown : Decimal}
    (h : v.candidate tie n = some shown) :
    ∃ c, shown = decimal c (v.grid n) ∧ v.Contains (c * 10 ^ v.grid n) ∧ c ≤ 10 ^ n := by
  obtain ⟨c, hc, rfl⟩ := Option.map_eq_some_iff.1 h
  obtain ⟨hcontains, hle⟩ := mem_onGrid hc
  refine ⟨c, rfl, hcontains, hle.trans (floorScaled_lt ?_)⟩
  have hupper := (leadingExponent_spec hv.significand_pos v.scale).2
  have hpower : ((10 ^ n : Nat) : ℚ) * 10 ^ v.grid n =
      10 ^ (leadingExponent v.significand v.scale + 1) := by
    push_cast
    rw [← zpow_natCast, ← zpow_add₀ (by norm_num), grid]
    congr 1
    ring
  rw [← grid, hpower]
  exact hupper

/-! ## The first grid -/

/-- The decimal `d · 10 ^ k` lies in the interval, and nothing there has fewer digits. -/
structure Shortest (v : Neighbourhood) (d : Nat) (k : Int) : Prop where
  contains : v.Contains (d * 10 ^ k)
  least : ∀ (c : Nat) (j : Int), v.Contains (c * 10 ^ j) → significantDigits d ≤ significantDigits c

/-- **The shortest decimal in the interval is found**, with seventeen digits at most. -/
theorem exists_shortest (hv : v.Sound) (tie : Tie) :
    ∃ d k, v.shortest tie = decimal d k ∧ v.Shortest d k := by
  have hmost := exists_candidate tie (hv.meets_of_width hv.width)
  rw [shortest]
  cases hfound : (List.range' 1 mostDigits).findSome? (v.candidate tie) with
  | none =>
    rw [List.findSome?_eq_none_iff] at hfound
    exact absurd (hfound mostDigits (by decide)) hmost
  | some shown =>
    obtain ⟨before, s, after, hrange, hs, hbefore⟩ := List.findSome?_eq_some_iff.1 hfound
    obtain ⟨length, -, rfl, hafter⟩ := List.range'_eq_append_iff.1 hrange
    obtain ⟨rfl, -⟩ := List.range'_eq_cons_iff.1 hafter.symm
    obtain ⟨d, rfl, hcontains, hle⟩ := candidate_eq_some hv hs
    refine ⟨d, _, rfl, hcontains, fun c j hc => ?_⟩
    refine (significantDigits_le (by omega) hle).trans ?_
    by_contra hless
    -- A decimal with fewer digits would have stopped the search at its own grid.
    obtain ⟨c', i, hc', hlt⟩ := exists_lt_significantDigits c
    have hcoarse : v.Contains (c' * 10 ^ (i + j)) := by
      rw [hc'] at hc
      push_cast at hc
      rwa [zpow_add₀ (by norm_num), zpow_natCast, ← mul_assoc]
    have hpos := hv.significantDigits_pos hc
    have hmem : significantDigits c ∈ List.range' 1 length := List.mem_range'_1.2 ⟨hpos, by omega⟩
    exact exists_candidate tie (hv.meets_of_digits hpos hlt hcoarse) (hbefore _ hmem)

/-! ## The neighbourhood of a number of a format -/

section

variable {f : Interchange} {m : Nat} {q : Int}

theorem two_zpow_eq (q : Int) : (2 : ℚ) ^ q = 4 * 2 ^ (q - 2) := by
  rw [zpow_sub₀ two_ne_zero]
  norm_num
  ring

theorem closed_of : (of f m q).closed = true ↔ m % 2 = 0 :=
  beq_iff_eq

theorem high_of (f : Interchange) (m : Nat) (q : Int) :
    (of f m q).high = (of f m q).value + 2 ^ q / 2 := by
  show ((4 * m + 2 : Nat) : ℚ) * 2 ^ (q - 2) = m * 2 ^ q + 2 ^ q / 2
  rw [two_zpow_eq q]
  push_cast
  ring

theorem low_of (hm : 0 < m) (q : Int) :
    (of f m q).low = (of f m q).value -
      2 ^ (if m = 2 ^ f.fractionBits ∧ f.leastScale < q then q - 1 else q) / 2 := by
  show ((if _ then 4 * m - 1 else 4 * m - 2 : Nat) : ℚ) * 2 ^ (q - 2) = m * 2 ^ q - _
  split_ifs
  · rw [zpow_sub_one₀ two_ne_zero, two_zpow_eq q, Nat.cast_sub (by omega)]
    push_cast
    ring
  · rw [two_zpow_eq q, Nat.cast_sub (by omega)]
    push_cast
    ring

/-- The interval of a number ends half-way to its neighbours. -/
theorem ends_of {n : Nat} (hn : n ≠ 0) :
    (of f (f.significand n) (f.scale n)).low = f.midpoint (n - 1) n ∧
      (of f (f.significand n) (f.scale n)).high = f.midpoint n (n + 1) := by
  have hvalue : (of f (f.significand n) (f.scale n)).value = f.rung n := rfl
  have hpred := Interchange.rung_succ (f := f) (n - 1)
  rw [Nat.sub_one_add_one hn, Interchange.scale_pred hn] at hpred
  rw [low_of (Interchange.significand_pos (Nat.pos_of_ne_zero hn)), high_of, hvalue,
    Interchange.midpoint, Interchange.midpoint, Interchange.rung_succ n]
  constructor <;> linarith

/-- **What lies in the interval of a number is what rounds to it.** -/
theorem contains_iff_nearest (hf : 0 < f.fractionBits) {n : Nat} (hn : n ≠ 0) {r : ℚ} :
    (of f (f.significand n) (f.scale n)).Contains r ↔ f.Nearest r n := by
  obtain ⟨hlow, hhigh⟩ := ends_of (f := f) hn
  rw [Interchange.nearest_iff, Contains, hlow, hhigh, closed_of, Interchange.significand_mod_two hf]
  simp only [ne_eq, hn, not_false_eq_true, forall_const]

/-- Seventeen digits are enough if the significands of a format have no more than sixteen. -/
theorem width_of (hdigits : 2 ^ (f.fractionBits + 1) ≤ 10 ^ (mostDigits - 1)) (hm : 0 < m)
    (hlt : m < 2 ^ (f.fractionBits + 1)) (q : Int) :
    10 ^ (of f m q).grid mostDigits < (of f m q).high - (of f m q).low := by
  have hq : (0 : ℚ) < 2 ^ q := zpow_pos two_pos q
  have hsixteen : (0 : ℚ) < 10 ^ (mostDigits - 1) := by positivity
  have hgrid : (10 : ℚ) ^ (of f m q).grid mostDigits * 10 ^ (mostDigits - 1) ≤ m * 2 ^ q := by
    have hpower : (10 : ℚ) ^ (of f m q).grid mostDigits * 10 ^ (mostDigits - 1) =
        10 ^ leadingExponent m q := by
      rw [← zpow_natCast, ← zpow_add₀ (by norm_num)]
      congr 1
      show leadingExponent m q - (17 : Nat) + 1 + (16 : Nat) = _
      omega
    rw [hpower]
    exact (leadingExponent_spec hm q).1
  rw [← mul_lt_mul_iff_left₀ hsixteen]
  refine hgrid.trans_lt ?_
  rw [high_of, low_of hm]
  by_cases hpower : m = 2 ^ f.fractionBits ∧ f.leastScale < q
  -- The interval is narrower below a power of two, whose significand is the smallest.
  · have htwice : (m : ℚ) * 2 ≤ 10 ^ (mostDigits - 1) := by
      rw [pow_succ, ← hpower.1] at hdigits
      exact_mod_cast hdigits
    rw [if_pos hpower, zpow_sub_one₀ two_ne_zero]
    nlinarith
  · have hmost : (m : ℚ) < 10 ^ (mostDigits - 1) := by exact_mod_cast hlt.trans_le hdigits
    have hwidth := mul_lt_mul_of_pos_right hmost hq
    rw [if_neg hpower]
    linarith

theorem sound_of (hdigits : 2 ^ (f.fractionBits + 1) ≤ 10 ^ (mostDigits - 1)) (hm : 0 < m)
    (hlt : m < 2 ^ (f.fractionBits + 1)) (q : Int) : (of f m q).Sound where
  significand_pos := hm
  low_pos := by
    have hlower : 0 < (of f m q).lower := by
      unfold of
      dsimp only
      split_ifs <;> omega
    exact mul_pos (Nat.cast_pos.2 hlower) (zpow_pos two_pos _)
  low_lt := by
    rw [low_of hm]
    exact sub_lt_self _ (half_pos (zpow_pos two_pos _))
  lt_high := by
    rw [high_of]
    exact lt_add_of_pos_right _ (half_pos (zpow_pos two_pos _))
  width := width_of hdigits hm hlt q

end

end Neighbourhood

end SqlBind.Ieee
