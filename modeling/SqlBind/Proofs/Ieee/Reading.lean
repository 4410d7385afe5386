import Mathlib.Tactic.FieldSimp
import SqlBind.Ieee.Notation
import SqlBind.Proofs.Ieee.Shortest
import SqlBind.Proofs.Text.Readings

/-!
# Reading decimals back

A decimal is read in either notation: digits on both sides of a point, or digits with an explicit
exponent and at most one point among them.

* `Reading`: a decimal as it was written, with `Reading.magnitude` its exact value without the sign.
* `Reading.read? cs`: the decimal that a whole text is.
* `unsigned?_positional`, `unsigned?_scientific`: what is read where a decimal was written.
-/

namespace SqlBind.Ieee
set_option autoImplicit false

/-- The two notations of decimals. -/
inductive Form where
  | fixed
  | exponent
  deriving DecidableEq, Repr

/-- A decimal as it was written: `coefficient` is the number of all its digits, the point left
out. -/
structure Reading where
  negative : Bool
  form : Form
  coefficient : Nat
  scale : Int
  deriving DecidableEq, Repr

namespace Reading

/-- The exact value without the sign. -/
def magnitude (r : Reading) : ℚ :=
  r.coefficient * 10 ^ r.scale

/-- The number of all digits, and how many of them follow the point. A point has digits on both
sides. -/
def mantissa? (cs : List Char) : Option (Nat × Nat) :=
  let whole := cs.takeWhile Char.isDigit
  match cs.dropWhile Char.isDigit with
  | [] => (Numeral.read? whole).map (·, 0)
  | '.' :: fraction => do
    let _ ← Numeral.read? whole
    let _ ← Numeral.read? fraction
    let coefficient ← Numeral.read? (whole ++ fraction)
    return (coefficient, fraction.length)
  | _ => none

/-- A decimal without a sign; in fixed form it has a point. -/
def unsigned? (cs : List Char) : Option Reading :=
  match cs.dropWhile (· != 'e') with
  | [] => do
    let (coefficient, places) ← mantissa? cs
    if places = 0 then none
    else return { negative := false, form := .fixed, coefficient, scale := -places }
  | _ :: exponent => do
    let (coefficient, places) ← mantissa? (cs.takeWhile (· != 'e'))
    let power ← Numeral.readInt? exponent
    return { negative := false, form := .exponent, coefficient, scale := power - places }

/-- The decimal that a text is, with or without a minus sign. -/
def read? : List Char → Option Reading
  | '-' :: cs => (unsigned? cs).map fun r => { r with negative := true }
  | cs => unsigned? cs

example : read? "-12.50".toList = some ⟨true, .fixed, 1250, -2⟩ := by decide

example : read? "1.5e-7".toList = some ⟨false, .exponent, 15, -8⟩ := by decide

theorem magnitude_mk (negative : Bool) (form : Form) (c w : Nat) (k : Int) :
    magnitude ⟨negative, form, c * 10 ^ w, k - w⟩ = c * 10 ^ k := by
  rw [magnitude, zpow_sub₀ (by norm_num), zpow_natCast]
  push_cast
  field_simp

/-! ## Digits -/

/-- Digits, and at least one. -/
structure IsNumeral (cs : List Char) : Prop where
  ne_nil : cs ≠ []
  isDigit : ∀ c ∈ cs, c.isDigit = true

variable {cs ds : List Char}

theorem IsNumeral.append_left (h : IsNumeral cs) (hd : ∀ c ∈ ds, c.isDigit = true) :
    IsNumeral (cs ++ ds) :=
  ⟨List.append_ne_nil_of_left_ne_nil h.ne_nil _, List.forall_mem_append.2 ⟨h.isDigit, hd⟩⟩

theorem IsNumeral.append_right (h : IsNumeral cs) (hd : ∀ c ∈ ds, c.isDigit = true) :
    IsNumeral (ds ++ cs) :=
  ⟨List.append_ne_nil_of_right_ne_nil _ h.ne_nil, List.forall_mem_append.2 ⟨hd, h.isDigit⟩⟩

theorem isDigit_of_mem_zeros {n : Nat} : ∀ c ∈ List.replicate n '0', c.isDigit = true := by
  intro c hc
  rw [List.eq_of_mem_replicate hc]
  rfl

theorem isNumeral_zero : IsNumeral ['0'] :=
  ⟨List.cons_ne_nil _ _, isDigit_of_mem_zeros (n := 1)⟩

theorem read?_of_isNumeral (h : IsNumeral cs) :
    Numeral.read? cs = some (Nat.ofDigitChars 10 cs 0) :=
  Numeral.read?_eq_some h.ne_nil h.isDigit

theorem e_notMem (h : ∀ c ∈ cs, c.isDigit = true) : 'e' ∉ cs := fun hmem =>
  absurd (h 'e' hmem) (by decide)

theorem e_notMem_point (h : ∀ c ∈ cs, c.isDigit = true) (h' : ∀ c ∈ ds, c.isDigit = true) :
    'e' ∉ cs ++ '.' :: ds := by
  simp [e_notMem h, e_notMem h']

/-! ## Notations -/

theorem mantissa?_whole (h : IsNumeral cs) :
    mantissa? cs = some (Nat.ofDigitChars 10 cs 0, 0) := by
  unfold mantissa?
  rw [List.dropWhile_eq_nil_iff.2 h.isDigit, List.takeWhile_eq_self_iff.2 h.isDigit]
  simp [read?_of_isNumeral h]

theorem mantissa?_point (h : IsNumeral cs) (h' : IsNumeral ds) :
    mantissa? (cs ++ '.' :: ds) = some (Nat.ofDigitChars 10 (cs ++ ds) 0, ds.length) := by
  unfold mantissa?
  rw [List.dropWhile_append_of_pos h.isDigit, List.takeWhile_append_of_pos h.isDigit,
    List.dropWhile_cons_of_neg (by decide), List.takeWhile_cons_of_neg (by decide),
    List.append_nil]
  simp [read?_of_isNumeral h, read?_of_isNumeral h', read?_of_isNumeral (h.append_left h'.isDigit)]

theorem unsigned?_fixed (h : IsNumeral cs) (h' : IsNumeral ds) :
    unsigned? (cs ++ '.' :: ds) =
      some ⟨false, .fixed, Nat.ofDigitChars 10 (cs ++ ds) 0, -ds.length⟩ := by
  have hmark : ∀ c ∈ cs ++ '.' :: ds, (c != 'e') = true := by
    intro c hc
    rw [bne_iff_ne]
    rintro rfl
    exact e_notMem_point h.isDigit h'.isDigit hc
  have hplaces : ds.length ≠ 0 := mt List.length_eq_zero_iff.1 h'.ne_nil
  unfold unsigned?
  rw [List.dropWhile_eq_nil_iff.2 hmark]
  simp [mantissa?_point h h', hplaces]

theorem unsigned?_exponent {coefficient places : Nat} (hmark : 'e' ∉ cs)
    (h : mantissa? cs = some (coefficient, places)) (power : Int) :
    unsigned? (cs ++ 'e' :: Numeral.ofInt power) =
      some ⟨false, .exponent, coefficient, power - places⟩ := by
  have hbefore : ∀ c ∈ cs, (c != 'e') = true := by
    intro c hc
    rw [bne_iff_ne]
    rintro rfl
    exact hmark hc
  unfold unsigned?
  rw [List.dropWhile_append_of_pos hbefore, List.takeWhile_append_of_pos hbefore,
    List.dropWhile_cons_of_neg (by decide), List.takeWhile_cons_of_neg (by decide),
    List.append_nil]
  simp [h, Numeral.readInt?_ofInt]

theorem unsigned?_minus (cs : List Char) : unsigned? ('-' :: cs) = none := by
  have hmantissa : ∀ rest, mantissa? ('-' :: rest) = none := fun _ => rfl
  unfold unsigned?
  rw [List.dropWhile_cons_of_pos (by decide), List.takeWhile_cons_of_pos (by decide), hmantissa,
    hmantissa]
  split <;> rfl

theorem read?_of_unsigned? {r : Reading} (h : unsigned? cs = some r) : read? cs = some r := by
  unfold read?
  split
  · rw [unsigned?_minus] at h
    cases h
  · exact h

end Reading

namespace Decimal

/-- The number of the digits. -/
def coefficient (d : Decimal) : Nat :=
  Nat.ofDigitChars 10 d.digits 0

/-- The exponent of the last digit. -/
def lastPlace (d : Decimal) : Int :=
  d.exponent - d.digits.length + 1

open Reading

variable {d : Decimal}

/-- A decimal in positional notation is read as it is, perhaps with zeros at its end. -/
theorem unsigned?_positional (h : IsNumeral d.digits) :
    ∃ w : Nat, unsigned? d.positional =
      some ⟨false, .fixed, d.coefficient * 10 ^ w, d.lastPlace - w⟩ := by
  have hlength := List.length_pos_iff.2 h.ne_nil
  unfold positional lastPlace
  by_cases hnegative : d.exponent < 0
  · have hfraction : IsNumeral (List.replicate (-d.exponent - 1).toNat '0' ++ d.digits) :=
      h.append_right isDigit_of_mem_zeros
    have hcoefficient : Nat.ofDigitChars 10
        (['0'] ++ (List.replicate (-d.exponent - 1).toNat '0' ++ d.digits)) 0 = d.coefficient := by
      rw [Nat.ofDigitChars_append, Nat.ofDigitChars_append]
      simp [Nat.ofDigitChars_cons, coefficient]
    refine ⟨0, ?_⟩
    rw [if_pos hnegative, List.cons_append, List.cons_append]
    refine (unsigned?_fixed isNumeral_zero hfraction).trans ?_
    rw [hcoefficient, pow_zero, mul_one, List.length_append, List.length_replicate]
    congr 2
    push_cast
    omega
  rw [if_neg hnegative]
  dsimp only
  by_cases hwhole : d.digits.length ≤ d.exponent.toNat + 1
  · refine ⟨d.exponent.toNat + 1 - d.digits.length + 1, ?_⟩
    rw [if_pos hwhole]
    generalize hzeros : d.exponent.toNat + 1 - d.digits.length = zeros
    refine (unsigned?_fixed (h.append_left isDigit_of_mem_zeros) isNumeral_zero).trans ?_
    have hcoefficient : Nat.ofDigitChars 10 (d.digits ++ List.replicate zeros '0' ++ ['0']) 0 =
        d.coefficient * 10 ^ (zeros + 1) := by
      rw [List.append_assoc, Nat.ofDigitChars_append, ← List.replicate_succ',
        Nat.ofDigitChars_replicate_zero, Nat.mul_comm, coefficient]
    rw [hcoefficient]
    congr 2
    simp only [List.length_singleton]
    omega
  · have hsplit := List.take_append_drop (d.exponent.toNat + 1) d.digits
    have htake : IsNumeral (d.digits.take (d.exponent.toNat + 1)) :=
      ⟨by simp [h.ne_nil], fun c hc => h.isDigit c (List.mem_of_mem_take hc)⟩
    have hdrop : IsNumeral (d.digits.drop (d.exponent.toNat + 1)) :=
      ⟨by simpa using hwhole, fun c hc => h.isDigit c (List.mem_of_mem_drop hc)⟩
    refine ⟨0, ?_⟩
    rw [if_neg hwhole]
    refine (unsigned?_fixed htake hdrop).trans ?_
    rw [hsplit, ← coefficient, pow_zero, mul_one, List.length_drop]
    congr 2
    omega

theorem unsigned?_scientific (h : IsNumeral d.digits) :
    unsigned? (d.scientific []) = some ⟨false, .exponent, d.coefficient, d.lastPlace⟩ := by
  obtain ⟨digits, exponent⟩ := d
  cases digits with
  | nil => exact absurd rfl h.ne_nil
  | cons c rest =>
    obtain ⟨hc, hrest⟩ := List.forall_mem_cons.1 h.isDigit
    have hfirst : IsNumeral [c] := ⟨List.cons_ne_nil _ _, List.forall_mem_singleton.2 hc⟩
    have hscale : exponent - rest.length = lastPlace ⟨c :: rest, exponent⟩ := by
      show exponent - rest.length = exponent - (rest.length + 1 : Nat) + 1
      omega
    rw [← hscale]
    unfold scientific
    dsimp only [List.take_succ_cons, List.take_zero, List.drop_succ_cons, List.drop_zero]
    rw [ite_self, List.nil_append]
    -- There is a point only if digits follow the first.
    cases rest with
    | nil => exact unsigned?_exponent (e_notMem hfirst.isDigit) (mantissa?_whole hfirst) exponent
    | cons c' rest =>
      exact unsigned?_exponent (e_notMem_point hfirst.isDigit hrest)
        (mantissa?_point hfirst ⟨List.cons_ne_nil c' rest, hrest⟩) exponent

end Decimal

/-! ## Shown decimals -/

namespace Neighbourhood

section

variable {d : Nat} (hd : 0 < d) (k : Int)
include hd

/-- A decimal without the zeros at its end is the same number. -/
theorem exists_decimal_eq :
    Reading.IsNumeral (decimal d k).digits ∧
      ∃ z : Nat, d = (decimal d k).coefficient * 10 ^ z ∧ (decimal d k).lastPlace = k + z := by
  obtain ⟨z, hz⟩ := exists_zeros (Numeral.ofNat d)
  have hvalue : d = (decimal d k).coefficient * 10 ^ z := by
    have hread : Nat.ofDigitChars 10 (Numeral.ofNat d) 0 = d := Nat.ofDigitChars_ten_toDigits
    rw [hz, Nat.ofDigitChars_append, Nat.ofDigitChars_replicate_zero, Nat.mul_comm] at hread
    exact hread.symm
  have hlength : digitCount d = (decimal d k).digits.length + z := by
    rw [digitCount, hz, List.length_append, List.length_replicate]
    rfl
  refine ⟨⟨?_, ?_⟩, z, hvalue, ?_⟩
  · intro hnil
    rw [Decimal.coefficient, hnil, Nat.ofDigitChars_nil, Nat.zero_mul] at hvalue
    omega
  · exact fun c hc => Numeral.isDigit_of_mem_ofNat (mem_of_mem_withoutTrailingZeros hc)
  · show k + digitCount d - 1 - (decimal d k).digits.length + 1 = k + z
    rw [hlength]
    push_cast
    omega

theorem decimal_value :
    ((decimal d k).coefficient : ℚ) * 10 ^ (decimal d k).lastPlace = d * 10 ^ k := by
  obtain ⟨-, z, hvalue, hlast⟩ := exists_decimal_eq hd k
  have hcast : (d : ℚ) = (decimal d k).coefficient * 10 ^ z := by exact_mod_cast hvalue
  rw [hcast, hlast, zpow_add₀ (by norm_num), zpow_natCast]
  ring

theorem significantDigits_decimal :
    significantDigits (decimal d k).coefficient = significantDigits d := by
  obtain ⟨-, z, hvalue, -⟩ := exists_decimal_eq hd k
  rw [← significantDigits_mul_pow (decimal d k).coefficient z, ← hvalue]

/-- The exponent of a decimal is that of the power of ten at or below it. -/
theorem decimal_exponent_spec :
    (10 : ℚ) ^ (decimal d k).exponent ≤ d * 10 ^ k ∧
      (d : ℚ) * 10 ^ k < 10 ^ ((decimal d k).exponent + 1) := by
  have hten : (10 : ℚ) ≠ 0 := by norm_num
  have hpos := digitCount_pos d
  have hlower : (10 : ℚ) ^ (digitCount d - 1) ≤ d := by exact_mod_cast ten_pow_le_of_pos hd
  have hupper : (d : ℚ) < 10 ^ digitCount d := by exact_mod_cast lt_ten_pow_digitCount d
  have hexponent : (decimal d k).exponent = (digitCount d - 1 : Nat) + k := by
    show k + digitCount d - 1 = _
    omega
  have hnext : (decimal d k).exponent + 1 = digitCount d + k := by omega
  rw [hnext, hexponent, zpow_add₀ hten, zpow_add₀ hten, zpow_natCast, zpow_natCast]
  exact ⟨mul_le_mul_of_nonneg_right hlower (ten_zpow_pos k).le,
    mul_lt_mul_of_pos_right hupper (ten_zpow_pos k)⟩

theorem decimal_exponent_mem_iff (lowest highest : Int) :
    lowest ≤ (decimal d k).exponent ∧ (decimal d k).exponent ≤ highest ↔
      (10 : ℚ) ^ lowest ≤ d * 10 ^ k ∧ (d : ℚ) * 10 ^ k < 10 ^ (highest + 1) := by
  have hone : (1 : ℚ) < 10 := by norm_num
  obtain ⟨hlower, hupper⟩ := decimal_exponent_spec hd k
  constructor
  · rintro ⟨hlowest, hhighest⟩
    exact ⟨(zpow_le_zpow_right₀ hone.le hlowest).trans hlower,
      hupper.trans_le (zpow_le_zpow_right₀ hone.le (by omega))⟩
  · rintro ⟨hlowest, hhighest⟩
    have h := (zpow_lt_zpow_iff_right₀ hone).1 (hlowest.trans_lt hupper)
    have h' := (zpow_lt_zpow_iff_right₀ hone).1 (hlower.trans_lt hhighest)
    omega

end

end Neighbourhood

/-- What is shown for a number other than zero. -/
theorem exists_shown {f : Interchange}
    (hdigits : 2 ^ (f.fractionBits + 1) ≤ 10 ^ (Neighbourhood.mostDigits - 1)) {n : Nat}
    (hn : n ≠ 0) (tie : Tie) :
    ∃ d k, shortest f tie (f.significand n) (f.scale n) = Neighbourhood.decimal d k ∧ 0 < d ∧
      0 < (d : ℚ) * 10 ^ k ∧ (Neighbourhood.of f (f.significand n) (f.scale n)).Shortest d k := by
  have hpos := Interchange.significand_pos (f := f) (Nat.pos_of_ne_zero hn)
  have hsound := Neighbourhood.sound_of hdigits hpos (Interchange.significand_lt n) (f.scale n)
  obtain ⟨d, k, hshown, hshortest⟩ := Neighbourhood.exists_shortest hsound tie
  have hvalue := hsound.pos_of_contains hshortest.contains
  refine ⟨d, k, hshown, Nat.pos_of_ne_zero ?_, hvalue, hshortest⟩
  rintro rfl
  rw [Nat.cast_zero, zero_mul] at hvalue
  exact lt_irrefl 0 hvalue

namespace DecimalStyle

open Neighbourhood Reading

variable {style : DecimalStyle}

/-- What is read where a decimal was written is the decimal, with no more digits than it has. -/
theorem exists_unsigned?_decimal (hplus : style.plus = []) {d : Nat} (hd : 0 < d) (k : Int) :
    ∃ r, unsigned? (style.decimal (Neighbourhood.decimal d k)) = some r ∧ r.negative = false ∧
      r.magnitude = d * 10 ^ k ∧ significantDigits r.coefficient = significantDigits d ∧
      (r.form = .fixed ↔
        (10 : ℚ) ^ style.lowest ≤ d * 10 ^ k ∧ (d : ℚ) * 10 ^ k < 10 ^ (style.highest + 1)) := by
  have hnumeral := (exists_decimal_eq hd k).1
  rw [← decimal_exponent_mem_iff hd k, ← decimal_value hd k, ← significantDigits_decimal hd k]
  generalize Neighbourhood.decimal d k = shown at *
  unfold DecimalStyle.decimal
  by_cases hwindow : style.lowest ≤ shown.exponent ∧ shown.exponent ≤ style.highest
  · obtain ⟨w, hread⟩ := Decimal.unsigned?_positional hnumeral
    rw [if_pos hwindow]
    exact ⟨_, hread, rfl, magnitude_mk _ _ _ _ _, significantDigits_mul_pow _ w,
      iff_of_true rfl hwindow⟩
  · have hread := Decimal.unsigned?_scientific hnumeral
    rw [if_neg hwindow, hplus]
    exact ⟨_, hread, rfl, rfl, rfl, iff_of_false Form.noConfusion hwindow⟩

/-- What is read where the `n`-th number was written: it is nearest to that number, it has the
fewest digits, and the notation is the one that the style asks for. -/
structure Shows (style : DecimalStyle) (f : Interchange) (n : Nat) (r : Reading) : Prop where
  nearest : f.Nearest r.magnitude n
  least : ∀ (c : Nat) (k : Int), f.Nearest (c * 10 ^ k) n →
    significantDigits r.coefficient ≤ significantDigits c
  fixed_iff : r.form = .fixed ↔ r.coefficient = 0 ∨
    10 ^ style.lowest ≤ r.magnitude ∧ r.magnitude < 10 ^ (style.highest + 1)

theorem shows_zero (style : DecimalStyle) (f : Interchange) :
    style.Shows f 0 ⟨false, .fixed, 0, -1⟩ where
  nearest := by
    rw [Reading.magnitude, Nat.cast_zero, zero_mul]
    exact Interchange.nearest_zero
  least c k _ := (le_of_eq (by simp [significantDigits])).trans (Nat.zero_le _)
  fixed_iff := iff_of_true rfl (.inl rfl)

section

variable {f : Interchange} (hplus : style.plus = []) (hf : 0 < f.fractionBits)
  (hdigits : 2 ^ (f.fractionBits + 1) ≤ 10 ^ (mostDigits - 1))
include hplus hf hdigits

theorem exists_unsigned?_magnitude (n : Nat) :
    ∃ r, unsigned? (style.magnitude f (f.significand n) (f.scale n)) = some r ∧
      r.negative = false ∧ style.Shows f n r := by
  unfold DecimalStyle.magnitude
  by_cases hn : n = 0
  · rw [hn, Interchange.significand_zero, if_pos rfl]
    exact ⟨_, by decide, rfl, shows_zero style f⟩
  · have hpos := Interchange.significand_pos (f := f) (Nat.pos_of_ne_zero hn)
    obtain ⟨d, k, hshown, hd, hvalue, hshortest⟩ := exists_shown hdigits hn style.tie
    obtain ⟨r, hread, hsign, hmagnitude, hcount, hform⟩ := exists_unsigned?_decimal hplus hd k
    have hcoefficient : r.coefficient ≠ 0 := by
      intro hzero
      rw [← hmagnitude, Reading.magnitude, hzero, Nat.cast_zero, zero_mul] at hvalue
      exact lt_irrefl 0 hvalue
    rw [if_neg hpos.ne', hshown]
    refine ⟨r, hread, hsign, ?_, fun c j hc => ?_, ?_⟩
    · rw [hmagnitude]
      exact (contains_iff_nearest hf hn).1 hshortest.contains
    · rw [hcount]
      exact hshortest.least c j ((contains_iff_nearest hf hn).2 hc)
    · rw [hform, hmagnitude, or_iff_right hcoefficient]

/-- **A written number is read back**, with its sign. -/
theorem exists_read?_text (negative : Bool) (n : Nat) :
    ∃ r, read? (style.text f negative (f.significand n) (f.scale n)) = some r ∧
      r.negative = negative ∧ style.Shows f n r := by
  obtain ⟨r, hread, hsign, hshows⟩ := exists_unsigned?_magnitude hplus hf hdigits n
  unfold DecimalStyle.text
  cases negative with
  | false => exact ⟨r, read?_of_unsigned? hread, hsign, hshows⟩
  | true =>
    refine ⟨{ r with negative := true }, ?_, rfl, hshows.nearest, hshows.least, hshows.fixed_iff⟩
    rw [if_pos rfl, read?, hread]
    rfl

end

end DecimalStyle

end SqlBind.Ieee
