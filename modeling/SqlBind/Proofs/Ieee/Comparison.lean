import SqlBind.Proofs.Ieee.Widening

/-!
# Comparing numbers

Patterns are compared without decoding them. What they stand for is compared thereby.

* `Extended.value?`: the exact value of a number.
* `Extended.equal_iff`, `Extended.compare?_eq_cmp`: equality and order are those of exact values.
* `extended_exact`: widening keeps value and sign, and comparing compares values.
-/

namespace SqlBind
set_option autoImplicit false

open Ieee

namespace Extended

/-- The exact value; a NaN has none. -/
def value? (x : Extended) : Option ExactValue :=
  x.number.value?

variable {x y z : Extended} {r s : ExactValue}

theorem infinity_pos : 0 < binary64.infinity := by
  decide

theorem isNaN_iff : isNaN x.bits = true ↔ binary64.infinity < binary64.magnitude x.bits.toNat :=
  decide_eq_true_iff

theorem value?_eq_none_iff : x.value? = none ↔ isNaN x.bits = true := by
  rw [isNaN_iff]
  exact Interchange.value?_number_eq_none_iff infinity_pos

theorem value?_eq_some_iff : x.value? = some r ↔
    isNaN x.bits = false ∧ orderKey x.bits ∈ binary64.keys ∧
      binary64.keyValue (orderKey x.bits) = r := by
  have hkey : orderKey x.bits = binary64.key x.bits.toNat := rfl
  rw [value?, number, Interchange.value?_number infinity_pos, Option.ite_none_left_eq_some,
    Option.some_inj, ← isNaN_iff, Bool.not_eq_true, hkey]
  constructor
  · rintro ⟨hnan, hr⟩
    have hle := mt isNaN_iff.2 (Bool.eq_false_iff.1 hnan)
    exact ⟨hnan, Interchange.key_mem_keys (not_lt.1 hle), hr⟩
  · rintro ⟨hnan, -, hr⟩
    exact ⟨hnan, hr⟩

theorem compare?_eq_cmp (hx : x.value? = some r) (hy : y.value? = some s) :
    x.compare? y = some (cmp r s) := by
  obtain ⟨hxnan, hxkey, rfl⟩ := value?_eq_some_iff.1 hx
  obtain ⟨hynan, hykey, rfl⟩ := value?_eq_some_iff.1 hy
  rw [compare?, Ieee.compare?, hxnan, hynan, binary64.strictMonoOn_keyValue.cmp_map_eq hxkey hykey,
    cmp_eq_compare]
  rfl

theorem compare?_eq_none_iff : x.compare? y = none ↔ x.value? = none ∨ y.value? = none := by
  rw [value?_eq_none_iff, value?_eq_none_iff, compare?, Ieee.compare?]
  cases isNaN x.bits <;> cases isNaN y.bits <;> simp

theorem exists_values_of_compare? {o : Ordering} (h : x.compare? y = some o) :
    ∃ r s, x.value? = some r ∧ y.value? = some s ∧ cmp r s = o := by
  have hnone : ¬(x.value? = none ∨ y.value? = none) := fun hnan => by
    rw [compare?_eq_none_iff.2 hnan] at h
    cases h
  rw [not_or] at hnone
  obtain ⟨r, hr⟩ := Option.ne_none_iff_exists'.1 hnone.1
  obtain ⟨s, hs⟩ := Option.ne_none_iff_exists'.1 hnone.2
  rw [compare?_eq_cmp hr hs, Option.some_inj] at h
  exact ⟨r, s, hr, hs, h⟩

/-- Patterns have the same key if they are the same, or if they are the two zeros. -/
theorem orderKey_eq_iff : orderKey x.bits = orderKey y.bits ↔
    x.bits = y.bits ∨ magnitudeBits x.bits = 0 ∧ magnitudeBits y.bits = 0 := by
  have hx : (orderKey x.bits).natAbs = magnitudeBits x.bits := binary64.natAbs_key x.bits.toNat
  have hy : (orderKey y.bits).natAbs = magnitudeBits y.bits := binary64.natAbs_key y.bits.toNat
  constructor
  · intro hkey
    by_cases hzero : magnitudeBits x.bits = 0
    · exact .inr ⟨hzero, by omega⟩
    · have hsign : binary64.negative x.bits.toNat = binary64.negative y.bits.toNat := by
        rw [orderKey, orderKey] at hkey
        split_ifs at hkey with h h' h'
        · exact h.trans h'.symm
        · omega
        · omega
        · exact (Bool.eq_false_iff.2 h).trans (Bool.eq_false_iff.2 h').symm
      have hmagnitude : magnitudeBits x.bits = magnitudeBits y.bits := by omega
      exact .inl (UInt64.toNat_inj.1
        (Interchange.eq_of_fields (f := binary64) x.bits.toNat_lt y.bits.toNat_lt hsign hmagnitude))
  · rintro (heq | ⟨hzero, hzero'⟩)
    · rw [heq]
    · omega

theorem equal_iff_compare? : x.equal y = true ↔ x.compare? y = some .eq := by
  rw [equal, Ieee.equal, compare?, Ieee.compare?]
  cases isNaN x.bits with
  | true => simp
  | false =>
    cases isNaN y.bits with
    | true => simp
    | false => simp [← orderKey_eq_iff]

theorem equal_iff : x.equal y = true ↔ ∃ r, x.value? = some r ∧ y.value? = some r := by
  rw [equal_iff_compare?]
  constructor
  · intro h
    obtain ⟨r, s, hr, hs, hcmp⟩ := exists_values_of_compare? h
    exact ⟨r, hr, (cmp_eq_eq_iff r s).1 hcmp ▸ hs⟩
  · rintro ⟨r, hx, hy⟩
    rw [compare?_eq_cmp hx hy, cmp_self_eq_eq]

theorem compare?_swap (x y : Extended) : y.compare? x = (x.compare? y).map Ordering.swap := by
  cases h : x.compare? y with
  | none =>
    rw [compare?_eq_none_iff] at h
    exact compare?_eq_none_iff.2 h.symm
  | some o =>
    obtain ⟨r, s, hr, hs, rfl⟩ := exists_values_of_compare? h
    rw [compare?_eq_cmp hs hr, Option.map_some, cmp_swap]

theorem compare?_trans {o : Ordering} (h : x.compare? y = some o) (h' : y.compare? z = some o) :
    x.compare? z = some o := by
  obtain ⟨a, b, ha, hb, rfl⟩ := exists_values_of_compare? h
  obtain ⟨b', c, hb', hc, hcmp⟩ := exists_values_of_compare? h'
  obtain rfl : b = b' := Option.some_inj.1 (hb.symm.trans hb')
  rw [compare?_eq_cmp ha hc]
  rcases lt_trichotomy a b with hlt | rfl | hlt
  · rw [hlt.cmp_eq_lt, cmp_eq_lt_iff] at hcmp
    rw [hlt.cmp_eq_lt, (hlt.trans hcmp).cmp_eq_lt]
  · rw [hcmp]
  · rw [hlt.cmp_eq_gt, cmp_eq_gt_iff] at hcmp
    rw [hlt.cmp_eq_gt, (hcmp.trans hlt).cmp_eq_gt]

theorem compare?_congr (h : x.compare? y = some .eq) : x.compare? z = y.compare? z := by
  obtain ⟨a, b, ha, hb, hcmp⟩ := exists_values_of_compare? h
  obtain rfl := (cmp_eq_eq_iff a b).1 hcmp
  cases hz : z.value? with
  | none => rw [compare?_eq_none_iff.2 (.inr hz), compare?_eq_none_iff.2 (.inr hz)]
  | some c => rw [compare?_eq_cmp ha hz, compare?_eq_cmp hb hz]

theorem ofSingle_inj {bits bits' : UInt32} (hnan : (binary32.number bits.toNat).value? ≠ none)
    (h : ofSingle bits' = ofSingle bits) : bits' = bits := by
  obtain ⟨r, hr⟩ := Option.ne_none_iff_exists'.1 hnan
  have hwiden : widen bits' = widen bits := congrArg Extended.bits h
  obtain ⟨hvalue, hsign⟩ := number_widen bits
  obtain ⟨hvalue', hsign'⟩ := number_widen bits'
  rw [hwiden] at hvalue' hsign'
  exact UInt32.toNat_inj.1 (Interchange.eq_of_value? (f := binary32) (by decide)
    bits'.toNat_lt bits.toNat_lt ((hvalue'.symm.trans hvalue).trans hr) hr
    (hsign'.symm.trans hsign))

end Extended

/-- **Numbers are widened and compared exactly.** A single-precision number keeps its exact value
and its sign, and a NaN stays one; numbers that differ stay apart. Numbers are equal if their exact
values are, and ordered as these are, whatever patterns they come from; a NaN is equal to nothing
and unordered. So the order says "equal" where equality does, is reversed with the numbers, and is
transitive. -/
theorem extended_exact (bits : UInt32) (x y z : Extended) :
    ((Extended.ofSingle bits).value? = (binary32.number bits.toNat).value? ∧
      (Extended.ofSingle bits).number.negative? = (binary32.number bits.toNat).negative? ∧
      ((binary32.number bits.toNat).value? ≠ none →
        ∀ bits', Extended.ofSingle bits' = Extended.ofSingle bits → bits' = bits)) ∧
    (x.equal y = true ↔ ∃ r, x.value? = some r ∧ y.value? = some r) ∧
    (x.compare? y = none ↔ x.value? = none ∨ y.value? = none) ∧
    (∀ r s, x.value? = some r → y.value? = some s → x.compare? y = some (cmp r s)) ∧
    (x.compare? y = some .eq ↔ x.equal y = true) ∧
    y.compare? x = (x.compare? y).map Ordering.swap ∧
    (∀ o, x.compare? y = some o → y.compare? z = some o → x.compare? z = some o) ∧
    (x.compare? y = some .eq → x.compare? z = y.compare? z) := by
  refine ⟨⟨(number_widen bits).1, (number_widen bits).2, fun hnan _ => Extended.ofSingle_inj hnan⟩,
    Extended.equal_iff, Extended.compare?_eq_none_iff, fun _ _ => Extended.compare?_eq_cmp,
    Extended.equal_iff_compare?.symm, Extended.compare?_swap x y, fun _ => Extended.compare?_trans,
    Extended.compare?_congr⟩

def minusInfinity : Extended :=
  ⟨0xFFF0000000000000⟩

def minusZero : Extended :=
  ⟨0x8000000000000000⟩

/-- The least positive single-precision number gets an implicit leading bit; it is above the
negative zero, which is above the negative infinity. -/
theorem extended_exact_least :
    Extended.ofSingle 1 = ⟨0x36A0000000000000⟩ ∧
    (∀ bits', Extended.ofSingle bits' = Extended.ofSingle 1 → bits' = 1) ∧
    minusInfinity.compare? minusZero = some .lt ∧
    minusZero.compare? (Extended.ofSingle 1) = some .lt ∧
    minusInfinity.compare? (Extended.ofSingle 1) = some .lt := by
  obtain ⟨⟨-, -, hinj⟩, -, -, -, -, -, htrans, -⟩ :=
    extended_exact 1 minusInfinity minusZero (Extended.ofSingle 1)
  have hnumber : binary32.number (1 : UInt32).toNat = .finite false 1 (-149) := by decide
  have hnan : (binary32.number (1 : UInt32).toNat).value? ≠ none := by
    rw [hnumber]
    exact Option.some_ne_none _
  have hlower : minusInfinity.compare? minusZero = some .lt := by decide
  have hupper : minusZero.compare? (Extended.ofSingle 1) = some .lt := by decide
  exact ⟨by decide, hinj hnan, hlower, hupper, htrans _ hlower hupper⟩

end SqlBind
