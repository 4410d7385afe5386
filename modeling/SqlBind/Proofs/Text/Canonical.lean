import SqlBind.Proofs.Text.Order
import SqlBind.Proofs.Text.Readings

/-!
# Canonical numerals

Among the numerals that read as an integer one is canonical: it has no zeros in front, and no minus
sign before a zero.

* `Numeral.IsCanonical cs`: the forms of canonical numerals.
* `Numeral.isCanonical_and_read_iff`: what is written for an integer is its canonical numeral, and
  it has no other.
* `Numeral.length_ofInt_le_iff`: which integers have numerals of a given length;
  `length_utf8_ofInt`: characters and bytes are as many.
-/

namespace SqlBind
set_option autoImplicit false

namespace Numeral

/-! ## Digits without zeros in front -/

/-- Digits, at least one, the first of which is not zero. -/
structure Unpadded (cs : List Char) : Prop where
  ne_nil : cs ≠ []
  isDigit : ∀ c ∈ cs, c.isDigit = true
  head_ne : cs.head? ≠ some '0'

theorem head_ofNat {n : Nat} (h : 0 < n) : (ofNat n).head? ≠ some '0' := by
  induction n using Nat.strong_induction_on with
  | _ n ih =>
    rw [ofNat, Nat.toDigits_eq_if (by decide)]
    split
    · rename_i hlt
      have hall : ∀ n < 10, 0 < n → [Nat.digitChar n].head? ≠ some '0' := by decide
      exact hall n hlt h
    · have hfirst := ih (n / 10) (by omega) (by omega)
      rw [ofNat] at hfirst
      rwa [List.head?_append_of_ne_nil _ Nat.toDigits_ne_nil]

theorem unpadded_ofNat {n : Nat} (h : 0 < n) : Unpadded (ofNat n) :=
  ⟨ofNat_ne_nil n, fun _ => isDigit_of_mem_ofNat, head_ofNat h⟩

/-- The number of a digit. -/
def digitValue (c : Char) : Nat :=
  c.toNat - '0'.toNat

theorem digitValue_lt {c : Char} (h : c.isDigit = true) : digitValue c < 10 := by
  have hc := toNat_of_isDigit h
  simp only [digitValue, Char.reduceToNat]
  omega

theorem ofNat_digitValue {c : Char} (h : c.isDigit = true) : ofNat (digitValue c) = [c] := by
  have hc := toNat_of_isDigit h
  rw [ofNat, Nat.toDigits_of_lt_base (digitValue_lt h), List.singleton_inj]
  apply Char.toNat_inj.1
  rw [Nat.toNat_digitChar_of_lt_ten (digitValue_lt h)]
  simp only [digitValue, Char.reduceToNat]
  omega

theorem digitValue_pos {c : Char} (h : c.isDigit = true) (hne : c ≠ '0') : 0 < digitValue c := by
  by_contra hzero
  have hwritten := ofNat_digitValue h
  rw [Nat.eq_zero_of_not_pos hzero] at hwritten
  exact hne (List.singleton_inj.1 hwritten).symm

/-- Digits after a numeral other than zero continue it. -/
theorem ofNat_append {cs : List Char} (hcs : ∀ c ∈ cs, c.isDigit = true) {m : Nat} (hm : 0 < m) :
    ofNat m ++ cs = ofNat (Nat.ofDigitChars 10 cs m) := by
  induction cs generalizing m with
  | nil => simp
  | cons c cs ih =>
    obtain ⟨hc, hrest⟩ := List.forall_mem_cons.1 hcs
    have hone : ofNat m ++ [c] = ofNat (10 * m + digitValue c) := by
      rw [← ofNat_digitValue hc]
      exact Nat.toDigits_append_toDigits (by decide) hm (digitValue_lt hc)
    rw [Nat.ofDigitChars_cons, ← digitValue, ← ih hrest (by omega), ← hone, List.append_assoc]
    rfl

theorem Unpadded.exists_ofNat {cs : List Char} (h : Unpadded cs) :
    ∃ n, 0 < n ∧ cs = ofNat n := by
  cases cs with
  | nil => exact absurd rfl h.ne_nil
  | cons c cs =>
    obtain ⟨hc, hrest⟩ := List.forall_mem_cons.1 h.isDigit
    have hpos : 0 < digitValue c := digitValue_pos hc fun hzero => h.head_ne (by rw [hzero]; rfl)
    have hwritten : c :: cs = ofNat (Nat.ofDigitChars 10 cs (digitValue c)) := by
      rw [← ofNat_append hrest hpos, ofNat_digitValue hc]
      rfl
    refine ⟨_, Nat.pos_of_ne_zero fun hzero => h.head_ne ?_, hwritten⟩
    rw [hwritten, hzero]
    rfl

/-! ## Canonical numerals -/

/-- The canonical decimal numerals: the digit zero, digits without zeros in front, or such digits
after a minus sign. -/
inductive IsCanonical : List Char → Prop where
  | zero : IsCanonical ['0']
  | positive {cs : List Char} : Unpadded cs → IsCanonical cs
  | negative {cs : List Char} : Unpadded cs → IsCanonical ('-' :: cs)

theorem isCanonical_ofInt (n : Int) : IsCanonical (ofInt n) := by
  unfold ofInt
  split
  · exact .negative (unpadded_ofNat (by omega))
  · rcases Nat.eq_zero_or_pos n.natAbs with hzero | hpos
    · rw [hzero]
      exact .zero
    · exact .positive (unpadded_ofNat hpos)

theorem ofInt_natCast (n : Nat) : ofInt (n : Int) = ofNat n :=
  if_neg (by omega)

theorem ofInt_neg_natCast {n : Nat} (h : 0 < n) : ofInt (-(n : Int)) = '-' :: ofNat n := by
  rw [ofInt, if_pos (by omega), Int.natAbs_neg, Int.natAbs_natCast]

theorem IsCanonical.exists_ofInt {cs : List Char} (h : IsCanonical cs) : ∃ n, cs = ofInt n := by
  cases h with
  | zero => exact ⟨0, rfl⟩
  | positive h =>
    obtain ⟨n, -, rfl⟩ := h.exists_ofNat
    exact ⟨n, (ofInt_natCast n).symm⟩
  | negative h =>
    obtain ⟨n, hpos, rfl⟩ := h.exists_ofNat
    exact ⟨-n, (ofInt_neg_natCast hpos).symm⟩

/-- **An integer has one canonical numeral**, which is the one that is written. -/
theorem isCanonical_and_read_iff {cs : List Char} {n : Int} :
    IsCanonical cs ∧ readInt? cs = some n ↔ cs = ofInt n := by
  constructor
  · rintro ⟨hcanonical, hread⟩
    obtain ⟨m, rfl⟩ := hcanonical.exists_ofInt
    rw [readInt?_ofInt, Option.some_inj] at hread
    rw [hread]
  · rintro rfl
    exact ⟨isCanonical_ofInt n, readInt?_ofInt n⟩

/-! ## Lengths -/

/-- The sign takes the place of a digit. -/
theorem length_ofInt_le_iff {n : Int} {width : Nat} (h : 0 < width) :
    (ofInt n).length ≤ width + 1 ↔
      -((10 ^ width : Nat) : Int) < n ∧ n < ((10 ^ (width + 1) : Nat) : Int) := by
  have hpow : 10 ^ (width + 1) = 10 ^ width * 10 := Nat.pow_succ 10 width
  unfold ofInt
  split
  · rw [List.length_cons, Nat.add_le_add_iff_right, ofNat, Nat.length_toDigits_le_iff (by decide) h]
    omega
  · rw [ofNat, Nat.length_toDigits_le_iff (by decide) (Nat.succ_pos width)]
    omega

theorem length_utf8_ofInt (n : Int) : (utf8 (ofInt n)).length = (ofInt n).length :=
  length_utf8_of_ascii fun _ => coversNumerals_ascii.of_mem_ofInt

end Numeral

end SqlBind
