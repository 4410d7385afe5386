import SqlBind.Proofs.Ieee.Reading
import SqlBind.Proofs.Json.Printable
import SqlBind.Proofs.Json.Reader
import SqlBind.Proofs.Text.Canonical

/-!
# Number tokens that are written

* `isNumber_ofInt`: integers.
* `isUnsigned_positional`, `isUnsigned_scientific`: decimals in both notations; their first digit is
  not zero.
* `isNumber_token`: finite floating-point numbers.
* `decimal? token`: the decimal that a token is; `exists_decimal?_token`: that of a floating-point
  number is nearest to it.
-/

namespace SqlBind
set_option autoImplicit false

namespace Json

open Ieee

/-! ## Parts of a token -/

theorem isDigits_of_isNumeral {cs : List Char} (h : Reading.IsNumeral cs) : isDigits cs = true := by
  have hall : cs.all Char.isDigit = true := List.all_eq_true.2 h.isDigit
  simp [isDigits, h.ne_nil, hall]

theorem isWhole_of_isNumeral {cs : List Char} (h : Reading.IsNumeral cs)
    (hfirst : cs = ['0'] ∨ cs.head? ≠ some '0') : isWhole cs = true := by
  simp [isWhole, isDigits_of_isNumeral h, hfirst]

theorem isUnsigned_append {cs rest : List Char} (h : Reading.IsNumeral cs)
    (hfirst : cs = ['0'] ∨ cs.head? ≠ some '0') (hrest : isFraction rest = true)
    (hnot : ∀ c ∈ rest.head?, c.isDigit = false) : isUnsigned (cs ++ rest) = true := by
  obtain ⟨htake, hdrop⟩ := takeWhile_append_of_head h.isDigit hnot
  rw [isUnsigned, htake, hdrop, isWhole_of_isNumeral h hfirst, hrest]
  rfl

theorem isFraction_point {cs rest : List Char} (h : Reading.IsNumeral cs)
    (hrest : isExponent rest = true) (hnot : ∀ c ∈ rest.head?, c.isDigit = false) :
    isFraction ('.' :: cs ++ rest) = true := by
  obtain ⟨htake, hdrop⟩ := takeWhile_append_of_head h.isDigit hnot
  rw [List.cons_append, isFraction, htake, hdrop, isDigits_of_isNumeral h, hrest]
  rfl

theorem isFraction_digits {cs : List Char} (h : Reading.IsNumeral cs) :
    isFraction ('.' :: cs) = true := by
  have hnone : isFraction ('.' :: cs ++ []) = true := isFraction_point h rfl (by simp)
  rwa [List.append_nil] at hnone

theorem isNumber_of_isUnsigned {cs : List Char} (h : isUnsigned cs = true) :
    isNumber cs = true := by
  obtain ⟨c, rest, rfl, hc⟩ := Parse.opens_of_isUnsigned h
  unfold isNumber
  split
  · rename_i heq
    rw [(List.cons.inj heq).1] at hc
    exact absurd hc (by decide)
  · exact h

/-! ## Integers -/

theorem isNumeral_ofNat (n : Nat) : Reading.IsNumeral (Numeral.ofNat n) :=
  ⟨Numeral.ofNat_ne_nil n, fun _ => Numeral.isDigit_of_mem_ofNat⟩

theorem isUnsigned_ofNat (n : Nat) : isUnsigned (Numeral.ofNat n) = true := by
  have hfirst : Numeral.ofNat n = ['0'] ∨ (Numeral.ofNat n).head? ≠ some '0' := by
    rcases Nat.eq_zero_or_pos n with rfl | hn
    · exact .inl (by decide)
    · exact .inr (Numeral.head_ofNat hn)
  rw [← List.append_nil (Numeral.ofNat n)]
  exact isUnsigned_append (isNumeral_ofNat n) hfirst rfl (by simp)

theorem isNumber_ofNat (n : Nat) : isNumber (Numeral.ofNat n) = true :=
  isNumber_of_isUnsigned (isUnsigned_ofNat n)

theorem isNumber_ofInt (n : Int) : isNumber (Numeral.ofInt n) = true := by
  unfold Numeral.ofInt
  split
  · exact isUnsigned_ofNat n.natAbs
  · exact isNumber_ofNat n.natAbs

/-! ## Floating-point numbers -/

theorem isExponent_ofInt (e : Int) :
    isExponent ('e' :: ((if e < 0 then [] else ['+']) ++ Numeral.ofInt e)) = true := by
  have hdigits := isDigits_of_isNumeral (isNumeral_ofNat e.natAbs)
  unfold Numeral.ofInt
  by_cases he : e < 0
  · rw [if_pos he, if_pos he]
    exact hdigits
  · rw [if_neg he, if_neg he]
    exact hdigits

section

variable {d : Decimal} (h : Reading.IsNumeral d.digits) (hfirst : d.digits.head? ≠ some '0')
include h hfirst

theorem isUnsigned_positional : isUnsigned d.positional = true := by
  have hpoint : ∀ cs : List Char, ∀ c ∈ ('.' :: cs).head?, c.isDigit = false := by
    rintro cs _ ⟨⟩
    rfl
  unfold Decimal.positional
  split
  · have hfraction : Reading.IsNumeral (List.replicate (-d.exponent - 1).toNat '0' ++ d.digits) :=
      h.append_right Reading.isDigit_of_mem_zeros
    rw [List.cons_append, List.cons_append, ← List.singleton_append]
    exact isUnsigned_append Reading.isNumeral_zero (.inl rfl) (isFraction_digits hfraction)
      (hpoint _)
  dsimp only
  split
  · have hwhole := h.append_left (Reading.isDigit_of_mem_zeros
      (n := d.exponent.toNat + 1 - d.digits.length))
    refine isUnsigned_append hwhole (.inr ?_) rfl (hpoint _)
    rwa [List.head?_append_of_ne_nil _ h.ne_nil]
  · rename_i hlength
    have htake : Reading.IsNumeral (d.digits.take (d.exponent.toNat + 1)) :=
      ⟨by simp [h.ne_nil], fun c hc => h.isDigit c (List.mem_of_mem_take hc)⟩
    have hdrop : Reading.IsNumeral (d.digits.drop (d.exponent.toNat + 1)) :=
      ⟨by simpa using hlength, fun c hc => h.isDigit c (List.mem_of_mem_drop hc)⟩
    refine isUnsigned_append htake (.inr ?_) (isFraction_digits hdrop) (hpoint _)
    rwa [List.head?_take, if_neg (Nat.succ_ne_zero _)]

theorem isUnsigned_scientific : isUnsigned (d.scientific ['+']) = true := by
  have hexponent := isExponent_ofInt d.exponent
  obtain ⟨digits, exponent⟩ := d
  cases digits with
  | nil => exact absurd rfl h.ne_nil
  | cons c rest =>
    obtain ⟨hc, hrest⟩ := List.forall_mem_cons.1 h.isDigit
    have hone : Reading.IsNumeral [c] := ⟨List.cons_ne_nil _ _, List.forall_mem_singleton.2 hc⟩
    have hmark : ∀ cs : List Char, ∀ c ∈ ('e' :: cs).head?, c.isDigit = false := by
      rintro cs _ ⟨⟩
      rfl
    unfold Decimal.scientific
    dsimp only [List.take_succ_cons, List.take_zero, List.drop_succ_cons, List.drop_zero]
      at hexponent ⊢
    rw [List.append_assoc]
    cases rest with
    | nil => exact isUnsigned_append hone (.inr hfirst) hexponent (hmark _)
    | cons c' rest =>
      have hdigits : Reading.IsNumeral (c' :: rest) := ⟨List.cons_ne_nil _ _, hrest⟩
      have hfraction := isFraction_point hdigits hexponent (hmark _)
      refine isUnsigned_append hone (.inr hfirst) hfraction ?_
      rintro _ ⟨⟩
      rfl

end

theorem head_decimal {d : Nat} (hd : 0 < d) (k : Int) :
    (Neighbourhood.decimal d k).digits.head? ≠ some '0' := by
  have hne : Neighbourhood.withoutTrailingZeros (Numeral.ofNat d) ≠ [] :=
    (Neighbourhood.exists_decimal_eq hd k).1.ne_nil
  obtain ⟨z, hz⟩ := Neighbourhood.exists_zeros (Numeral.ofNat d)
  have hfirst := Numeral.head_ofNat hd
  rwa [hz, List.head?_append_of_ne_nil _ hne] at hfirst

section

variable {style : DecimalStyle} {f : Interchange} (hplus : style.plus = ['+'])
  (hdigits : 2 ^ (f.fractionBits + 1) ≤ 10 ^ (Neighbourhood.mostDigits - 1))
include hplus hdigits

theorem isUnsigned_magnitude (n : Nat) :
    isUnsigned (style.magnitude f (f.significand n) (f.scale n)) = true := by
  unfold DecimalStyle.magnitude
  by_cases hn : n = 0
  · rw [hn, Interchange.significand_zero, if_pos rfl]
    rfl
  · have hpos := Interchange.significand_pos (f := f) (Nat.pos_of_ne_zero hn)
    obtain ⟨d, k, hshown, hd, -, -⟩ := exists_shown hdigits hn style.tie
    have hnumeral := (Neighbourhood.exists_decimal_eq hd k).1
    have hfirst := head_decimal hd k
    rw [if_neg hpos.ne', hshown, DecimalStyle.decimal, hplus]
    split
    · exact isUnsigned_positional hnumeral hfirst
    · exact isUnsigned_scientific hnumeral hfirst

theorem isNumber_token {bits : Nat} {cs : List Char} (h : token? style f bits = some cs) :
    isNumber cs = true := by
  unfold token? at h
  rcases Nat.lt_trichotomy (f.magnitude bits) f.infinity with hlt | heq | hgt
  · have hmagnitude := isUnsigned_magnitude hplus hdigits (f.magnitude bits)
    rw [Interchange.number_of_lt hlt] at h
    cases h
    unfold DecimalStyle.text
    split
    · exact hmagnitude
    · exact isNumber_of_isUnsigned hmagnitude
  · rw [Interchange.number_of_eq heq] at h
    cases h
  · rw [Interchange.number_of_gt hgt] at h
    cases h

end

theorem isNumber_number64 {bits : UInt64} {cs : List Char} (h : number64 bits = some cs) :
    isNumber cs = true :=
  isNumber_token rfl (by decide) h

theorem isNumber_number32 {bits : UInt32} {cs : List Char} (h : number32 bits = some cs) :
    isNumber cs = true :=
  isNumber_token rfl (by decide) h

/-! ## The decimal of a token -/

/-- The decimal that a number token is. A plus sign stands before exponents only, where it means
nothing. -/
def decimal? (token : List Char) : Option Reading :=
  Reading.read? (token.filter (· != '+'))

/-- The style with nothing before a positive exponent. -/
def plusless (style : DecimalStyle) : DecimalStyle :=
  { style with plus := [] }

theorem filter_scientific (d : Decimal) :
    (d.scientific ['+']).filter (· != '+') = (d.scientific []).filter (· != '+') := by
  unfold Decimal.scientific
  by_cases h : d.exponent < 0
  · rw [if_pos h, if_pos h]
  · rw [if_neg h, if_neg h]
    simp [List.filter_append]

theorem filter_decimal {style : DecimalStyle} (hplus : style.plus = ['+']) (d : Decimal) :
    (style.decimal d).filter (· != '+') = ((plusless style).decimal d).filter (· != '+') := by
  have hplain : (plusless style).decimal d =
      if style.lowest ≤ d.exponent ∧ d.exponent ≤ style.highest then d.positional
      else d.scientific [] := rfl
  rw [hplain, DecimalStyle.decimal, hplus]
  split
  · rfl
  · exact filter_scientific d

/-- Without the plus signs a number is written as in the style that has none. -/
theorem filter_text {style : DecimalStyle} (hplus : style.plus = ['+']) (f : Interchange)
    (negative : Bool) (m : Nat) (q : Int) :
    (style.text f negative m q).filter (· != '+') =
      (plusless style).text f negative m q := by
  have hmagnitude : (style.magnitude f m q).filter (· != '+') =
      ((plusless style).magnitude f m q).filter (· != '+') := by
    unfold DecimalStyle.magnitude
    split
    · rfl
    · exact filter_decimal hplus _
  have htext : (style.text f negative m q).filter (· != '+') =
      ((plusless style).text f negative m q).filter (· != '+') := by
    unfold DecimalStyle.text
    cases negative with
    | false => exact hmagnitude
    | true => exact congrArg ('-' :: ·) hmagnitude
  have hdigit : ∀ c : Char, c.isDigit = true → (c != '+') = true := by
    intro c hc
    rw [bne_iff_ne]
    rintro rfl
    cases hc
  have hcovers : CoversNumerals fun c => (c != '+') = true := ⟨hdigit _, rfl, rfl, rfl⟩
  rw [htext, List.filter_eq_self]
  exact fun c hc => hcovers.of_mem_styleText (List.forall_mem_nil _) hc

/-- **A number token is read back**, with its sign. -/
theorem exists_decimal?_token {style : DecimalStyle} {f : Interchange}
    (hplus : style.plus = ['+']) (hf : 0 < f.fractionBits)
    (hdigits : 2 ^ (f.fractionBits + 1) ≤ 10 ^ (Neighbourhood.mostDigits - 1)) {bits : Nat}
    (h : f.magnitude bits < f.infinity) :
    ∃ token r, token? style f bits = some token ∧ decimal? token = some r ∧
      r.negative = f.negative bits ∧ f.Nearest r.magnitude (f.magnitude bits) := by
  have hplain : (plusless style).plus = [] := rfl
  obtain ⟨r, hread, hsign, hshows⟩ :=
    DecimalStyle.exists_read?_text hplain hf hdigits (f.negative bits) (f.magnitude bits)
  rw [← filter_text hplus] at hread
  refine ⟨_, r, ?_, hread, hsign, hshows.nearest⟩
  rw [token?, Interchange.number_of_lt h]

/-! ## Characters of tokens -/

theorem coversNumerals_numberChar : CoversNumerals fun c => numberChar c = true where
  digit := fun hc => by simp [numberChar, hc]
  minus := rfl
  point := rfl
  exponent := rfl

theorem numberChar_of_mem_number64 {bits : UInt64} {cs : List Char} (h : number64 bits = some cs) :
    ∀ c ∈ cs, numberChar c = true := by
  have hplus : ∀ c ∈ style64.plus, numberChar c = true := List.forall_mem_singleton.2 rfl
  exact of_mem_token coversNumerals_numberChar hplus h

theorem numberChar_of_mem_number32 {bits : UInt32} {cs : List Char} (h : number32 bits = some cs) :
    ∀ c ∈ cs, numberChar c = true := by
  have hplus : ∀ c ∈ style32.plus, numberChar c = true := List.forall_mem_singleton.2 rfl
  exact of_mem_token coversNumerals_numberChar hplus h

end Json

end SqlBind
