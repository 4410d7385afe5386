import Mathlib.Data.List.TakeWhile
import SqlBind.Calendar.Text
import SqlBind.Ieee.Notation

/-!
# The characters of numbers

Whatever is written for a number consists of digits, and of a minus sign, a point, an `e`, or what a
style puts before an exponent. A property that these characters have holds throughout.

* `CoversNumerals P`: the characters that numbers are written with have the property `P`.
* `CoversNumerals.of_mem_ofInt`, `CoversNumerals.of_mem_padded`: integers, without and with zeros in
  front.
* `CoversNumerals.of_mem_styleText`: floating-point numbers in any style.
-/

namespace SqlBind
set_option autoImplicit false

/-- The characters that numbers are written with have a property. -/
structure CoversNumerals (P : Char → Prop) : Prop where
  digit : ∀ {c : Char}, c.isDigit = true → P c
  minus : P '-'
  point : P '.'
  exponent : P 'e'

/-! ## Digits of the shortest decimal -/

namespace Ieee

theorem mem_of_mem_withoutTrailingZeros {c : Char} {digits : List Char}
    (h : c ∈ Neighbourhood.withoutTrailingZeros digits) : c ∈ digits := by
  have hdropped := List.mem_reverse.1 h
  exact List.mem_reverse.1 ((List.dropWhile_suffix _).subset hdropped)

theorem takeWhile_eq_replicate {α : Type} {p : α → Bool} {a : α} {l : List α}
    (hp : ∀ x, p x = true → x = a) : l.takeWhile p = List.replicate (l.takeWhile p).length a :=
  List.eq_replicate_of_mem fun x hx => hp x (List.mem_takeWhile_imp hx)

theorem Neighbourhood.exists_zeros (digits : List Char) :
    ∃ z, digits = withoutTrailingZeros digits ++ List.replicate z '0' := by
  refine ⟨(digits.reverse.takeWhile (· == '0')).length, ?_⟩
  have hzeros := takeWhile_eq_replicate (l := digits.reverse) fun _ => beq_iff_eq (b := '0').1
  have hsplit := congrArg List.reverse
    (List.takeWhile_append_dropWhile (p := (· == '0')) (l := digits.reverse))
  rw [List.reverse_append, List.reverse_reverse, hzeros, List.reverse_replicate] at hsplit
  exact hsplit.symm

theorem isDigit_of_mem_candidate {tie : Tie} {v : Neighbourhood} {n : Nat} {d : Decimal}
    (h : v.candidate tie n = some d) : ∀ c ∈ d.digits, c.isDigit = true := by
  obtain ⟨m, -, rfl⟩ := Option.map_eq_some_iff.1 h
  intro c hc
  exact Numeral.isDigit_of_mem_ofNat (mem_of_mem_withoutTrailingZeros hc)

theorem isDigit_of_mem_shortest (f : Interchange) (tie : Tie) (m : Nat) (q : Int) :
    ∀ c ∈ (shortest f tie m q).digits, c.isDigit = true := by
  rw [shortest, Neighbourhood.shortest]
  cases hfound : (List.range' 1 Neighbourhood.mostDigits).findSome?
      ((Neighbourhood.of f m q).candidate tie) with
  | none => simp
  | some d =>
    obtain ⟨n, -, hn⟩ := List.exists_of_findSome?_eq_some hfound
    exact isDigit_of_mem_candidate hn

end Ieee

namespace CoversNumerals

variable {P : Char → Prop} (h : CoversNumerals P)
include h

/-! ## Integers -/

theorem zero : P '0' :=
  h.digit (by decide)

theorem of_mem_ofNat {n : Nat} {c : Char} (hc : c ∈ Numeral.ofNat n) : P c :=
  h.digit (Numeral.isDigit_of_mem_ofNat hc)

theorem of_mem_ofInt {n : Int} {c : Char} (hc : c ∈ Numeral.ofInt n) : P c := by
  unfold Numeral.ofInt at hc
  split at hc
  · rcases List.mem_cons.1 hc with rfl | hc
    · exact h.minus
    · exact h.of_mem_ofNat hc
  · exact h.of_mem_ofNat hc

theorem of_mem_padded {width n : Nat} {c : Char} (hc : c ∈ Numeral.padded width n) : P c := by
  rcases List.mem_append.1 hc with hc | hc
  · rw [List.eq_of_mem_replicate hc]
    exact h.zero
  · exact h.of_mem_ofNat hc

/-! ## Floating-point numbers -/

theorem of_mem_positional {d : Ieee.Decimal} (hdigits : ∀ c ∈ d.digits, P c) {c : Char}
    (hc : c ∈ d.positional) : P c := by
  unfold Ieee.Decimal.positional at hc
  split at hc
  · simp only [List.cons_append, List.mem_cons, List.mem_append, List.mem_replicate] at hc
    rcases hc with rfl | rfl | ⟨-, rfl⟩ | hc
    · exact h.zero
    · exact h.point
    · exact h.zero
    · exact hdigits c hc
  · dsimp only at hc
    split at hc
    · simp only [List.mem_append, List.mem_cons, List.mem_replicate, List.not_mem_nil,
        or_false] at hc
      rcases hc with (hc | ⟨-, rfl⟩) | rfl | rfl
      · exact hdigits c hc
      · exact h.zero
      · exact h.point
      · exact h.zero
    · simp only [List.mem_append, List.mem_cons] at hc
      rcases hc with hc | rfl | hc
      · exact hdigits c (List.mem_of_mem_take hc)
      · exact h.point
      · exact hdigits c (List.mem_of_mem_drop hc)

theorem of_mem_scientific {plus : List Char} (hplus : ∀ c ∈ plus, P c) {d : Ieee.Decimal}
    (hdigits : ∀ c ∈ d.digits, P c) {c : Char} (hc : c ∈ d.scientific plus) : P c := by
  simp only [Ieee.Decimal.scientific, List.mem_append, List.mem_cons] at hc
  rcases hc with (hc | hc) | rfl | hc | hc
  · exact hdigits c (List.mem_of_mem_take hc)
  · split at hc
    · cases hc
    · rcases List.mem_cons.1 hc with rfl | hc
      · exact h.point
      · exact hdigits c (List.mem_of_mem_drop hc)
  · exact h.exponent
  · split at hc
    · cases hc
    · exact hplus c hc
  · exact h.of_mem_ofInt hc

theorem of_mem_styleText {style : Ieee.DecimalStyle} (hplus : ∀ c ∈ style.plus, P c)
    {f : Ieee.Interchange} {negative : Bool} {m : Nat} {q : Int} {c : Char}
    (hc : c ∈ style.text f negative m q) : P c := by
  have hdigits : ∀ c ∈ (Ieee.shortest f style.tie m q).digits, P c := fun c hc =>
    h.digit (Ieee.isDigit_of_mem_shortest f style.tie m q c hc)
  have hmagnitude : ∀ c ∈ style.magnitude f m q, P c := by
    intro c hc
    unfold Ieee.DecimalStyle.magnitude Ieee.DecimalStyle.decimal at hc
    split at hc
    · simp only [List.mem_cons, List.not_mem_nil, or_false] at hc
      rcases hc with rfl | rfl | rfl
      · exact h.zero
      · exact h.point
      · exact h.zero
    · split at hc
      · exact h.of_mem_positional hdigits hc
      · exact h.of_mem_scientific hplus hdigits hc
  unfold Ieee.DecimalStyle.text at hc
  split at hc
  · rcases List.mem_cons.1 hc with rfl | hc
    · exact h.minus
    · exact hmagnitude c hc
  · exact hmagnitude c hc

/-! ## Dates and times -/

theorem of_mem_dateText {d : Calendar.Date} {c : Char} (hc : c ∈ d.text) : P c := by
  have hyear : ∀ c ∈ Calendar.yearText d.year, P c := by
    intro c hc
    unfold Calendar.yearText at hc
    split at hc
    · rcases List.mem_cons.1 hc with rfl | hc
      · exact h.minus
      · exact h.of_mem_padded hc
    · exact h.of_mem_padded hc
  simp only [Calendar.Date.text, List.append_assoc, List.cons_append, List.mem_append,
    List.mem_cons] at hc
  rcases hc with hc | rfl | hc | rfl | hc
  · exact hyear c hc
  · exact h.minus
  · exact h.of_mem_padded hc
  · exact h.minus
  · exact h.of_mem_padded hc

theorem of_mem_fractionText {nanosecond : Nat} {c : Char}
    (hc : c ∈ Calendar.fractionText nanosecond) : P c := by
  unfold Calendar.fractionText at hc
  dsimp only at hc
  split at hc
  · rw [List.mem_singleton.1 hc]
    exact h.zero
  · have hdropped := (List.dropWhile_suffix _).subset (List.mem_reverse.1 hc)
    exact h.of_mem_padded (List.mem_reverse.1 hdropped)

theorem of_mem_timeText (hcolon : P ':') {t : Calendar.TimeOfDay} {c : Char} (hc : c ∈ t.text) :
    P c := by
  simp only [Calendar.TimeOfDay.text, List.append_assoc, List.cons_append, List.mem_append,
    List.mem_cons] at hc
  rcases hc with hc | rfl | hc | rfl | hc | rfl | hc
  · exact h.of_mem_padded hc
  · exact hcolon
  · exact h.of_mem_padded hc
  · exact hcolon
  · exact h.of_mem_padded hc
  · exact h.point
  · exact h.of_mem_fractionText hc

end CoversNumerals

end SqlBind
