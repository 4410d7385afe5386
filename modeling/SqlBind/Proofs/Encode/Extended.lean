import SqlBind.Proofs.Encode.Text
import SqlBind.Proofs.Ieee.Reading

/-!
# Numbers sent as decimal text

The text of a finite number is a shortest decimal that rounds to it, and tells it from any other
number. The texts of infinities and NaNs are words.

* `Extended.IsFinite x`: the pattern is below that of infinity, the sign bit left out.
* `Extended.exists_read?_text`: what is read where a finite number was written.
* `encode_extended`: what the text column of a number tells about it.
-/

namespace SqlBind
set_option autoImplicit false

open Ieee

namespace Extended

variable {x y : Extended}

/-- Neither an infinity nor a NaN. -/
def IsFinite (x : Extended) : Prop :=
  magnitudeBits x.bits < 2047 * 2 ^ 52

/-! ## Patterns -/

theorem infinity_binary64 : binary64.infinity = 2047 * 2 ^ 52 := by
  decide

theorem eq_of_fields (hsign : binary64.negative x.bits.toNat = binary64.negative y.bits.toNat)
    (hmagnitude : magnitudeBits x.bits = magnitudeBits y.bits) : x = y := by
  have hbits : x.bits.toNat = y.bits.toNat :=
    Interchange.eq_of_fields (f := binary64) x.bits.toNat_lt y.bits.toNat_lt hsign hmagnitude
  exact congrArg Extended.mk (UInt64.toNat_inj.1 hbits)

theorem roundsTo_iff_eq (hx : x.IsFinite) {r : ℚ} (h : binary64.Nearest r (magnitudeBits x.bits)) :
    binary64.RoundsTo (binary64.negative x.bits.toNat) r y.bits.toNat ↔ y = x := by
  have hfinite : binary64.magnitude x.bits.toNat < binary64.infinity :=
    hx.trans_eq infinity_binary64.symm
  rw [Interchange.roundsTo_iff_eq x.bits.toNat_lt y.bits.toNat_lt hfinite h]
  constructor
  · exact fun hbits => congrArg Extended.mk (UInt64.toNat_inj.1 hbits)
  · rintro rfl
    rfl

theorem nearest_of_roundsTo (hx : x.IsFinite) {negative : Bool} {r : ℚ}
    (h : binary64.RoundsTo negative r x.bits.toNat) :
    binary64.Nearest r (magnitudeBits x.bits) := by
  obtain ⟨-, n, hn, hmagnitude⟩ := h
  have hmagnitude : magnitudeBits x.bits = min n binary64.infinity := hmagnitude
  have hlt : magnitudeBits x.bits < binary64.infinity := hx.trans_eq infinity_binary64.symm
  have hn' : magnitudeBits x.bits = n := by omega
  rwa [hn']

/-! ## Texts -/

theorem text_of_isFinite (hx : x.IsFinite) :
    x.text = style.text binary64 (binary64.negative x.bits.toNat)
      (binary64.significand (magnitudeBits x.bits)) (binary64.scale (magnitudeBits x.bits)) := by
  have hlt : binary64.magnitude x.bits.toNat < binary64.infinity :=
    hx.trans_eq infinity_binary64.symm
  rw [text, number, Interchange.number_of_lt hlt]
  rfl

theorem text_of_infinite (hx : magnitudeBits x.bits = 2047 * 2 ^ 52) :
    x.text = if binary64.negative x.bits.toNat then "-INF".toList else "INF".toList := by
  have heq : binary64.magnitude x.bits.toNat = binary64.infinity := hx.trans infinity_binary64.symm
  rw [text, number, Interchange.number_of_eq heq]
  cases binary64.negative x.bits.toNat <;> rfl

theorem text_of_isNaN (hx : isNaN x.bits = true) : x.text = "NAN".toList := by
  have hgt : binary64.infinity < binary64.magnitude x.bits.toNat :=
    infinity_binary64.trans_lt (of_decide_eq_true hx)
  rw [text, number, Interchange.number_of_gt hgt]

/-- **A finite number is read back.** -/
theorem exists_read?_text (hx : x.IsFinite) :
    ∃ r, Reading.read? x.text = some r ∧ r.negative = binary64.negative x.bits.toNat ∧
      style.Shows binary64 (magnitudeBits x.bits) r := by
  rw [text_of_isFinite hx]
  exact DecimalStyle.exists_read?_text rfl (by decide) (by decide) _ _

theorem kinds (x : Extended) :
    x.IsFinite ∨ magnitudeBits x.bits = 2047 * 2 ^ 52 ∨ isNaN x.bits = true := by
  rcases lt_trichotomy (magnitudeBits x.bits) (2047 * 2 ^ 52) with h | h | h
  · exact .inl h
  · exact .inr (.inl h)
  · exact .inr (.inr (decide_eq_true h))

theorem read?_of_not_isFinite (hx : ¬ x.IsFinite) : Reading.read? x.text = none := by
  rcases x.kinds with h | h | h
  · exact absurd h hx
  · rw [text_of_infinite h]
    cases binary64.negative x.bits.toNat <;> decide
  · rw [text_of_isNaN h]
    decide

theorem text_eq_nan_iff : x.text = "NAN".toList ↔ isNaN x.bits = true := by
  refine ⟨fun htext => ?_, text_of_isNaN⟩
  rcases x.kinds with h | h | h
  · obtain ⟨r, hread, -⟩ := exists_read?_text h
    rw [htext] at hread
    cases hread
  · rw [text_of_infinite h] at htext
    split_ifs at htext <;> cases htext
  · exact h

/-- The infinite numbers are told apart by their signs. -/
theorem text_eq_infinity_iff (negative : Bool) :
    x.text = (if negative then "-INF".toList else "INF".toList) ↔
      magnitudeBits x.bits = 2047 * 2 ^ 52 ∧ binary64.negative x.bits.toNat = negative := by
  constructor
  · intro htext
    rcases x.kinds with h | h | h
    · obtain ⟨r, hread, -⟩ := exists_read?_text h
      rw [htext] at hread
      cases negative <;> cases hread
    · have hwords : ∀ a b : Bool, (if a then "-INF".toList else "INF".toList) =
          (if b then "-INF".toList else "INF".toList) → a = b := by decide
      exact ⟨h, hwords _ _ ((text_of_infinite h).symm.trans htext)⟩
    · rw [text_of_isNaN h] at htext
      cases negative <;> cases htext
  · rintro ⟨h, rfl⟩
    exact text_of_infinite h

theorem text_eq_infinity_iff_bits (negative : Bool) {bits : UInt64}
    (hsign : binary64.negative bits.toNat = negative)
    (hmagnitude : magnitudeBits bits = 2047 * 2 ^ 52) :
    x.text = (if negative then "-INF".toList else "INF".toList) ↔ x.bits = bits := by
  rw [text_eq_infinity_iff]
  constructor
  · rintro ⟨hmagnitude', hsign'⟩
    have heq : x = ⟨bits⟩ :=
      eq_of_fields (hsign'.trans hsign.symm) (hmagnitude'.trans hmagnitude.symm)
    rw [heq]
  · rintro rfl
    exact ⟨hmagnitude, hsign⟩

/-- Numbers with the same text are the same, the two zeros included. -/
theorem text_injective (hx : isNaN x.bits = false) (h : x.text = y.text) : x = y := by
  rcases x.kinds with hfinite | hinfinite | hnan
  · obtain ⟨r, hread, hsign, hshows⟩ := exists_read?_text hfinite
    rw [h] at hread
    by_cases hy : y.IsFinite
    · obtain ⟨r', hread', hsign', hshows'⟩ := exists_read?_text hy
      cases hread.symm.trans hread'
      have hrounds := (roundsTo_iff_eq hy hshows'.nearest).2 rfl
      rw [← hsign', hsign] at hrounds
      exact ((roundsTo_iff_eq hfinite hshows.nearest).1 hrounds).symm
    · rw [read?_of_not_isFinite hy] at hread
      cases hread
  · obtain ⟨hmagnitude, hsign⟩ :=
      (text_eq_infinity_iff _).1 (h.symm.trans (text_of_infinite hinfinite))
    exact eq_of_fields hsign.symm (hinfinite.trans hmagnitude.symm)
  · rw [hx] at hnan
    cases hnan

end Extended

/-- **Numbers survive as text.** The column of a number is its text. If the number is finite, a
reader that takes either notation and rounds the exact value to the nearest double-precision number,
ties to even, has the same pattern again and no other, the sign of zero included. No decimal with
fewer digits rounds to it, zeros at the ends not counted. The notation is fixed for zero and from
`1e-4` up to `1e16`, and has digits on both sides of the point then. Different patterns that are no
NaNs have different texts, and the words stand for NaNs and infinities only. -/
theorem encode_extended (x : Extended) (passing : Passing) :
    (∃ p, ((Value.extended x).encode passing).result = .ok p ∧
      p.data 0 = .ok (some (utf8 x.text ++ [0]))) ∧
    (x.IsFinite → ∃ r, Reading.read? x.text = some r ∧
      (∀ y : Extended, binary64.RoundsTo r.negative r.magnitude y.bits.toNat ↔ y = x) ∧
      (∀ (negative : Bool) (c : Nat) (k : Int),
        binary64.RoundsTo negative (c * 10 ^ k) x.bits.toNat →
          significantDigits r.coefficient ≤ significantDigits c) ∧
      (r.form = .fixed ↔
        r.coefficient = 0 ∨ 10 ^ (-4 : Int) ≤ r.magnitude ∧ r.magnitude < 10 ^ (16 : Int))) ∧
    (∀ y : Extended, isNaN x.bits = false → x.text = y.text → x = y) ∧
    (x.text = "NAN".toList ↔ isNaN x.bits = true) ∧
    (x.text = "INF".toList ↔ x.bits = 0x7FF0000000000000) ∧
    (x.text = "-INF".toList ↔ x.bits = 0xFFF0000000000000) := by
  refine ⟨?_, fun hx => ?_, fun y => Extended.text_injective,
    Extended.text_eq_nan_iff, ?_, ?_⟩
  · refine ⟨_, rfl, ?_⟩
    exact congrArg (fun bytes => Except.ok (some bytes)) (Encode.holds_extendedText x).bytes_eq
  · obtain ⟨r, hread, hsign, hshows⟩ := Extended.exists_read?_text hx
    refine ⟨r, hread, fun y => ?_, fun negative c k hc => ?_, hshows.fixed_iff⟩
    · rw [hsign]
      exact Extended.roundsTo_iff_eq hx hshows.nearest
    · exact hshows.least c k (Extended.nearest_of_roundsTo hx hc)
  · exact Extended.text_eq_infinity_iff_bits false (by decide) (by decide)
  · exact Extended.text_eq_infinity_iff_bits true (by decide) (by decide)

/-- The negative number next to zero. -/
def leastNegative : Extended :=
  ⟨0x8000000000000001⟩

theorem encode_extended_leastNegative :
    leastNegative.IsFinite ∧ leastNegative.text = "-5e-324".toList ∧
    (∀ y : Extended, binary64.RoundsTo true (5 * 10 ^ (-324 : Int)) y.bits.toNat ↔
      y = leastNegative) ∧
    ∀ y : Extended, y.text = "-5e-324".toList → y = leastNegative := by
  have hfinite : leastNegative.IsFinite := by
    show magnitudeBits leastNegative.bits < 2047 * 2 ^ 52
    decide
  have htext : leastNegative.text = "-5e-324".toList := by decide +kernel
  obtain ⟨-, hread, hinjective, -⟩ := encode_extended leastNegative .moved
  obtain ⟨r, hr, hrounds, -, -⟩ := hread hfinite
  have hreading : Reading.read? leastNegative.text = some ⟨true, .exponent, 5, -324⟩ := by
    rw [htext]
    decide
  obtain rfl := Option.some.inj (hr.symm.trans hreading)
  exact ⟨hfinite, htext, hrounds, fun y hy =>
    (hinjective y (by decide) (htext.trans hy.symm)).symm⟩

end SqlBind
