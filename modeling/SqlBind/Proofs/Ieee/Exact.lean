import Mathlib.Data.Int.ConditionallyCompleteOrder
import Mathlib.Order.Compare
import Mathlib.Order.WithBot
import SqlBind.Extended
import SqlBind.Proofs.Ieee.Ladder

/-!
# Exact values

A pattern that is no NaN stands for an exact value: a rational number, or one of the infinities
around them.

* `Number.value?`, `Number.negative?`: the exact value and the sign, which zeros have too.
* `Interchange.signedRung f k`: the numbers of a format, counted from zero in both directions;
  `Interchange.keyValue` goes on to the infinities.
* `eq_of_value?`: of two patterns that are no NaNs, the value and the sign tell which is which.
* `value?_number`, `strictMonoOn_keyValue`: the key of a pattern tells its exact value, and keys are
  in the order of the values.
-/

namespace SqlBind.Ieee
set_option autoImplicit false

/-- The rational numbers, with an infinity at each end. -/
abbrev ExactValue := WithBot (WithTop ℚ)

namespace Number

/-- The exact value; a NaN has none. -/
def value? : Number → Option ExactValue
  | nan => none
  | infinite negative => some (if negative then ⊥ else ⊤)
  | finite negative m q => some (((if negative then -(m * 2 ^ q) else m * 2 ^ q : ℚ) : WithTop ℚ))

/-- The sign of a number, also of a zero or an infinity. -/
def negative? : Number → Option Bool
  | nan => none
  | infinite negative => some negative
  | finite negative _ _ => some negative

end Number

namespace Interchange

variable {f : Interchange}

/-- The numbers of a format from zero upwards, and their negatives downwards. -/
def signedRung (f : Interchange) (k : Int) : ℚ :=
  if k < 0 then -f.rung k.natAbs else f.rung k.natAbs

theorem strictMono_signedRung (f : Interchange) : StrictMono f.signedRung := by
  intro k k' hlt
  have hzero : f.rung 0 = 0 := rung_zero
  unfold signedRung
  split_ifs with hk hk' hk'
  · exact neg_lt_neg (f.strictMono_rung (by omega))
  · have hpos : 0 < f.rung k.natAbs := hzero ▸ f.strictMono_rung (by omega)
    have hnonneg : 0 ≤ f.rung k'.natAbs := hzero ▸ f.strictMono_rung.monotone (Nat.zero_le _)
    linarith
  · omega
  · exact f.strictMono_rung (by omega)

/-- The value that a key stands for; the key of an infinity is next to those of the numbers. -/
def keyValue (f : Interchange) (k : Int) : ExactValue :=
  if k ≤ -(f.infinity : Int) then ⊥
  else if (f.infinity : Int) ≤ k then ⊤
  else ((f.signedRung k : WithTop ℚ))

/-- The keys of numbers and infinities. -/
def keys (f : Interchange) : Set Int :=
  Set.Icc (-(f.infinity : Int)) f.infinity

theorem strictMonoOn_keyValue (f : Interchange) : StrictMonoOn f.keyValue f.keys := by
  rintro k ⟨hk, -⟩ k' ⟨-, hk'⟩ hlt
  unfold keyValue
  split_ifs with h1 h2 h3 h4 h5 h6
  · omega
  · exact bot_lt_top
  · exact WithBot.bot_lt_coe _
  · omega
  · omega
  · omega
  · omega
  · exact WithBot.coe_lt_coe.2 (WithTop.coe_lt_top _)
  · exact WithBot.coe_lt_coe.2 (WithTop.coe_lt_coe.2 (f.strictMono_signedRung hlt))

/-- A pattern without its sign bit, counted downwards if the sign is negative. -/
def key (f : Interchange) (bits : Nat) : Int :=
  if f.negative bits then -(f.magnitude bits : Int) else f.magnitude bits

variable {bits bits' : Nat}

theorem natAbs_key (f : Interchange) (bits : Nat) : (f.key bits).natAbs = f.magnitude bits := by
  unfold key
  split_ifs <;> omega

theorem key_mem_keys (h : f.magnitude bits ≤ f.infinity) : f.key bits ∈ f.keys := by
  have habs := f.natAbs_key bits
  exact ⟨by omega, by omega⟩

theorem signedRung_key (f : Interchange) (bits : Nat) :
    f.signedRung (f.key bits) =
      if f.negative bits then -f.rung (f.magnitude bits) else f.rung (f.magnitude bits) := by
  rw [signedRung, natAbs_key, key]
  cases f.negative bits with
  | false => exact if_neg (by simp)
  | true =>
    rcases Nat.eq_zero_or_pos (f.magnitude bits) with hzero | hpos
    -- The negative zero has the key of the positive one.
    · simp [hzero, rung_zero]
    · exact if_pos (by simp [hpos])

theorem value?_number (hf : 0 < f.infinity) (bits : Nat) :
    (f.number bits).value? =
      if f.infinity < f.magnitude bits then none else some (f.keyValue (f.key bits)) := by
  have habs := f.natAbs_key bits
  rcases lt_trichotomy (f.magnitude bits) f.infinity with h | h | h
  · rw [number_of_lt h, if_neg h.not_gt, keyValue, if_neg (by omega), if_neg (by omega),
      signedRung_key]
    rfl
  · rw [number_of_eq h, if_neg h.not_gt, key, h]
    cases f.negative bits with
    | false => simp [keyValue, Number.value?, hf.ne']
    | true => simp [keyValue, Number.value?]
  · rw [number_of_gt h, if_pos h]
    rfl

theorem value?_number_eq_none_iff (hf : 0 < f.infinity) :
    (f.number bits).value? = none ↔ f.infinity < f.magnitude bits := by
  simp [value?_number hf]

theorem negative?_number (h : f.magnitude bits ≤ f.infinity) :
    (f.number bits).negative? = some (f.negative bits) := by
  rcases h.lt_or_eq with hlt | heq
  · rw [number_of_lt hlt]
    rfl
  · rw [number_of_eq heq]
    rfl

/-- Value and sign tell which pattern it is. -/
theorem eq_of_value? (hf : 0 < f.infinity) {r : ExactValue}
    (hbits : bits < 2 ^ (f.fractionBits + f.exponentBits + 1))
    (hbits' : bits' < 2 ^ (f.fractionBits + f.exponentBits + 1))
    (hvalue : (f.number bits).value? = some r) (hvalue' : (f.number bits').value? = some r)
    (hsign : (f.number bits).negative? = (f.number bits').negative?) : bits = bits' := by
  rw [value?_number hf, Option.ite_none_left_eq_some, Option.some_inj] at hvalue hvalue'
  obtain ⟨hle, hvalue⟩ := hvalue
  obtain ⟨hle', hvalue'⟩ := hvalue'
  rw [negative?_number (not_lt.1 hle), negative?_number (not_lt.1 hle'), Option.some_inj] at hsign
  have hkey : f.key bits = f.key bits' := f.strictMonoOn_keyValue.injOn
    (key_mem_keys (not_lt.1 hle)) (key_mem_keys (not_lt.1 hle')) (hvalue.trans hvalue'.symm)
  refine eq_of_fields hbits hbits' hsign ?_
  rw [← natAbs_key, ← natAbs_key, hkey]

end Interchange

end SqlBind.Ieee
