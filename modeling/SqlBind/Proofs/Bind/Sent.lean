import SqlBind.Bind.Sent

/-!
# What is sent for a column

* `signExtended length`: a length in 64 bits, without its sign; `claimedEnd_eq`: so far a binary
  column claims to go; `lt_signExtended_iff`: beyond the end of its data if the length is negative or
  greater than there are bytes.
* `sent_of_null`, `sent_of_text`, `sent_of_binary`, `sent_of_overrun`: the four cases;
  `sent_cases`: there is no other way in which something is sent.
* `sent_eq_none_iff`: NULL is sent just for NULL.
* `prefix_of_sent`: what is sent is a beginning of the data.
-/

namespace SqlBind
set_option autoImplicit false

/-! ## Lengths -/

/-- A length, sign-extended to 64 bits and taken without its sign. -/
def signExtended (length : Int32) : Nat :=
  (length.toBitVec.signExtend 64).toNat

theorem claimedEnd_eq (length : Int32) : claimedEnd length = signExtended length := by
  rw [signExtended, BitVec.signExtend, BitVec.toNat_ofInt]
  rfl

theorem lt_signExtended_iff {length : Int32} {size : Nat} (h : size < 2 ^ 63) :
    size < signExtended length ↔ length.toInt < 0 ∨ (size : Int) < length.toInt := by
  have hlow := length.le_toInt
  have hhigh := length.toInt_lt
  rw [← claimedEnd_eq, claimedEnd]
  omega

namespace Param

variable {p : Param} {index : Nat}

/-! ## The four cases -/

theorem sent_of_null (h : p.data index = .ok none) : p.sent index = .ok none := by
  rw [sent, h]
  rfl

theorem sent_of_text {data : Bytes} (h : p.data index = .ok (some data))
    (hformat : p.format index = .ok .text) :
    p.sent index = .ok (some (data.takeWhile (· != 0))) := by
  rw [sent, h, hformat]
  rfl

theorem sent_of_binary {data : Bytes} {length : Int32} (h : p.data index = .ok (some data))
    (hformat : p.format index = .ok .binary) (hlength : p.length index = .ok length)
    (hstop : claimedEnd length ≤ data.length) :
    p.sent index = .ok (some (data.take (claimedEnd length))) := by
  rw [sent, h, hformat, hlength]
  exact if_pos hstop

theorem sent_of_overrun {data : Bytes} {claimed : Int32} (h : p.data index = .ok (some data))
    (hformat : p.format index = .ok .binary) (hlength : p.length index = .ok claimed)
    (hstop : ¬claimedEnd claimed ≤ data.length) :
    p.sent index = .error (.sliceEnd (claimedEnd claimed) data.length) := by
  rw [sent, h, hformat, hlength]
  exact if_neg hstop

theorem sent_cases {value : Option Bytes} (h : p.sent index = .ok value) :
    (p.data index = .ok none ∧ value = none) ∨
    (∃ data, p.data index = .ok (some data) ∧ p.format index = .ok .text ∧
      value = some (data.takeWhile (· != 0))) ∨
    ∃ data claimed, p.data index = .ok (some data) ∧ p.format index = .ok .binary ∧
      p.length index = .ok claimed ∧ claimedEnd claimed ≤ data.length ∧
      value = some (data.take (claimedEnd claimed)) := by
  rcases hdata : p.data index with fault | _ | data
  · rw [sent, hdata] at h
    cases h
  · rw [sent_of_null hdata] at h
    cases h
    exact .inl ⟨rfl, rfl⟩
  · rcases hformat : p.format index with fault | _ | _
    · rw [sent, hdata, hformat] at h
      cases h
    · rw [sent_of_text hdata hformat] at h
      cases h
      exact .inr (.inl ⟨data, rfl, rfl, rfl⟩)
    · rcases hlength : p.length index with fault | claimed
      · rw [sent, hdata, hformat, hlength] at h
        cases h
      · by_cases hstop : claimedEnd claimed ≤ data.length
        · rw [sent_of_binary hdata hformat hlength hstop] at h
          cases h
          exact .inr (.inr ⟨data, claimed, rfl, rfl, rfl, hstop, rfl⟩)
        · rw [sent_of_overrun hdata hformat hlength hstop] at h
          cases h

theorem sent_eq_none_iff {value : Option Bytes} (h : p.sent index = .ok value) :
    value = none ↔ p.data index = .ok none := by
  rcases sent_cases h with ⟨hdata, rfl⟩ | ⟨data, hdata, -, rfl⟩ | ⟨data, _, hdata, -, -, -, rfl⟩ <;>
    simp [hdata]

theorem prefix_of_sent {value : Bytes} (h : p.sent index = .ok (some value)) :
    ∃ data, p.data index = .ok (some data) ∧ value <+: data := by
  rcases sent_cases h with ⟨-, hvalue⟩ | ⟨data, hdata, -, hvalue⟩ |
    ⟨data, _, hdata, -, -, -, hvalue⟩
  · cases hvalue
  · cases hvalue
    exact ⟨data, hdata, List.takeWhile_prefix _⟩
  · cases hvalue
    exact ⟨data, hdata, List.take_prefix _ _⟩

end Param

end SqlBind
