import SqlBind.Proofs.Bind.Length
import SqlBind.Proofs.Bind.Stopped
import SqlBind.Proofs.Encode.Encoded
import SqlBind.Proofs.Param.Contract

/-!
# The library keeps the contract

* `ValueType.IsBuiltIn`: the types that the library offers, without parameter kinds from outside.
* `keepsContract_of_encoded`: every column of an encoded value of such a type keeps the contract.
* `encode_keeps_contract`: hence all of them is sent but final nuls, the section has a length, and
  only the limits of the protocol can end the writing.
-/

namespace SqlBind
set_option autoImplicit false

namespace ValueType

mutual
/-- The type is built from the library's own, and only types of one column are optional in it. -/
def IsBuiltIn : ValueType → Prop
  | option inner => inner.columns = 1 ∧ inner.IsBuiltIn
  | ref inner => inner.IsBuiltIn
  | tuple elements => AllBuiltIn elements
  | converted target => target.IsBuiltIn
  | foreign _ => False
  | _ => True
def AllBuiltIn : List ValueType → Prop
  | [] => True
  | t :: rest => t.IsBuiltIn ∧ AllBuiltIn rest
end

theorem allBuiltIn_iff {types : List ValueType} :
    AllBuiltIn types ↔ ∀ t ∈ types, t.IsBuiltIn := by
  induction types with
  | nil => simp [AllBuiltIn]
  | cons t rest ih => simp [AllBuiltIn, ih]

theorem regular_shape {t : ValueType} (h : t.IsBuiltIn) : t.shape.Regular := by
  induction t with
  | null => exact Shape.regular_null
  | int16 | int32 | int64 | float32 | float64 => exact Shape.regular_binary (by decide)
  | option inner ih => exact Shape.regular_optional h.1 (ih h.2)
  | ref inner ih => exact ih h
  | tuple elements ih =>
    apply Shape.regular_tuple
    intro s hs
    rw [shapes_eq_map] at hs
    obtain ⟨t, ht, rfl⟩ := List.mem_map.1 hs
    exact ih t ht (allBuiltIn_iff.1 h t ht)
  | converted target ih => exact ih h
  | foreign kind => exact h.elim
  | _ => exact Shape.regular_text

end ValueType

namespace Value

theorem length_binaryContent {v : Value} {bytes : Bytes} (h : v.binaryContent = .some bytes) :
    bytes.length ∈ binaryWidths := by
  cases v <;> cases h <;> simp [binaryWidths]

theorem keepsContract_of_encoded {passing : Passing} {v : Value} {p : Param}
    (h : Encoded passing v p) (hv : v.type.IsBuiltIn) :
    ∀ index < p.columns, p.KeepsContract index := by
  -- Parameters of one column have only the column zero.
  have single {q : Param} (hq : q.KeepsContract 0) : ∀ index < 1, q.KeepsContract index := by
    intro index hindex
    obtain rfl : index = 0 := Nat.lt_one_iff.1 hindex
    exact hq
  induction h with
  | null => exact single Param.keepsContract_null
  | text _ hholds => exact single (Param.keepsContract_text hholds)
  | binary hbytes => exact single (Param.keepsContract_binary (length_binaryContent hbytes))
  | absent inner =>
    exact single (Param.keepsContract_absent hv.1 (ValueType.regular_shape hv.2))
  | @present passing v p hp ih =>
    have hcolumns : p.columns = 1 := (columns_of_encoded hp).trans hv.1
    exact single (Param.keepsContract_present (ih hv.2 0 (by omega)))
  | ref _ ih => exact ih hv
  | nil => exact fun index hindex => absurd hindex (Nat.not_lt_zero index)
  | cons _ _ ihv ihvs => exact Param.keepsContract_cons (ihv hv.1) (ihvs hv.2)
  | converted log _ ih => exact ih hv
  | foreign param => exact hv.elim

theorem format_eq_ok_of_encode {passing : Passing} {v : Value} {p : Param} (hv : v.type.IsBuiltIn)
    (h : (v.encode passing).result = .ok p) :
    ∀ index < p.columns, ∃ format, p.format index = .ok format := fun index hindex =>
  (keepsContract_of_encoded (encoded_of_encode h) hv index hindex).format_eq_ok

theorem sent_eq_ok_of_encode {passing : Passing} {v : Value} {p : Param} (hv : v.type.IsBuiltIn)
    (h : (v.encode passing).result = .ok p) :
    ∀ index < p.columns, ∃ value, p.sent index = .ok value := fun index hindex =>
  (keepsContract_of_encoded (encoded_of_encode h) hv index hindex).sent_eq_ok

end Value

/-- **Encoders keep the contract.** Every column of an encoded library value is text with one nul,
which is its last byte, or binary of a declared width of 2, 4 or 8 bytes, or NULL; and all of it is
sent but the final nul. The length of its section is always known, and only more columns than the
protocol counts, or a value longer than it can say, end the writing of the section. -/
theorem encode_keeps_contract {passing : Passing} {v : Value} {p : Param} (hv : v.type.IsBuiltIn)
    (h : (v.encode passing).result = .ok p) :
    (∀ index < p.columns,
      (∃ content : Option Bytes, (∀ bs ∈ content, 0 ∉ bs) ∧ p.format index = .ok .text ∧
        p.length index = .ok 0 ∧ p.data index = .ok (content.map (· ++ [0])) ∧
        p.sent index = .ok content) ∨
      ∃ width ∈ [2, 4, 8], ∃ bytes : Option Bytes, (∀ bs ∈ bytes, bs.length = width) ∧
        p.format index = .ok .binary ∧ p.length index = .ok (Int32.ofNat width) ∧
        p.data index = .ok bytes ∧ p.sent index = .ok bytes) ∧
    (∃ size, p.sectionLength = .ok size) ∧
    ∀ fault, p.sectionRun.fault = some fault ↔
      (mostColumns < p.columns ∧ fault = .tooManyColumns) ∨
        (p.columns ≤ mostColumns ∧ ¬p.Fits ∧ fault = .valueTooLarge) := by
  have hkeeps := Value.keepsContract_of_encoded (Value.encoded_of_encode h) hv
  have hformats := Value.format_eq_ok_of_encode hv h
  have hvalues := Value.sent_eq_ok_of_encode hv h
  obtain ⟨values, hanswers⟩ := Param.exists_answers.2 hvalues
  refine ⟨fun index hindex => (hkeeps index hindex).sent_whole, ?_, ?_⟩
  · exact ⟨_, Param.sectionLength_eq_ok hanswers⟩
  · exact Param.fault_sectionRun_of_answered hformats hvalues

/-- More columns than the protocol counts are not all that ends the writing. -/
theorem not_only_uncounted_stops :
    ¬ ∀ (passing : Passing) (v : Value) (p : Param), v.type.IsBuiltIn →
      (v.encode passing).result = .ok p →
      ∀ fault, p.sectionRun.fault = some fault → mostColumns < p.columns := by
  intro h
  have hmany := h .moved (.ctext .owned longText) _ True.intro rfl _ fault_longText
  exact Nat.not_lt.2 (Param.columns_text_le _) hmany

/-- A number, one that is missing, and two texts. -/
def account : Value :=
  .tuple [.some (.int32 7), .none .int16, .tuple [.string .owned "a", .bytes .owned [0]]]

theorem encode_keeps_contract_account :
    account.type.IsBuiltIn ∧ ∃ p, (account.encode .lent).result = .ok p ∧ p.columns = 4 ∧
      ∃ size, p.sectionLength = .ok size := by
  have hbuiltIn : account.type.IsBuiltIn := by
    simp [account, Value.type, Value.types, ValueType.IsBuiltIn, ValueType.AllBuiltIn,
      ValueType.columns, ValueType.shape, Shape.columns]
  have h : (account.encode .lent).result = .ok
      (.tuple [.present (.binary [0, 0, 0, 7]), .absent (.binary 2),
        .tuple [.text (.owned ⟨[97], by decide⟩), .text (.heap [92, 120, 48, 48, 0])]]) := by rfl
  exact ⟨hbuiltIn, _, h, rfl, (encode_keeps_contract hbuiltIn h).2.1⟩

end SqlBind
