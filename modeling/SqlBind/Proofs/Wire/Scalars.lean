import SqlBind.Proofs.Bytes.Words
import SqlBind.Proofs.Encode.Encoded
import SqlBind.Proofs.Text.Readings

/-!
# Reading scalars

* `Scalar.bool?`, `Scalar.char?`, `Scalar.integer?`, `Scalar.string?`, `Scalar.ctext?`,
  `Scalar.bytes?`: what the content of a text column stands for.
* `Scalar.signed?`, `Scalar.unsigned?`: the number in a binary column of a given width.
* `ValueType.scalar? t content`: the value of a scalar type whose column holds this content.
* `scalar?_of_binaryContent`: numbers in binary form are read back.
-/

namespace SqlBind
set_option autoImplicit false

/-! ## Contents -/

namespace Scalar

/-- One of the two words for truth values. -/
def bool? (content : Bytes) : Option Bool :=
  if content = utf8 "TRUE".toList then some true
  else if content = utf8 "FALSE".toList then some false
  else none

/-- A text of one character. -/
def char? (content : Bytes) : Option Char := do
  match ← ofUtf8? content with
  | [c] => some c
  | _ => none

/-- A decimal numeral within the range of its kind. -/
def integer? (kind : IntKind) (content : Bytes) : Option BoundedInt := do
  let n ← Numeral.readInt? (← ofUtf8? content)
  if h : kind.least ≤ n ∧ n ≤ kind.greatest then some ⟨kind, n, h.1, h.2⟩ else none

def string? (content : Bytes) : Option String :=
  (ofUtf8? content).map String.ofList

def ctext? (content : Bytes) : Option CText :=
  if h : 0 ∈ content then none else some ⟨content, h⟩

/-- `\x` and two hexadecimal digits for each byte. -/
def bytes? (content : Bytes) : Option Bytes := do
  match ← ofUtf8? content with
  | '\\' :: 'x' :: digits => Hex.read? digits
  | _ => none

def signed? (width : Nat) (content : Bytes) : Option Int :=
  if content.length = width then some (twosComplement content) else none

def unsigned? (width : Nat) (content : Bytes) : Option Nat :=
  if content.length = width then some (ofBigEndian content) else none

theorem bool?_word (b : Bool) :
    bool? (utf8 (if b then "TRUE" else "FALSE").toList) = some b := by
  cases b <;> rfl

theorem char?_utf8 (c : Char) : char? (utf8 [c]) = some c := by
  rw [char?, ofUtf8?_utf8]
  rfl

theorem integer?_ofInt (n : BoundedInt) :
    integer? n.kind (utf8 (Numeral.ofInt n.val)) = some n := by
  rw [integer?, ofUtf8?_utf8]
  show (Numeral.readInt? (Numeral.ofInt n.val) >>= _) = _
  rw [Numeral.readInt?_ofInt]
  exact dif_pos ⟨n.least_le, n.le_greatest⟩

theorem string?_utf8 (s : String) : string? (utf8 s.toList) = some s := by
  rw [string?, ofUtf8?_utf8, Option.map_some, String.ofList_toList]

theorem ctext?_bytes (t : CText) : ctext? t.bytes = some t := by
  rw [ctext?, dif_neg t.nul_free]

theorem bytes?_digits (bs : Bytes) :
    bytes? (utf8 ('\\' :: 'x' :: Hex.digits bs)) = some bs := by
  rw [bytes?, ofUtf8?_utf8]
  exact Hex.read?_digits bs

theorem unsigned?_bigEndian {width v : Nat} (h : v < 256 ^ width) :
    unsigned? width (bigEndian width v) = some v := by
  rw [unsigned?, if_pos (length_bigEndian width v), ofBigEndian_bigEndian h]

theorem signed?_int16 (n : Int16) : signed? 2 (Network.int16 n) = some n.toInt := by
  rw [signed?, if_pos (Network.length_int16 n), twosComplement_int16]

theorem signed?_int32 (n : Int32) : signed? 4 (Network.int32 n) = some n.toInt := by
  rw [signed?, if_pos (Network.length_int32 n), twosComplement_int32]

theorem signed?_int64 (n : Int64) : signed? 8 (Network.int64 n) = some n.toInt := by
  rw [signed?, if_pos (Network.length_int64 n), twosComplement_int64]

end Scalar

/-! ## Values -/

/-- The value of type `t` that a column of this content stands for. Numbers of the wrong width or
out of the range of their kind are no values, nor is text that is not of the right form. -/
def ValueType.scalar? : ValueType → Bytes → Option Value
  | bool, content => (Scalar.bool? content).map .bool
  | char, content => (Scalar.char? content).map .char
  | decimal kind, content => (Scalar.integer? kind content).map .decimal
  | int16, content => (Scalar.signed? 2 content).map fun n => .int16 (Int16.ofInt n)
  | int32, content => (Scalar.signed? 4 content).map fun n => .int32 (Int32.ofInt n)
  | int64, content => (Scalar.signed? 8 content).map fun n => .int64 (Int64.ofInt n)
  | float32, content => (Scalar.unsigned? 4 content).map fun n => .float32 (UInt32.ofNat n)
  | float64, content => (Scalar.unsigned? 8 content).map fun n => .float64 (UInt64.ofNat n)
  | string own, content => (Scalar.string? content).map (.string own)
  | ctext own, content => (Scalar.ctext? content).map (.ctext own)
  | bytes own, content => (Scalar.bytes? content).map (.bytes own)
  | _, _ => none

namespace Value

theorem scalar?_of_binaryContent {v : Value} {content : Bytes}
    (h : v.binaryContent = .some content) : v.type.scalar? content = .some v := by
  cases v with
  | int16 n =>
    cases h
    rw [type, ValueType.scalar?, Scalar.signed?_int16, Option.map_some, Int16.ofInt_toInt]
  | int32 n =>
    cases h
    rw [type, ValueType.scalar?, Scalar.signed?_int32, Option.map_some, Int32.ofInt_toInt]
  | int64 n =>
    cases h
    rw [type, ValueType.scalar?, Scalar.signed?_int64, Option.map_some, Int64.ofInt_toInt]
  | float32 bits =>
    cases h
    have hread : Scalar.unsigned? 4 (Network.int32 (Network.word32 bits)) = .some bits.toNat :=
      Scalar.unsigned?_bigEndian bits.toNat_lt
    rw [type, ValueType.scalar?, hread, Option.map_some, UInt32.ofNat_toNat]
  | float64 bits =>
    cases h
    have hread : Scalar.unsigned? 8 (Network.int64 (Network.word64 bits)) = .some bits.toNat :=
      Scalar.unsigned?_bigEndian bits.toNat_lt
    rw [type, ValueType.scalar?, hread, Option.map_some, UInt64.ofNat_toNat]
  | _ => cases h

end Value

end SqlBind
