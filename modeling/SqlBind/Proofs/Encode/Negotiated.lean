import SqlBind.Proofs.Bind.Collected
import SqlBind.Proofs.Bind.Outcome
import SqlBind.Proofs.Encode.Encoded
import SqlBind.UserTypes.Converted
import SqlBind.UserTypes.Unchecked

/-!
# What is agreed on beforehand

A statement is prepared for a type, and the values that are bound to it come later. Whatever they
are, the columns, lengths and formats must be those that the statement was prepared for.

* `Param.SectionParts`: a section taken apart into its header and one entry per column.
* `Param.exists_sectionParts`: a section falls into such parts, and its header tells the formats.
* `negotiated_of_type`: values of one type have the same columns, lengths and formats, and their
  sections the same header.
-/

namespace SqlBind
set_option autoImplicit false

namespace Param

/-- A section is a header, which holds two counts and a format code per column, and one entry per
column. The entry of NULL is the length `-1` and nothing else. -/
structure SectionParts (p : Param) (bytes header : Bytes) (entries : List Bytes) : Prop where
  bytes_eq : bytes = header ++ entries.flatten
  length_header : header.length = 4 + 2 * p.columns
  length_entries : entries.length = p.columns
  null : ∀ index < p.columns, p.data index = .ok none →
    entries[index]? = some [255, 255, 255, 255]
  value : ∀ index < p.columns, ∀ value, p.sent index = .ok (some value) →
    entries[index]? = some (bigEndian 4 value.length ++ value)

/-- The two counts and the format codes. -/
def header (formats : List Format) : Bytes :=
  bigEndian 2 formats.length ++ formats.flatMap (fun format => bigEndian 2 format.code) ++
    bigEndian 2 formats.length

theorem length_header (formats : List Format) :
    (header formats).length = 4 + 2 * formats.length := by
  rw [header, List.length_append, List.length_append, length_formatCodes, length_bigEndian]
  omega

theorem exists_sectionParts {p : Param} {bytes : Bytes} (h : p.completeSection = .ok bytes) :
    ∃ formats entries, p.answers format = formats.map .ok ∧
      p.SectionParts bytes (header formats) entries := by
  obtain ⟨-, -, formats, values, hformats, hvalues, rfl⟩ := completeSection_eq_ok_iff.1 h
  have hcount := length_of_answers hformats
  have hlength := length_of_answers hvalues
  have hentry : ∀ index < p.columns, ∀ value, p.sent index = .ok value →
      (values.map valueBytes)[index]? = some (valueBytes value) := by
    intro index hindex value hsent
    obtain ⟨found, hget, hfound⟩ := getElem?_of_answers hvalues hindex
    cases hsent.symm.trans hfound
    rw [List.getElem?_map, hget]
    rfl
  refine ⟨formats, values.map valueBytes, hformats, ?_, ?_, ?_, ?_, ?_⟩
  · rw [sectionBytes_eq_sectionStart (hlength.trans hcount.symm), sectionStart, header,
      ← List.flatMap_def, List.append_assoc _ _ (values.flatMap valueBytes)]
  · rw [length_header, hcount]
  · rw [List.length_map, hlength]
  · intro index hindex hnull
    exact hentry index hindex none (sent_of_null hnull)
  · intro index hindex value hsent
    exact hentry index hindex (some value) hsent

theorem SectionParts.take_eq {p : Param} {bytes header : Bytes} {entries : List Bytes}
    (h : p.SectionParts bytes header entries) : bytes.take (4 + 2 * p.columns) = header := by
  rw [h.bytes_eq, ← h.length_header, List.take_left]

/-! ## Parameters of one shape -/

variable {p q : Param}

theorem answers_eq_of_shape {α : Type} (ask : Shape → Nat → Except Fault α)
    (h : p.shape = q.shape) :
    p.answers (fun p => ask p.shape) = q.answers (fun q => ask q.shape) := by
  rw [answers, answers, columns, columns, h]

theorem answers_format_eq_of_shape (h : p.shape = q.shape) : p.answers format = q.answers format :=
  answers_eq_of_shape Shape.format h

theorem arrays_eq_of_shape (h : p.shape = q.shape) {a b : Arrays} (ha : p.arrays = .ok a)
    (hb : q.arrays = .ok b) : a.lengths = b.lengths ∧ a.formats = b.formats := by
  obtain ⟨-, hlengths, formats, hformats, hcodes⟩ := answers_of_arrays ha
  obtain ⟨-, hlengths', formats', hformats', hcodes'⟩ := answers_of_arrays hb
  have hlength : p.answers length = q.answers length := answers_eq_of_shape Shape.length h
  rw [hlength] at hlengths
  rw [answers_format_eq_of_shape h] at hformats
  refine ⟨eq_of_answers hlengths hlengths', ?_⟩
  rw [hcodes, hcodes', eq_of_answers hformats hformats']

theorem sections_of_shape (h : p.shape = q.shape) {s t : Bytes} (hs : p.completeSection = .ok s)
    (ht : q.completeSection = .ok t) :
    ∃ header entries entries', p.SectionParts s header entries ∧
      q.SectionParts t header entries' := by
  obtain ⟨formats, entries, hformats, hparts⟩ := exists_sectionParts hs
  obtain ⟨formats', entries', hformats', hparts'⟩ := exists_sectionParts ht
  rw [answers_format_eq_of_shape h] at hformats
  obtain rfl := eq_of_answers hformats hformats'
  exact ⟨_, entries, entries', hparts, hparts'⟩

end Param

/-- **What is agreed on depends on the type alone.** Any two values of one type that have parameters
at all have as many columns, each with the same length and format. So their arrays have the same
lengths and formats, and their sections the same header; the sections differ in nothing but the
entries of the columns behind it, and the entry of a NULL is the length `-1`. -/
theorem negotiated_of_type {a b : Passing} {v w : Value} {p q : Param} (htype : v.type = w.type)
    (hp : (v.encode a).result = .ok p) (hq : (w.encode b).result = .ok q) :
    p.columns = q.columns ∧
    (∀ index, p.length index = q.length index ∧ p.format index = q.format index) ∧
    (∀ x y, p.arrays = .ok x → q.arrays = .ok y → x.lengths = y.lengths ∧ x.formats = y.formats) ∧
    ∀ s t, p.completeSection = .ok s → q.completeSection = .ok t →
      s.take (4 + 2 * p.columns) = t.take (4 + 2 * p.columns) ∧
      ∃ header entries entries', p.SectionParts s header entries ∧
        q.SectionParts t header entries' := by
  have hshape : p.shape = q.shape := by
    rw [Value.shape_of_encoded (Value.encoded_of_encode hp), htype,
      Value.shape_of_encoded (Value.encoded_of_encode hq)]
  have hcolumns : p.columns = q.columns := congrArg Shape.columns hshape
  refine ⟨hcolumns, ?_, fun x y => Param.arrays_eq_of_shape hshape, ?_⟩
  · intro index
    rw [Param.length, Param.format, hshape]
    exact ⟨rfl, rfl⟩
  · intro s t hs ht
    obtain ⟨header, entries, entries', hparts, hparts'⟩ := Param.sections_of_shape hshape hs ht
    have htake := hparts'.take_eq
    rw [← hcolumns] at htake
    exact ⟨hparts.take_eq.trans htake.symm, header, entries, entries', hparts, hparts'⟩

/-- Hardly anything is there: a missing number, a number that counts as missing, a missing value of
an optional type, and a column from outside without a value. -/
def scarce : Value :=
  .tuple [.none .int32, Bindable.value (UserTypes.Positive.mk (-3)), .some (.none .int16),
    .foreign (UserTypes.rawBinary 2 none)]

/-- Everything is there. -/
def plentiful : Value :=
  .tuple [.some (.int32 7), Bindable.value (UserTypes.Positive.mk 3), .some (.some (.int16 1)),
    .foreign (UserTypes.rawBinary 2 (some [5, 6]))]

theorem negotiated_of_type_plentiful :
    scarce.type = plentiful.type ∧ ∃ p q s t, (scarce.encode .moved).result = .ok p ∧
      (plentiful.encode .lent).result = .ok q ∧ p.completeSection = .ok s ∧
      q.completeSection = .ok t ∧ s.length = 28 ∧ t.length = 44 ∧ s.take 12 = t.take 12 := by
  have htype : scarce.type = plentiful.type := by rfl
  have hp : (scarce.encode .moved).result = .ok (.tuple [.absent (.binary 4),
      .absent (.binary 8), .present (.absent (.binary 2)),
      .foreign (UserTypes.rawBinary 2 none)]) := by rfl
  have hq : (plentiful.encode .lent).result = .ok (.tuple [.present (.binary [0, 0, 0, 7]),
      .present (.binary [0, 0, 0, 0, 0, 0, 0, 3]), .present (.present (.binary [0, 1])),
      .foreign (UserTypes.rawBinary 2 (some [5, 6]))]) := by rfl
  obtain ⟨-, -, -, hsections⟩ := negotiated_of_type htype hp hq
  obtain ⟨htake, -⟩ := hsections _ _ rfl rfl
  exact ⟨htype, _, _, _, _, hp, hq, rfl, rfl, rfl, rfl, htake⟩

end SqlBind
