import Mathlib.Data.List.Forall2
import SqlBind.Proofs.Bind.Collected
import SqlBind.Proofs.Encode.Contract

/-!
# Sections that a client writes

A client that is given nothing but the three arrays can write the parameter section by itself. It
finds the end of a text by its nul and that of binary data by the declared length, and whatever a
pointer shows ends somewhere: reading beyond that end has no result here.

* `Arrays.written?`: what such a client writes for one column.
* `Arrays.section?`: the section that it writes.
* `section_of_arrays`: for library values that is the section that is written from the parameter.
-/

namespace SqlBind
set_option autoImplicit false

namespace Arrays

/-- The text behind a pointer up to its nul, if there is a nul before the end. -/
def cString? (shown : Bytes) : Option Bytes :=
  if 0 ∈ shown then some (shown.takeWhile (· != 0)) else none

/-- So many bytes behind a pointer, if there are as many. -/
def slice? (shown : Bytes) (length : Int32) : Option Bytes :=
  if 0 ≤ length.toInt ∧ length.toInt.toNat ≤ shown.length then
    some (shown.take length.toInt.toNat)
  else none

/-- What the client writes for a column: `-1` for a null pointer, a text behind the number of its
bytes, and binary data behind the length from the array. The number of bytes has to fit its field.
-/
def written? (value : Option Bytes) (length : Int32) (code : Nat) : Option Bytes :=
  match value with
  | none => some (Network.int32 (-1))
  | some shown =>
    if code = 0 then do
      let text ← cString? shown
      if text.length ≤ longestValue then some (bigEndian 4 text.length ++ text) else none
    else do
      let data ← slice? shown length
      return Network.int32 length ++ data

/-- What the client writes for all columns; the three arrays have to be of one length. -/
def writtenAll? : List (Option Bytes) → List Int32 → List Nat → Option (List Bytes)
  | [], [], [] => some []
  | value :: values, length :: lengths, code :: codes => do
    let first ← written? value length code
    let others ← writtenAll? values lengths codes
    return first :: others
  | _, _, _ => none

/-- The section that the client writes, if the columns can be counted. -/
def section? (a : Arrays) : Option Bytes :=
  if a.size ≤ mostColumns then do
    let entries ← writtenAll? a.values a.lengths a.formats
    return bigEndian 2 a.size ++ a.formats.flatMap (bigEndian 2) ++
      (bigEndian 2 a.size ++ entries.flatten)
  else none

/-! ## One column -/

theorem cString?_terminated {content : Bytes} (h : 0 ∉ content) :
    cString? (content ++ [0]) = some content := by
  rw [cString?, if_pos (by simp), Param.takeWhile_terminated h]

theorem written?_none {length : Int32} {code : Nat} {entry : Bytes} :
    written? none length code = some entry ↔
      Param.valueSize none ≤ longestValue ∧ entry = valueBytes none := by
  have hnull : Network.int32 (-1) = nullLength := rfl
  simp [written?, valueBytes, Param.valueSize, hnull, eq_comm]

theorem written?_text {content : Option Bytes} (hnul : ∀ bs ∈ content, 0 ∉ bs) (length : Int32)
    {entry : Bytes} :
    written? (content.map (· ++ [0])) length Format.text.code = some entry ↔
      Param.valueSize content ≤ longestValue ∧ entry = valueBytes content := by
  cases content with
  | none => exact written?_none
  | some content =>
    have hread := cString?_terminated (hnul content rfl)
    simp [written?, Format.code, hread, valueBytes, Param.valueSize, eq_comm]

theorem slice?_whole {width : Nat} {bytes : Bytes} (hwidth : width ∈ binaryWidths)
    (hsize : bytes.length = width) : slice? bytes (Int32.ofNat width) = some bytes := by
  have hlength : ∀ width ∈ binaryWidths, (Int32.ofNat width).toInt = width := by decide
  rw [slice?, hlength width hwidth, Int.toNat_natCast, ← hsize, List.take_length]
  exact if_pos ⟨Int.natCast_nonneg _, Nat.le_refl _⟩

theorem written?_binary {width : Nat} {bytes : Option Bytes} (hwidth : width ∈ binaryWidths)
    (hsize : ∀ bs ∈ bytes, bs.length = width) {entry : Bytes} :
    written? bytes (Int32.ofNat width) Format.binary.code = some entry ↔
      Param.valueSize bytes ≤ longestValue ∧ entry = valueBytes bytes := by
  cases bytes with
  | none => exact written?_none
  | some bytes =>
    have hlength : bytes.length = width := hsize bytes rfl
    have hread := slice?_whole hwidth hlength
    have hfield : ∀ width ∈ binaryWidths,
        Network.int32 (Int32.ofNat width) = bigEndian 4 width := by decide
    have hfits : ∀ width ∈ binaryWidths, width ≤ longestValue := by decide
    simp [written?, Format.code, hread, hfield width hwidth, valueBytes, Param.valueSize, hlength,
      hfits width hwidth, eq_comm]

/-- The client writes this for the column just when the value fits its length field. -/
def Delivers (c : ArrayColumn) (value : Option Bytes) : Prop :=
  ∀ entry, written? c.value c.length c.format.code = some entry ↔
    Param.valueSize value ≤ longestValue ∧ entry = valueBytes value

theorem delivers_of_keepsContract {p : Param} {index : Nat} (h : p.KeepsContract index)
    {c : ArrayColumn} {value : Option Bytes} (hc : p.arrayColumn index = .ok c)
    (hvalue : p.sent index = .ok value) : Delivers c value := by
  obtain ⟨columnValue, columnLength, columnFormat⟩ := c
  obtain ⟨hdata, hformat, hlength⟩ := Param.arrayColumn_eq_ok_iff.1 hc
  rcases h.sent_whole with
    ⟨content, hnul, hf, hl, hd, hs⟩ | ⟨width, hwidth, bytes, hsize, hf, hl, hd, hs⟩
  · cases hf.symm.trans hformat
    cases hd.symm.trans hdata
    cases hs.symm.trans hvalue
    exact fun entry => written?_text hnul columnLength
  · cases hf.symm.trans hformat
    cases hl.symm.trans hlength
    cases hd.symm.trans hdata
    cases hs.symm.trans hvalue
    exact fun entry => written?_binary hwidth hsize

/-! ## All columns -/

theorem writtenAll?_eq_some_iff {columns : List ArrayColumn} {values : List (Option Bytes)}
    (h : List.Forall₂ Delivers columns values) {entries : List Bytes} :
    writtenAll? (columns.map ArrayColumn.value) (columns.map ArrayColumn.length)
        (columns.map fun c => c.format.code) = some entries ↔
      (∀ value ∈ values, Param.valueSize value ≤ longestValue) ∧
        entries = values.map valueBytes := by
  induction h generalizing entries with
  | nil => simp [writtenAll?, eq_comm]
  | @cons c value columns values hfirst _ ih =>
    unfold Delivers at hfirst
    simp only [List.map_cons, writtenAll?, Option.bind_eq_bind, Option.bind_eq_some_iff, hfirst, ih,
      List.forall_mem_cons]
    constructor
    · rintro ⟨entry, ⟨hfits, rfl⟩, others, ⟨hrest, rfl⟩, hentries⟩
      cases hentries
      exact ⟨⟨hfits, hrest⟩, rfl⟩
    · rintro ⟨⟨hfits, hrest⟩, rfl⟩
      exact ⟨_, ⟨hfits, rfl⟩, _, ⟨hrest, rfl⟩, rfl⟩

theorem section?_eq_some_iff {columns : List ArrayColumn} {values : List (Option Bytes)}
    (h : List.Forall₂ Delivers columns values) {bytes : Bytes} :
    (Param.arraysOf columns).section? = some bytes ↔
      columns.length ≤ mostColumns ∧ (∀ value ∈ values, Param.valueSize value ≤ longestValue) ∧
        bytes = sectionBytes (columns.map ArrayColumn.format) values := by
  have hsize : (Param.arraysOf columns).size = columns.length := List.length_map ..
  have hcodes : (Param.arraysOf columns).formats.flatMap (bigEndian 2) =
      (columns.map ArrayColumn.format).flatMap fun format => bigEndian 2 format.code := by
    rw [List.flatMap_map, Param.arraysOf, List.flatMap_map]
  have hvalues : values.length = columns.length := h.length_eq.symm
  rw [section?, hsize, hcodes]
  by_cases hcount : columns.length ≤ mostColumns
  · rw [if_pos hcount, sectionBytes, List.length_map, hvalues, List.flatMap_def (f := valueBytes)]
    constructor
    · intro hsection
      obtain ⟨entries, hentries, hbytes⟩ := Option.bind_eq_some_iff.1 hsection
      obtain ⟨hfits, rfl⟩ := (writtenAll?_eq_some_iff h).1 hentries
      exact ⟨hcount, hfits, (Option.some.inj hbytes).symm⟩
    · rintro ⟨-, hfits, rfl⟩
      exact Option.bind_eq_some_iff.2 ⟨_, (writtenAll?_eq_some_iff h).2 ⟨hfits, rfl⟩, rfl⟩
  · simp [hcount]

end Arrays

namespace Param

theorem forall₂_of_answers {α β : Type} {R : α → β → Prop} {p : Param}
    {read : Param → Nat → Except Fault α} {read' : Param → Nat → Except Fault β} {as : List α}
    {bs : List β} (h : p.answers read = as.map .ok) (h' : p.answers read' = bs.map .ok)
    (hR : ∀ index < p.columns, ∀ a b, read p index = .ok a → read' p index = .ok b → R a b) :
    List.Forall₂ R as bs := by
  have hlength := length_of_answers h
  have hlength' := length_of_answers h'
  rw [List.forall₂_iff_get]
  refine ⟨hlength.trans hlength'.symm, ?_⟩
  intro index ha hb
  have hindex : index < p.columns := hlength ▸ ha
  obtain ⟨a, hget, hread⟩ := getElem?_of_answers h hindex
  obtain ⟨b, hget', hread'⟩ := getElem?_of_answers h' hindex
  obtain ⟨_, rfl⟩ := List.getElem?_eq_some_iff.1 hget
  obtain ⟨_, rfl⟩ := List.getElem?_eq_some_iff.1 hget'
  exact hR index hindex _ _ hread hread'

variable {p : Param}

theorem exists_arrayColumns (h : ∀ index < p.columns, p.KeepsContract index) :
    ∃ columns : List ArrayColumn, p.answers arrayColumn = columns.map .ok := by
  apply exists_answers.2
  intro index hindex
  rcases h index hindex with ⟨_, _, hf, hl, hd⟩ | ⟨_, _, _, _, hf, hl, hd⟩
  · exact ⟨⟨_, _, _⟩, arrayColumn_eq_ok_iff.2 ⟨hd, hf, hl⟩⟩
  · exact ⟨⟨_, _, _⟩, arrayColumn_eq_ok_iff.2 ⟨hd, hf, hl⟩⟩

theorem section?_eq_some_iff (h : ∀ index < p.columns, p.KeepsContract index) {a : Arrays}
    (ha : p.arrays = .ok a) {bytes : Bytes} :
    a.section? = some bytes ↔ p.completeSection = .ok bytes := by
  obtain ⟨columns, hcolumns, rfl⟩ := arrays_eq_ok_iff.1 ha
  obtain ⟨values, hvalues⟩ := exists_answers.2 fun index hindex => (h index hindex).sent_eq_ok
  have hformats : p.answers format = (columns.map ArrayColumn.format).map .ok :=
    answers_eq_of_arrayColumn hcolumns fun _ _ hc => (arrayColumn_eq_ok_iff.1 hc).2.1
  have hdelivers : List.Forall₂ Arrays.Delivers columns values :=
    forall₂_of_answers hcolumns hvalues fun index hindex _ _ =>
      Arrays.delivers_of_keepsContract (h index hindex)
  rw [Arrays.section?_eq_some_iff hdelivers, completeSection_eq_ok_iff, length_of_answers hcolumns,
    fits_iff hvalues]
  constructor
  · rintro ⟨hcount, hfits, hbytes⟩
    exact ⟨hcount, hfits, _, _, hformats, hvalues, hbytes⟩
  · rintro ⟨hcount, hfits, formats', values', hformats', hvalues', hbytes⟩
    obtain rfl := eq_of_answers hformats' hformats
    obtain rfl := eq_of_answers hvalues' hvalues
    exact ⟨hcount, hfits, hbytes⟩

end Param

/-- **A client writes the same section.** Of every library value that has a parameter the three
arrays exist, with one entry per column, and the section that a client writes from nothing but these
arrays is byte for byte the one that is written from the parameter. Neither is written if the
columns cannot be counted or a value is longer than the protocol can say, and both are otherwise. -/
theorem section_of_arrays {passing : Passing} {v : Value} {p : Param} (hv : v.type.IsBuiltIn)
    (h : (v.encode passing).result = .ok p) :
    ∃ a, p.arrays = .ok a ∧ a.values.length = p.columns ∧ a.lengths.length = p.columns ∧
      a.formats.length = p.columns ∧
      (∀ bytes, a.section? = some bytes ↔ p.completeSection = .ok bytes) ∧
      ((∃ bytes, a.section? = some bytes) ↔ p.columns ≤ mostColumns ∧ p.Fits) := by
  have hkeeps := Value.keepsContract_of_encoded (Value.encoded_of_encode h) hv
  obtain ⟨columns, hcolumns⟩ := Param.exists_arrayColumns hkeeps
  have harrays := Param.arrays_eq_ok_iff.2 ⟨columns, hcolumns, rfl⟩
  obtain ⟨hvalues, hlengths, formats, hformats, hcodes⟩ := Param.answers_of_arrays harrays
  have hsection : ∀ bytes, (Param.arraysOf columns).section? = some bytes ↔
      p.completeSection = .ok bytes := fun _ => Param.section?_eq_some_iff hkeeps harrays
  refine ⟨_, harrays, Param.length_of_answers hvalues, Param.length_of_answers hlengths, ?_,
    hsection, ?_⟩
  · rw [hcodes, List.length_map, Param.length_of_answers hformats]
  · simp only [hsection]
    exact Param.exists_completeSection_iff (Value.format_eq_ok_of_encode hv h)
      (Value.sent_eq_ok_of_encode hv h)

/-- Columns that can be counted do not always have a section that a client writes. -/
theorem not_always_client_section :
    ¬ ∀ (passing : Passing) (v : Value) (p : Param), v.type.IsBuiltIn →
      (v.encode passing).result = .ok p → p.columns ≤ mostColumns →
      ∃ a, p.arrays = .ok a ∧ a.section? = some p.sectionRun.bytes := by
  intro h
  obtain ⟨a, harrays, hsection⟩ := h .moved (.ctext .owned longText) (.text (.owned longText))
    True.intro rfl (Param.columns_text_le _)
  have hencoded : Value.Encoded .moved (.ctext .owned longText) (.text (.owned longText)) :=
    Value.encoded_of_encode rfl
  have hkeeps := Value.keepsContract_of_encoded hencoded True.intro
  have hcomplete := (Param.section?_eq_some_iff hkeeps harrays).1 hsection
  have hfault := (Param.completeSection_eq_ok_iff_sectionRun.1 hcomplete).1
  rw [fault_longText] at hfault
  cases hfault

/-- A number, one that is missing, an empty text, two bytes and a truth value. -/
def parcel : Value :=
  .tuple [.int16 (-2), .none .int64, .tuple [.string .owned "", .bytes .borrowed [0, 255]],
    .some (.bool true)]

theorem section_of_arrays_parcel :
    parcel.type.IsBuiltIn ∧ ∃ p a, (parcel.encode .lent).result = .ok p ∧ p.arrays = .ok a ∧
      a.lengths = [2, 8, 0, 0, 0] ∧
      a.section? = some [0, 5, 0, 1, 0, 1, 0, 0, 0, 0, 0, 0, 0, 5, 0, 0, 0, 2, 255, 254,
        255, 255, 255, 255, 0, 0, 0, 0, 0, 0, 0, 6, 92, 120, 48, 48, 102, 102,
        0, 0, 0, 4, 84, 82, 85, 69] := by
  have hbuiltIn : parcel.type.IsBuiltIn := by
    simp [parcel, Value.type, Value.types, ValueType.IsBuiltIn, ValueType.AllBuiltIn,
      ValueType.columns, ValueType.shape, Shape.columns]
  have h : (parcel.encode .lent).result = .ok (.tuple [.binary [255, 254], .absent (.binary 8),
      .tuple [.text (.owned ⟨[], by decide⟩), .text (.heap [92, 120, 48, 48, 102, 102, 0])],
      .present (.text (.literal "TRUE"))]) := by rfl
  obtain ⟨a, ha, -, -, -, hsection, -⟩ := section_of_arrays hbuiltIn h
  have hlengths : a.lengths = [2, 8, 0, 0, 0] := by
    cases ha
    rfl
  exact ⟨hbuiltIn, _, a, h, ha, hlengths, (hsection _).2 (by rfl)⟩

end SqlBind
