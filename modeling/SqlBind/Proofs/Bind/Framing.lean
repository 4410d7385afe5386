import SqlBind.Proofs.Bind.Outcome
import SqlBind.Proofs.Bytes.Words
import SqlBind.Proofs.Wire.Reader
import SqlBind.UserTypes.Unchecked

/-!
# Reading a section back

A reader of the section grammar needs nothing but the bytes: the two counts say how many format
codes and how many values follow, and the length field of a value says where it ends.

* `Section`: what a reader finds; `Section.reader` reads it.
* `reads_sectionBytes`: the reader takes exactly the bytes of a section.
* `read_completeSection`: it finds the columns, formats and values of the parameter; no section is a
  beginning of another one, and sections that stand one after another fall apart in one way only.
-/

namespace SqlBind
set_option autoImplicit false

/-- What a reader of a section finds. -/
structure Section where
  columns : Nat
  formats : List Nat
  /-- The count in front of the values. -/
  repeated : Nat
  values : List (Option Bytes)
  deriving DecidableEq, Repr

namespace Section

def unsigned (n : Nat) : Reader UInt8 Nat :=
  ofBigEndian <$> Reader.take n

def signed (n : Nat) : Reader UInt8 Int :=
  twosComplement <$> Reader.take n

/-- What follows a length field: nothing for `-1`, which is NULL, and else as many bytes as it says;
no other length is negative. -/
def valueOf (length : Int) : Reader UInt8 (Option Bytes) :=
  if length = -1 then pure none
  else if 0 ≤ length then some <$> Reader.take length.toNat
  else failure

/-- A length field and its value. -/
def value : Reader UInt8 (Option Bytes) :=
  signed 4 >>= valueOf

/-- A count and as many format codes, and a count and as many values. -/
def reader : Reader UInt8 Section := do
  let columns ← unsigned 2
  let formats ← (unsigned 2).times columns
  let repeated ← unsigned 2
  let values ← value.times repeated
  return { columns, formats, repeated, values }

end Section

/-! ## The reader takes what was written -/

theorem reads_unsigned {n v : Nat} (h : v < 256 ^ n) :
    Reads (Section.unsigned n) (bigEndian n v) v := by
  have hread := (Reads.take (bigEndian n v)).map ofBigEndian
  rwa [length_bigEndian, ofBigEndian_bigEndian h] at hread

theorem reads_signed (n v : Nat) :
    Reads (Section.signed n) (bigEndian n v) (twosComplement (bigEndian n v)) := by
  have hread := (Reads.take (bigEndian n v)).map twosComplement
  rwa [length_bigEndian] at hread

theorem twosComplement_nullLength : twosComplement nullLength = -1 := by
  have hlt : 2 ^ 32 - 1 < 256 ^ 4 := by omega
  have hhalf : ¬2 * (2 ^ 32 - 1) < 256 ^ 4 := by omega
  rw [nullLength, twosComplement_bigEndian hlt, if_neg hhalf]
  rfl

theorem twosComplement_length {length : Nat} (h : length ≤ longestValue) :
    twosComplement (bigEndian 4 length) = length := by
  have hhalf : 2 * length < 256 ^ 4 := by
    unfold longestValue at h
    omega
  rw [twosComplement_bigEndian (by omega), if_pos hhalf]

theorem reads_value {value : Option Bytes} (h : Param.valueSize value ≤ longestValue) :
    Reads Section.value (valueBytes value) value := by
  cases value with
  | none =>
    have hlength : Reads (Section.signed 4) nullLength (twosComplement nullLength) :=
      reads_signed 4 _
    rw [twosComplement_nullLength] at hlength
    have hvalue : Reads (Section.valueOf (-1)) [] none := Reads.pure none
    have hread := hlength.bind hvalue
    rwa [List.append_nil] at hread
  | some value =>
    have hfits : value.length ≤ longestValue := h
    have hlength := reads_signed 4 value.length
    rw [twosComplement_length hfits] at hlength
    have hvalue : Reads (Section.valueOf value.length) value (some value) := by
      have hnotNull : ¬(value.length : Int) = -1 := by omega
      have hnonneg : 0 ≤ (value.length : Int) := by omega
      rw [Section.valueOf, if_neg hnotNull, if_pos hnonneg, Int.toNat_natCast]
      exact (Reads.take value).map some
    exact hlength.bind hvalue

theorem code_lt (format : Format) : format.code < 256 ^ 2 := by
  cases format <;> decide

theorem reads_sectionBytes {formats : List Format} {values : List (Option Bytes)}
    (hformats : formats.length ≤ mostColumns) (hvalues : values.length ≤ mostColumns)
    (hfits : ∀ value ∈ values, Param.valueSize value ≤ longestValue) :
    Reads Section.reader (sectionBytes formats values)
      ⟨formats.length, formats.map Format.code, values.length, values⟩ := by
  unfold mostColumns at hformats hvalues
  have hcodes : Reads ((Section.unsigned 2).times formats.length)
      (formats.flatMap fun format => bigEndian 2 format.code) (formats.map Format.code) := by
    have hread : Reads ((Section.unsigned 2).times (formats.map Format.code).length)
        ((formats.map Format.code).flatMap (bigEndian 2)) (formats.map Format.code) := by
      apply Reads.times
      intro code hcode
      obtain ⟨format, _, rfl⟩ := List.mem_map.1 hcode
      exact reads_unsigned (code_lt format)
    rwa [List.length_map, List.flatMap_map] at hread
  have hcells : Reads (Section.value.times values.length) (values.flatMap valueBytes) values :=
    Reads.times values fun value hvalue => reads_value (hfits value hvalue)
  have hcolumns : Reads (Section.unsigned 2) (bigEndian 2 formats.length) formats.length :=
    reads_unsigned (by omega)
  have hrepeated : Reads (Section.unsigned 2) (bigEndian 2 values.length) values.length :=
    reads_unsigned (by omega)
  rw [sectionBytes, List.append_assoc]
  refine hcolumns.bind (hcodes.bind (hrepeated.bind ?_))
  exact hcells.map _

/-- A byte string is the section of some parameter. -/
def IsSection (bytes : Bytes) : Prop :=
  ∃ p : Param, p.completeSection = .ok bytes

theorem reads_completeSection {p : Param} {bytes : Bytes} (h : p.completeSection = .ok bytes) :
    ∃ (formats : List Format) (values : List (Option Bytes)),
      p.answers Param.format = formats.map .ok ∧ p.answers Param.sent = values.map .ok ∧
      Reads Section.reader bytes ⟨p.columns, formats.map Format.code, p.columns, values⟩ := by
  obtain ⟨hcount, hfits, formats, values, hformats, hvalues, rfl⟩ :=
    Param.completeSection_eq_ok_iff.1 h
  refine ⟨formats, values, hformats, hvalues, ?_⟩
  have hformatCount : formats.length = p.columns := Param.length_of_answers hformats
  have hvalueCount : values.length = p.columns := Param.length_of_answers hvalues
  have hread := reads_sectionBytes (hformatCount ▸ hcount) (hvalueCount ▸ hcount)
    ((Param.fits_iff hvalues).1 hfits)
  rwa [hformatCount, hvalueCount] at hread

theorem IsSection.reads {bytes : Bytes} (h : IsSection bytes) :
    bytes ≠ [] ∧ ∃ s, Reads Section.reader bytes s := by
  obtain ⟨p, hp⟩ := h
  obtain ⟨formats, values, -, -, hread⟩ := reads_completeSection hp
  refine ⟨?_, _, hread⟩
  rintro rfl
  -- Without a single byte the reader finds no count.
  cases hread []

/-- **Sections delimit themselves.** Whatever follows a section, the reader finds in it the columns,
formats and values of the parameter and stops where it ends. -/
theorem read_completeSection {p : Param} {bytes : Bytes} (h : p.completeSection = .ok bytes) :
    (∃ s : Section, (∀ rest, Section.reader.run (bytes ++ rest) = some (s, rest)) ∧
      s.columns = p.columns ∧ s.formats.length = p.columns ∧
      s.repeated = p.columns ∧ s.values.length = p.columns ∧
      ∀ index < p.columns,
        (∃ format, p.format index = .ok format ∧ s.formats[index]? = some format.code) ∧
        ∃ value, p.sent index = .ok value ∧ s.values[index]? = some value ∧
          (value = none ↔ p.data index = .ok none)) ∧
    (∀ bytes', IsSection bytes' → bytes <+: bytes' → bytes = bytes') ∧
    ∀ rows rows' : List Bytes, (∀ row ∈ rows, IsSection row) → (∀ row ∈ rows', IsSection row) →
      rows.flatten = rows'.flatten → rows = rows' := by
  obtain ⟨formats, values, hformats, hvalues, hread⟩ := reads_completeSection h
  have hformatCount : formats.length = p.columns := Param.length_of_answers hformats
  have hvalueCount : values.length = p.columns := Param.length_of_answers hvalues
  refine ⟨⟨_, hread, rfl, ?_, rfl, hvalueCount, ?_⟩, ?_, ?_⟩
  · rw [List.length_map, hformatCount]
  · intro index hindex
    obtain ⟨format, hget, hformat⟩ := Param.getElem?_of_answers hformats hindex
    obtain ⟨value, hvalue, hsent⟩ := Param.getElem?_of_answers hvalues hindex
    refine ⟨⟨format, hformat, ?_⟩, value, hsent, hvalue, Param.sent_eq_none_iff hsent⟩
    rw [List.getElem?_map, hget]
    rfl
  · intro bytes' hbytes' hbegins
    obtain ⟨-, s', hread'⟩ := hbytes'.reads
    exact hread.eq_of_begins hread' hbegins
  · intro rows rows' hrows hrows' hflatten
    exact Reads.flatten_inj (fun row hrow => (hrows row hrow).reads)
      (fun row hrow => (hrows' row hrow).reads) hflatten

/-- The value of the second column looks like the length field of NULL, and the last column is cut to
its declared length. -/
def lookalike : Param :=
  .tuple [.tuple [.binary [0, 7]], .foreign (UserTypes.rawText (some [255, 255, 255, 255, 0])),
    .tuple [], .present .null, .foreign (UserTypes.rawBinary 0 (some [9]))]

theorem read_completeSection_lookalike :
    ∃ bytes, lookalike.completeSection = .ok bytes ∧
      (∃ s : Section, (∀ rest, Section.reader.run (bytes ++ rest) = some (s, rest)) ∧
        s.columns = 4) ∧
      ∀ bytes', IsSection bytes' → bytes <+: bytes' → bytes = bytes' := by
  have h : lookalike.completeSection = .ok
      [0, 4, 0, 1, 0, 0, 0, 0, 0, 1, 0, 4, 0, 0, 0, 2, 0, 7, 0, 0, 0, 4, 255, 255, 255, 255,
        255, 255, 255, 255, 0, 0, 0, 0] := by rfl
  obtain ⟨⟨s, hread, hcolumns, -⟩, hbegins, -⟩ := read_completeSection h
  exact ⟨_, h, ⟨s, hread, hcolumns⟩, hbegins⟩

end SqlBind
