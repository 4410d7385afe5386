import Mathlib.Data.List.TakeWhile
import SqlBind.Bind.Section
import SqlBind.Proofs.Bind.Sent
import SqlBind.Proofs.Param.Columns

/-!
# How the writing of a section ends

* `Param.formatFault`, `Param.columnFault`: the fault that one column brings, if it brings one;
  `fault_sectionRun` finds the fault of the whole run from them.
* `Param.Fits`: no value is longer than the protocol can say; `fault_sectionRun_of_answered`: where
  every column is answered for, that and the number of columns are all that can end the writing.
* `sectionBytes formats values`: a section as a list of formats and a list of values;
  `sectionStart formats values`: the same as far as the values go;
  `completeSection_eq_ok_iff`: the writing is completed just when every column has a format and a
  value that fits, and then these are what is written.
-/

namespace SqlBind
set_option autoImplicit false

theorem Run.of_complete {effects : List Effect} (h : (Run.of effects).fault = none) :
    Run.of effects = ⟨effects, none⟩ := by
  have hall : ∀ e ∈ effects, e.fault?.isNone = true := by
    intro e he
    exact Option.isNone_iff_eq_none.2 (List.findSome?_eq_none_iff.1 h e he)
  exact congr (congrArg Run.mk (List.takeWhile_eq_self_iff.2 hall)) h

theorem Run.bytes_of_complete {effects : List Effect} (h : (Run.of effects).fault = none) :
    (Run.of effects).bytes = effects.flatMap Effect.bytes := by
  rw [Run.of_complete h, Run.bytes]

theorem findSome?_flatMap {α β γ : Type} (f : α → List β) (g : β → Option γ) (as : List α) :
    (as.flatMap f).findSome? g = as.findSome? fun a => (f a).findSome? g := by
  induction as with
  | nil => rfl
  | cons a as ih =>
    rw [List.flatMap_cons, List.findSome?_append, ih, List.findSome?_cons]
    cases (f a).findSome? g <;> rfl

theorem flatMap_eq_of_map_eq {α β γ δ : Type} {f : α → β} {c : γ → β} {g : α → List δ}
    {k : γ → List δ} {as : List α} {cs : List γ} (h : as.map f = cs.map c)
    (hstep : ∀ a, ∀ x ∈ cs, f a = c x → g a = k x) : as.flatMap g = cs.flatMap k := by
  rw [List.flatMap_def, List.flatMap_def, Param.map_eq_of_map_eq h hstep]

namespace Param

/-! ## Faults -/

def formatFault (p : Param) (index : Nat) : Option Fault :=
  match p.format index with
  | .ok _ => none
  | .error fault => some fault

/-- The fault that the value of a column brings. -/
def columnFault (p : Param) (index : Nat) : Option Fault :=
  match p.sent index with
  | .error fault => some fault
  | .ok value => if valueSize value ≤ longestValue then none else some .valueTooLarge

/-- No value is longer than the protocol can say. -/
def Fits (p : Param) : Prop :=
  ∀ index < p.columns, ∀ value, p.sent index = .ok value → valueSize value ≤ longestValue

theorem fits_iff {p : Param} {values : List (Option Bytes)}
    (h : p.answers sent = values.map .ok) :
    p.Fits ↔ ∀ value ∈ values, valueSize value ≤ longestValue := by
  constructor
  · intro hfits value hvalue
    obtain ⟨index, hindex, hsent⟩ := (mem_of_answers h).1 hvalue
    exact hfits index hindex value hsent
  · intro hsizes index hindex value hsent
    exact hsizes value ((mem_of_answers h).2 ⟨index, hindex, hsent⟩)

theorem fits_of_data {p : Param}
    (h : ∀ index < p.columns, ∀ data, p.data index = .ok (some data) →
      data.length ≤ longestValue) : p.Fits := by
  intro index hindex value hsent
  cases value with
  | none => exact Nat.zero_le _
  | some value =>
    obtain ⟨data, hdata, hprefix⟩ := prefix_of_sent hsent
    exact Nat.le_trans hprefix.length_le (h index hindex data hdata)

theorem fits_of_columns_eq_one {p : Param} (hcolumns : p.columns = 1)
    (h : ∀ value, p.sent 0 = .ok value → valueSize value ≤ longestValue) : p.Fits := by
  intro index hindex value hsent
  obtain rfl : index = 0 := by omega
  exact h value hsent

theorem fits_tuple {ps : List Param} (h : ∀ p ∈ ps, p.Fits) : (tuple ps).Fits := by
  intro index hindex value hsent
  have hanswer : Except.ok value ∈ (tuple ps).answers sent :=
    mem_answers.2 ⟨index, hindex, hsent⟩
  rw [answers_tuple childByChild_sent, List.mem_flatMap] at hanswer
  obtain ⟨p, hp, hmem⟩ := hanswer
  obtain ⟨inner, hinner, heq⟩ := mem_answers.1 hmem
  exact h p hp inner hinner value heq

theorem fault_formatEffect (p : Param) (index : Nat) :
    (p.formatEffect index).fault? = p.formatFault index := by
  unfold formatEffect formatFault
  cases p.format index <;> rfl

theorem fault_columnEffects (p : Param) (index : Nat) :
    (p.columnEffects index).findSome? Effect.fault? = p.columnFault index := by
  unfold columnEffects columnFault
  rcases p.sent index with fault | _ | value
  · rfl
  · rfl
  · change List.findSome? _ (if value.length ≤ longestValue then _ else _) =
      if value.length ≤ longestValue then _ else _
    split <;> rfl

theorem fault_sectionRun (p : Param) :
    p.sectionRun.fault =
      if p.columns ≤ mostColumns then
        ((List.range p.columns).findSome? p.formatFault).or
          ((List.range p.columns).findSome? p.columnFault)
      else some .tooManyColumns := by
  have hformats : ((List.range p.columns).map p.formatEffect).findSome? Effect.fault? =
      (List.range p.columns).findSome? p.formatFault := by
    rw [List.findSome?_map]
    exact congrArg (List.findSome? · _) (funext p.fault_formatEffect)
  have hcolumns : ((List.range p.columns).flatMap p.columnEffects).findSome? Effect.fault? =
      (List.range p.columns).findSome? p.columnFault := by
    rw [findSome?_flatMap]
    exact congrArg (List.findSome? · _) (funext p.fault_columnEffects)
  rw [sectionRun, Run.of, sectionEffects]
  by_cases h : p.columns ≤ mostColumns
  · rw [if_pos h, if_pos h]
    simp only [List.cons_append, List.findSome?_cons, List.findSome?_append, Effect.fault?, hformats,
      hcolumns]
  · rw [if_neg h, if_neg h]
    rfl

theorem formatFault_eq_none_iff {p : Param} {index : Nat} :
    p.formatFault index = none ↔ ∃ format, p.format index = .ok format := by
  unfold formatFault
  cases p.format index <;> simp

theorem columnFault_eq_none_iff {p : Param} {index : Nat} :
    p.columnFault index = none ↔
      ∃ value, p.sent index = .ok value ∧ valueSize value ≤ longestValue := by
  unfold columnFault
  rcases p.sent index with fault | value
  · simp
  · by_cases h : valueSize value ≤ longestValue <;> simp [h]

theorem fault_sectionRun_eq_none_iff {p : Param} :
    p.sectionRun.fault = none ↔
      p.columns ≤ mostColumns ∧ (∀ index < p.columns, ∃ format, p.format index = .ok format) ∧
        (∀ index < p.columns, ∃ value, p.sent index = .ok value) ∧ p.Fits := by
  rw [fault_sectionRun]
  by_cases h : p.columns ≤ mostColumns
  · simp only [if_pos h, Option.or_eq_none_iff, List.findSome?_eq_none_iff, List.mem_range,
      formatFault_eq_none_iff, columnFault_eq_none_iff]
    constructor
    · rintro ⟨hformats, hvalues⟩
      refine ⟨h, hformats, ?_, ?_⟩
      · intro index hindex
        obtain ⟨value, hvalue, _⟩ := hvalues index hindex
        exact ⟨value, hvalue⟩
      · intro index hindex value hvalue
        obtain ⟨value', hvalue', hfits⟩ := hvalues index hindex
        rw [hvalue] at hvalue'
        cases hvalue'
        exact hfits
    · rintro ⟨_, hformats, hvalues, hfits⟩
      refine ⟨hformats, fun index hindex => ?_⟩
      obtain ⟨value, hvalue⟩ := hvalues index hindex
      exact ⟨value, hvalue, hfits index hindex value hvalue⟩
  · simp [h]

theorem findSome?_formatFault_eq_none {p : Param}
    (hformats : ∀ index < p.columns, ∃ format, p.format index = .ok format) :
    (List.range p.columns).findSome? p.formatFault = none := by
  rw [List.findSome?_eq_none_iff]
  intro index hindex
  exact formatFault_eq_none_iff.2 (hformats index (List.mem_range.1 hindex))

theorem findSome?_columnFault_eq_some_iff {p : Param} {fault : Fault}
    (hvalues : ∀ index < p.columns, ∃ value, p.sent index = .ok value) :
    (List.range p.columns).findSome? p.columnFault = some fault ↔
      ¬p.Fits ∧ fault = .valueTooLarge := by
  cases hfound : (List.range p.columns).findSome? p.columnFault with
  | none =>
    have hfits : p.Fits := by
      intro index hindex value hsent
      have hnone := List.findSome?_eq_none_iff.1 hfound index (List.mem_range.2 hindex)
      obtain ⟨value', hsent', hsize⟩ := columnFault_eq_none_iff.1 hnone
      rw [hsent] at hsent'
      cases hsent'
      exact hsize
    simp [hfits]
  | some found =>
    obtain ⟨index, hindex, hfault⟩ := List.exists_of_findSome?_eq_some hfound
    obtain ⟨value, hsent⟩ := hvalues index (List.mem_range.1 hindex)
    rw [columnFault, hsent] at hfault
    by_cases hsize : valueSize value ≤ longestValue
    · simp [hsize] at hfault
    · have hnotFits : ¬p.Fits := fun hfits =>
        hsize (hfits index (List.mem_range.1 hindex) value hsent)
      have htooLarge : Fault.valueTooLarge = found := by simpa [hsize] using hfault
      simp [hnotFits, ← htooLarge, eq_comm]

/-- Where every column has a format and a value, only the limits of the protocol end the writing. -/
theorem fault_sectionRun_of_answered {p : Param}
    (hformats : ∀ index < p.columns, ∃ format, p.format index = .ok format)
    (hvalues : ∀ index < p.columns, ∃ value, p.sent index = .ok value) (fault : Fault) :
    p.sectionRun.fault = some fault ↔
      (mostColumns < p.columns ∧ fault = .tooManyColumns) ∨
        (p.columns ≤ mostColumns ∧ ¬p.Fits ∧ fault = .valueTooLarge) := by
  rw [fault_sectionRun, findSome?_formatFault_eq_none hformats, Option.none_or]
  by_cases hcount : p.columns ≤ mostColumns
  · have hnotMany : ¬mostColumns < p.columns := Nat.not_lt.2 hcount
    rw [if_pos hcount, findSome?_columnFault_eq_some_iff hvalues]
    simp [hcount, hnotMany]
  · have hmany : mostColumns < p.columns := Nat.lt_of_not_le hcount
    rw [if_neg hcount]
    simp [hcount, hmany, eq_comm]

end Param

/-! ## Bytes -/

/-- The length field and the value of a column. -/
def valueBytes : Option Bytes → Bytes
  | none => nullLength
  | some value => bigEndian 4 value.length ++ value

/-- A section that announces these formats and holds these values. -/
def sectionBytes (formats : List Format) (values : List (Option Bytes)) : Bytes :=
  bigEndian 2 formats.length ++ formats.flatMap (fun format => bigEndian 2 format.code) ++
    (bigEndian 2 values.length ++ values.flatMap valueBytes)

/-- The beginning of a section: all formats that it announces, and the first of its values. -/
def sectionStart (formats : List Format) (values : List (Option Bytes)) : Bytes :=
  bigEndian 2 formats.length ++ formats.flatMap (fun format => bigEndian 2 format.code) ++
    (bigEndian 2 formats.length ++ values.flatMap valueBytes)

theorem length_formatCodes (formats : List Format) :
    (formats.flatMap fun format => bigEndian 2 format.code).length = 2 * formats.length := by
  induction formats with
  | nil => rfl
  | cons format rest ih =>
    rw [List.flatMap_cons, List.length_append, ih, length_bigEndian, List.length_cons]
    omega

theorem sectionBytes_eq_sectionStart {formats : List Format} {values : List (Option Bytes)}
    (h : values.length = formats.length) :
    sectionBytes formats values = sectionStart formats values := by
  rw [sectionBytes, sectionStart, h]

namespace Param

theorem bytes_formatEffect {p : Param} {index : Nat} {format : Format}
    (h : p.format index = .ok format) : (p.formatEffect index).bytes = bigEndian 2 format.code := by
  rw [formatEffect, h]
  rfl

theorem bytes_columnEffects {p : Param} {index : Nat} {value : Option Bytes}
    (h : p.sent index = .ok value) (hfits : valueSize value ≤ longestValue) :
    (p.columnEffects index).flatMap Effect.bytes = valueBytes value := by
  rw [columnEffects, h]
  cases value with
  | none => simp [valueBytes, Effect.bytes]
  | some value =>
    have hlength : value.length ≤ longestValue := hfits
    simp [hlength, valueBytes, Effect.bytes]

/-- The effects that write a section as far as the first `count` values. -/
def startEffects (p : Param) (count : Nat) : List Effect :=
  .write (bigEndian 2 p.columns) :: (List.range p.columns).map p.formatEffect ++
    .write (bigEndian 2 p.columns) :: (List.range count).flatMap p.columnEffects

theorem bytes_startEffects {p : Param} {count : Nat} {formats : List Format}
    {values : List (Option Bytes)} (hformats : p.answers format = formats.map .ok)
    (hvalues : (List.range count).map p.sent = values.map .ok)
    (hfits : ∀ value ∈ values, valueSize value ≤ longestValue) :
    (p.startEffects count).flatMap Effect.bytes = sectionStart formats values := by
  have hcodes : (List.range p.columns).flatMap (fun index => (p.formatEffect index).bytes) =
      formats.flatMap fun format => bigEndian 2 format.code :=
    flatMap_eq_of_map_eq hformats fun _ _ _ h => bytes_formatEffect h
  have hcolumns : (List.range count).flatMap
      (fun index => (p.columnEffects index).flatMap Effect.bytes) = values.flatMap valueBytes :=
    flatMap_eq_of_map_eq hvalues fun _ value hvalue h => bytes_columnEffects h (hfits value hvalue)
  rw [startEffects, sectionStart, length_of_answers hformats, ← hcodes, ← hcolumns]
  simp [List.flatMap_append, List.flatMap_map, List.flatMap_assoc, Effect.bytes]

theorem bytes_sectionEffects {p : Param} {formats : List Format} {values : List (Option Bytes)}
    (hcount : p.columns ≤ mostColumns) (hformats : p.answers format = formats.map .ok)
    (hvalues : p.answers sent = values.map .ok)
    (hfits : p.Fits) :
    p.sectionEffects.flatMap Effect.bytes = sectionBytes formats values := by
  have hlength : values.length = formats.length :=
    (length_of_answers hvalues).trans (length_of_answers hformats).symm
  rw [sectionEffects, if_pos hcount, sectionBytes_eq_sectionStart hlength]
  exact bytes_startEffects hformats hvalues ((fits_iff hvalues).1 hfits)

theorem completeSection_eq_ok_iff_sectionRun {p : Param} {bytes : Bytes} :
    p.completeSection = .ok bytes ↔ p.sectionRun.fault = none ∧ p.sectionRun.bytes = bytes := by
  unfold completeSection
  cases p.sectionRun.fault <;> simp

theorem completeSection_eq_ok_iff {p : Param} {bytes : Bytes} :
    p.completeSection = .ok bytes ↔
      p.columns ≤ mostColumns ∧ p.Fits ∧ ∃ formats values, p.answers format = formats.map .ok ∧
        p.answers sent = values.map .ok ∧ bytes = sectionBytes formats values := by
  rw [completeSection_eq_ok_iff_sectionRun]
  constructor
  · rintro ⟨hfault, rfl⟩
    obtain ⟨hcount, hformats, hvalues, hfits⟩ := fault_sectionRun_eq_none_iff.1 hfault
    obtain ⟨formats, hformats⟩ := exists_answers.2 hformats
    obtain ⟨values, hvalues⟩ := exists_answers.2 hvalues
    refine ⟨hcount, hfits, formats, values, hformats, hvalues, ?_⟩
    exact (Run.bytes_of_complete hfault).trans (bytes_sectionEffects hcount hformats hvalues hfits)
  · rintro ⟨hcount, hfits, formats, values, hformats, hvalues, rfl⟩
    have hfault : p.sectionRun.fault = none := fault_sectionRun_eq_none_iff.2
      ⟨hcount, exists_answers.1 ⟨formats, hformats⟩, exists_answers.1 ⟨values, hvalues⟩, hfits⟩
    exact ⟨hfault, (Run.bytes_of_complete hfault).trans
      (bytes_sectionEffects hcount hformats hvalues hfits)⟩

theorem exists_completeSection_iff {p : Param}
    (hformats : ∀ index < p.columns, ∃ format, p.format index = .ok format)
    (hvalues : ∀ index < p.columns, ∃ value, p.sent index = .ok value) :
    (∃ bytes, p.completeSection = .ok bytes) ↔ p.columns ≤ mostColumns ∧ p.Fits := by
  constructor
  · rintro ⟨bytes, hbytes⟩
    obtain ⟨hcount, hfits, -⟩ := completeSection_eq_ok_iff.1 hbytes
    exact ⟨hcount, hfits⟩
  · rintro ⟨hcount, hfits⟩
    obtain ⟨formats, hformats⟩ := exists_answers.2 hformats
    obtain ⟨values, hvalues⟩ := exists_answers.2 hvalues
    exact ⟨_, completeSection_eq_ok_iff.2
      ⟨hcount, hfits, formats, values, hformats, hvalues, rfl⟩⟩

end Param

end SqlBind
