import Mathlib.Tactic.IntervalCases
import SqlBind.Proofs.Bind.Length
import SqlBind.Proofs.Bind.Outcome
import SqlBind.Proofs.Param.Responds

/-!
# Columns that claim too much

A binary column is cut to its declared length, so a length beyond the end of its data ends the
assembly. The length of a section is found by one pass over the columns and the section is written
by another; both must meet the same column first.

* `Param.Overruns p index data claimed`: column `index` claims more bytes than it has.
* `Param.FirstOverrun p index data claimed`: no column before `index` does so.
* `sent_eq_error_iff`: of a parameter that responds, only such a column is not sent.
* `sectionLength_eq_error_iff`, `fault_sectionRun_eq_some_iff`: how the two passes end.
* `sectionLength_agrees`: the length that is computed and the section that is written agree, faults
  included.
-/

namespace SqlBind
set_option autoImplicit false

/-! ## The first of several -/

theorem findSome?_range_eq_some_iff {β : Type} {f : Nat → Option β} {n : Nat} {b : β} :
    (List.range n).findSome? f = some b ↔ ∃ k < n, f k = some b ∧ ∀ i < k, f i = none := by
  induction n with
  | zero => simp
  | succ n ih =>
    rw [List.range_succ, List.findSome?_append, Option.or_eq_some_iff, ih, List.findSome?_singleton]
    simp only [List.findSome?_eq_none_iff, List.mem_range]
    constructor
    · rintro (⟨k, hk, hb, hbefore⟩ | ⟨hbefore, hb⟩)
      · exact ⟨k, by omega, hb, hbefore⟩
      · exact ⟨n, by omega, hb, hbefore⟩
    · rintro ⟨k, hk, hb, hbefore⟩
      by_cases hlast : k = n
      · subst hlast
        exact .inr ⟨hbefore, hb⟩
      · exact .inl ⟨k, by omega, hb, hbefore⟩

theorem findSome?_congr {α β : Type} {f g : α → Option β} {as : List α}
    (h : ∀ a ∈ as, f a = g a) : as.findSome? f = as.findSome? g := by
  have hmap : as.map f = as.map g := List.map_congr_left h
  have hfound := congrArg (List.findSome? id) hmap
  rwa [List.findSome?_map, List.findSome?_map] at hfound

namespace Param

/-- A column that is not NULL is sent in its binary form and claims more bytes than it has: a
negative claim is one of very many bytes. -/
structure Overruns (p : Param) (index : Nat) (data : Bytes) (claimed : Int32) : Prop where
  data_eq : p.data index = .ok (some data)
  format_eq : p.format index = .ok .binary
  length_eq : p.length index = .ok claimed
  exceeds : data.length < signExtended claimed

/-- The column overruns, and no column before it does. -/
structure FirstOverrun (p : Param) (index : Nat) (data : Bytes) (claimed : Int32) : Prop
    extends Overruns p index data claimed where
  lt_columns : index < p.columns
  earlier : ∀ before < index, ∀ data claimed, ¬p.Overruns before data claimed

/-- What is reported of a column that claims more bytes than it has. -/
def overrunFault (data : Bytes) (claimed : Int32) : Fault :=
  .sliceEnd (signExtended claimed) data.length

variable {p : Param} {index : Nat}

/-! ## One column -/

theorem Overruns.exists_first {data : Bytes} {claimed : Int32} (h : p.Overruns index data claimed)
    (hindex : index < p.columns) : ∃ first data claimed, p.FirstOverrun first data claimed := by
  induction index using Nat.strong_induction_on generalizing data claimed with
  | _ index ih =>
    by_cases hearlier : ∃ before < index, ∃ data claimed, p.Overruns before data claimed
    · obtain ⟨before, hlt, data, claimed, hbefore⟩ := hearlier
      exact ih before hlt hbefore (Nat.lt_trans hlt hindex)
    · refine ⟨index, data, claimed, h, hindex, ?_⟩
      intro before hlt data claimed hbefore
      exact hearlier ⟨before, hlt, data, claimed, hbefore⟩

theorem Overruns.sent_eq {data : Bytes} {claimed : Int32} (h : p.Overruns index data claimed) :
    p.sent index = .error (overrunFault data claimed) := by
  have hstop : ¬claimedEnd claimed ≤ data.length := by
    rw [claimedEnd_eq]
    exact Nat.not_le.2 h.exceeds
  rw [sent_of_overrun h.data_eq h.format_eq h.length_eq hstop, claimedEnd_eq, overrunFault]

theorem sent_eq_error_iff (h : p.Responds) (hindex : index < p.columns) {fault : Fault} :
    p.sent index = .error fault ↔
      ∃ data claimed, p.Overruns index data claimed ∧ fault = overrunFault data claimed := by
  constructor
  · intro hsent
    obtain ⟨value, hdata⟩ := h.data index hindex
    obtain ⟨format, hformat⟩ := h.format index hindex
    cases value with
    | none =>
      rw [sent_of_null hdata] at hsent
      cases hsent
    | some data =>
      cases format with
      | text =>
        rw [sent_of_text hdata hformat] at hsent
        cases hsent
      | binary =>
        obtain ⟨claimed, hlength⟩ := h.length index hindex data hdata hformat
        by_cases hstop : claimedEnd claimed ≤ data.length
        · rw [sent_of_binary hdata hformat hlength hstop] at hsent
          cases hsent
        · have hexceeds : data.length < signExtended claimed := by
            rw [← claimedEnd_eq]
            exact Nat.lt_of_not_le hstop
          have hoverruns : p.Overruns index data claimed := ⟨hdata, hformat, hlength, hexceeds⟩
          rw [hoverruns.sent_eq] at hsent
          cases hsent
          exact ⟨data, claimed, hoverruns, rfl⟩
  · rintro ⟨data, claimed, hoverruns, rfl⟩
    exact hoverruns.sent_eq

def sentFault (p : Param) (index : Nat) : Option Fault :=
  match p.sent index with
  | .error fault => some fault
  | .ok _ => none

theorem sentFault_eq_some_iff {fault : Fault} :
    p.sentFault index = some fault ↔ p.sent index = .error fault := by
  unfold sentFault
  cases p.sent index <;> simp

theorem sentFault_eq_none_iff :
    p.sentFault index = none ↔ ∃ value, p.sent index = .ok value := by
  unfold sentFault
  cases p.sent index <;> simp

theorem sentFault_eq_none_iff_not_overruns (h : p.Responds) (hindex : index < p.columns) :
    p.sentFault index = none ↔ ∀ data claimed, ¬p.Overruns index data claimed := by
  constructor
  · intro hnone data claimed hoverruns
    rw [sentFault_eq_some_iff.2 hoverruns.sent_eq] at hnone
    cases hnone
  · intro hnot
    cases hfault : p.sentFault index with
    | none => rfl
    | some fault =>
      have hsent := sentFault_eq_some_iff.1 hfault
      obtain ⟨data, claimed, hoverruns, -⟩ := (sent_eq_error_iff h hindex).1 hsent
      exact absurd hoverruns (hnot data claimed)

theorem exists_values_of_not_overruns (h : p.Responds)
    (hnone : ∀ index < p.columns, ∀ data claimed, ¬p.Overruns index data claimed) :
    ∃ values : List (Option Bytes), p.answers sent = values.map .ok := by
  apply exists_answers.2
  intro index hindex
  rw [← sentFault_eq_none_iff, sentFault_eq_none_iff_not_overruns h hindex]
  exact hnone index hindex

theorem findSome?_sentFault_eq_some_iff (h : p.Responds) {fault : Fault} :
    (List.range p.columns).findSome? p.sentFault = some fault ↔
      ∃ index data claimed, p.FirstOverrun index data claimed ∧
        fault = overrunFault data claimed := by
  rw [findSome?_range_eq_some_iff]
  constructor
  · rintro ⟨index, hindex, hfault, hbefore⟩
    obtain ⟨data, claimed, hoverruns, rfl⟩ :=
      (sent_eq_error_iff h hindex).1 (sentFault_eq_some_iff.1 hfault)
    refine ⟨index, data, claimed, ⟨hoverruns, hindex, ?_⟩, rfl⟩
    intro before hlt
    exact (sentFault_eq_none_iff_not_overruns h (by omega)).1 (hbefore before hlt)
  · rintro ⟨index, data, claimed, hfirst, rfl⟩
    refine ⟨index, hfirst.lt_columns, sentFault_eq_some_iff.2 hfirst.sent_eq, ?_⟩
    intro before hlt
    have hlt' : before < p.columns := Nat.lt_trans hlt hfirst.lt_columns
    exact (sentFault_eq_none_iff_not_overruns h hlt').2 (hfirst.earlier before hlt)

/-! ## The two passes -/

theorem foldlM_addSize_eq_error_iff {indices : List Nat} {size : Nat} {fault : Fault} :
    (indices.map p.sent).foldlM addSize size = .error fault ↔
      indices.findSome? p.sentFault = some fault := by
  induction indices generalizing size with
  | nil => simp [pure, Except.pure]
  -- The fold stops at the first fault, and until then the size plays no part in it.
  | cons index rest ih =>
    rw [List.map_cons, List.foldlM_cons, List.findSome?_cons, sentFault]
    cases p.sent index with
    | error found => simp [addSize, bind, Except.bind]
    | ok value => exact ih

theorem sectionLength_eq_error_iff (h : p.Responds) {fault : Fault} :
    p.sectionLength = .error fault ↔
      ∃ index data claimed, p.FirstOverrun index data claimed ∧
        fault = overrunFault data claimed := by
  rw [sectionLength_eq, answers, foldlM_addSize_eq_error_iff, findSome?_sentFault_eq_some_iff h]

theorem columnFault_eq_sentFault (hfits : p.Fits) (hindex : index < p.columns) :
    p.columnFault index = p.sentFault index := by
  unfold columnFault sentFault
  cases hsent : p.sent index with
  | error fault => rfl
  | ok value => exact if_pos (hfits index hindex value hsent)

theorem fault_sectionRun_eq_some_iff (h : p.Responds) (hfits : p.Fits) {fault : Fault} :
    p.sectionRun.fault = some fault ↔
      (mostColumns < p.columns ∧ fault = .tooManyColumns) ∨
        (p.columns ≤ mostColumns ∧ ∃ index data claimed, p.FirstOverrun index data claimed ∧
          fault = overrunFault data claimed) := by
  have hcolumns : (List.range p.columns).findSome? p.columnFault =
      (List.range p.columns).findSome? p.sentFault :=
    findSome?_congr fun index hindex => columnFault_eq_sentFault hfits (List.mem_range.1 hindex)
  rw [fault_sectionRun, findSome?_formatFault_eq_none h.format, Option.none_or, hcolumns]
  by_cases hcount : p.columns ≤ mostColumns
  · have hnotMany : ¬mostColumns < p.columns := Nat.not_lt.2 hcount
    rw [if_pos hcount, findSome?_sentFault_eq_some_iff h]
    simp [hcount, hnotMany]
  · have hmany : mostColumns < p.columns := Nat.lt_of_not_le hcount
    rw [if_neg hcount]
    simp [hcount, hmany, eq_comm]

/-! ## What is written -/

theorem length_valueBytes (value : Option Bytes) :
    (valueBytes value).length = 4 + valueSize value := by
  cases value with
  | none => exact length_bigEndian 4 _
  | some value =>
    rw [valueBytes, List.length_append, length_bigEndian]
    rfl

theorem length_flatMap_valueBytes (values : List (Option Bytes)) :
    (values.flatMap valueBytes).length = total (values.map fun value => 4 + valueSize value) := by
  induction values with
  | nil => rfl
  | cons value rest ih =>
    rw [List.flatMap_cons, List.length_append, ih, length_valueBytes, List.map_cons, total_cons]

theorem length_sectionBytes (formats : List Format) (values : List (Option Bytes)) :
    (sectionBytes formats values).length =
      4 + 2 * formats.length + total (values.map fun value => 4 + valueSize value) := by
  rw [sectionBytes, List.length_append, List.length_append, List.length_append, length_bigEndian,
    length_bigEndian, length_formatCodes, length_flatMap_valueBytes]
  omega

theorem sectionLength_of_completeSection {bytes : Bytes} (h : p.completeSection = .ok bytes) :
    p.sectionLength = .ok bytes.length := by
  obtain ⟨-, -, formats, values, hformats, hvalues, rfl⟩ := completeSection_eq_ok_iff.1 h
  rw [sectionLength_eq_ok hvalues, length_sectionBytes, length_of_answers hformats]

end Param

/-- **The computed length and the writer agree.** The length of a section is known unless some
column claims more bytes than it has, and then the first such column is reported. The writing ends
early for the same column, unless the columns are too many to be counted, which is found before
anything else. A section that is completed is as long as computed; and the length is computed also
where the columns are too many. -/
theorem sectionLength_agrees {p : Param} (h : p.Responds) (hfits : p.Fits) :
    ((∃ fault, p.sectionLength = .error fault) ↔
      ∃ index < p.columns, ∃ data claimed, p.Overruns index data claimed) ∧
    (∀ fault, p.sectionLength = .error fault ↔
      ∃ index data claimed, p.FirstOverrun index data claimed ∧
        fault = .sliceEnd (signExtended claimed) data.length) ∧
    (∀ fault, p.sectionRun.fault = some fault ↔
      (mostColumns < p.columns ∧ fault = .tooManyColumns) ∨
        (p.columns ≤ mostColumns ∧ p.sectionLength = .error fault)) ∧
    (p.sectionRun.fault = none → p.sectionLength = .ok p.sectionRun.bytes.length) ∧
    ((∀ index < p.columns, ∀ data claimed, ¬p.Overruns index data claimed) →
      ∃ values : List (Option Bytes), p.answers Param.sent = values.map .ok ∧ p.sectionLength =
        .ok (4 + 2 * p.columns + total (values.map fun value => 4 + Param.valueSize value))) := by
  refine ⟨⟨?_, ?_⟩, fun fault => Param.sectionLength_eq_error_iff h, ?_, ?_, ?_⟩
  · rintro ⟨fault, hfault⟩
    obtain ⟨index, data, claimed, hfirst, -⟩ := (Param.sectionLength_eq_error_iff h).1 hfault
    exact ⟨index, hfirst.lt_columns, data, claimed, hfirst.toOverruns⟩
  · rintro ⟨index, hindex, data, claimed, hoverruns⟩
    obtain ⟨first, data, claimed, hfirst⟩ := hoverruns.exists_first hindex
    exact ⟨_, (Param.sectionLength_eq_error_iff h).2 ⟨first, data, claimed, hfirst, rfl⟩⟩
  · intro fault
    rw [Param.fault_sectionRun_eq_some_iff h hfits, Param.sectionLength_eq_error_iff h]
  · intro hfault
    exact Param.sectionLength_of_completeSection
      (Param.completeSection_eq_ok_iff_sectionRun.2 ⟨hfault, rfl⟩)
  · intro hnone
    obtain ⟨values, hvalues⟩ := Param.exists_values_of_not_overruns h hnone
    exact ⟨values, hvalues, Param.sectionLength_eq_ok hvalues⟩

/-- A claim of `-1` bytes behind a NULL, a text without a nul, `-1` claimed of no bytes, and four
bytes claimed of two. -/
def overclaiming : Param :=
  .tuple [.foreign (UserTypes.rawBinary (-1) none), .foreign (UserTypes.rawText (some [97])),
    .tuple [.present (.foreign (UserTypes.rawBinary (-1) (some []))),
      .foreign (UserTypes.rawBinary 4 (some [1, 2]))]]

theorem responds_overclaiming : overclaiming.Responds := by
  apply Param.responds_of_outside
  · simp [overclaiming, Param.shape, Param.shapes, Shape.WellFormed, Shape.AllWellFormed,
      Shape.columns, UserTypes.rawBinary, UserTypes.rawBinaryKind]
  · simp [overclaiming, Param.outside, Param.outsideAll, Param.responds_rawBinary,
      Param.responds_rawText]
  · simp [overclaiming, Param.shape, Param.shapes, Shape.kinds, Shape.kindsAll,
      UserTypes.rawBinary, UserTypes.rawBinaryKind, UserTypes.rawText, UserTypes.rawTextKind]

/-- The first column that claims too much claims a negative length, of no data at all. -/
theorem sectionLength_agrees_overclaiming :
    overclaiming.Responds ∧ overclaiming.Fits ∧ overclaiming.FirstOverrun 2 [] (-1) ∧
      overclaiming.sectionLength = .error (.sliceEnd 18446744073709551615 0) ∧
      overclaiming.sectionRun.fault = some (.sliceEnd 18446744073709551615 0) := by
  have hfits : overclaiming.Fits := by
    intro index hindex value hsent
    have hlt : index < 4 := hindex
    interval_cases index <;> cases hsent <;> decide
  have hnegative : ([] : Bytes).length < signExtended (-1) :=
    (lt_signExtended_iff (by decide)).2 (.inl (by decide))
  have hfirst : overclaiming.FirstOverrun 2 [] (-1) := by
    refine ⟨⟨rfl, rfl, rfl, hnegative⟩, by decide, ?_⟩
    intro before hbefore data claimed hoverruns
    interval_cases before
    · cases hoverruns.data_eq
    · cases hoverruns.format_eq
  obtain ⟨-, hlength, hrun, -⟩ := sectionLength_agrees responds_overclaiming hfits
  have hfault := (hlength (.sliceEnd 18446744073709551615 0)).2 ⟨2, [], -1, hfirst, by decide⟩
  exact ⟨responds_overclaiming, hfits, hfirst, hfault, (hrun _).2 (.inr ⟨by decide, hfault⟩)⟩

end SqlBind
