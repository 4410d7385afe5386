import Mathlib.Data.List.Induction
import SqlBind.Bind.Trace
import SqlBind.Proofs.Bind.Appended
import SqlBind.Proofs.Bind.Collected
import SqlBind.Proofs.Bind.Framing

/-!
# What the trace tells

Log and buffer are two effects of one pass over the columns, which a fault may end between any two
steps. A value is reported after it is taken and before it is written, so that the events and the
values that have been written answer to each other, column by column, wherever the pass ends.

* `Event.ofValue column value`: what is to be reported of a value; `Event.announced`: the bytes that
  this promises.
* `Param.Ends`: the ways in which the writing can end; `Param.Reaches`: what has been written and
  reported by then; `exists_reaches`: every writing ends like that.
* `arraysRun_of_answers`: what is reported when the arrays are collected.
* `trace_tells`: the traces of both assemblies.
-/

namespace SqlBind
set_option autoImplicit false

namespace Event

def ofValue (column : Nat) : Option Bytes → Event
  | none => .null column
  | some value => .measured column value.length

/-- The bytes of a column that an event promises: a length field, and the value behind it. -/
def announced : Event → Nat
  | .collected _ _ _ => 0
  | .measured _ length => 4 + length
  | .null _ => 4

theorem announced_ofValue (column : Nat) (value : Option Bytes) :
    (ofValue column value).announced = 4 + Param.valueSize value := by
  cases value <;> rfl

theorem announced_mapIdx_ofValue (values : List (Option Bytes)) :
    total ((values.mapIdx ofValue).map announced) = (values.flatMap valueBytes).length := by
  have hsizes : (values.mapIdx ofValue).map announced =
      values.map fun value => 4 + Param.valueSize value := by
    apply List.ext_getElem
    · simp
    · intro i hi hi'
      simp [announced_ofValue]
  rw [hsizes, Param.length_flatMap_valueBytes]

end Event

/-! ## Events of a pass over the columns -/

theorem flatMap_range_eq_mapIdx {α γ : Type} {values : List α} {f : Nat → List γ} {g : Nat → α → γ}
    (h : ∀ index value, values[index]? = some value → f index = [g index value]) :
    (List.range values.length).flatMap f = values.mapIdx g := by
  induction values using List.reverseRecOn with
  | nil => rfl
  | append_singleton earlier value ih =>
    have hearlier : (List.range earlier.length).flatMap f = earlier.mapIdx g := by
      apply ih
      intro index value hvalue
      have hlt : index < earlier.length := (List.getElem?_eq_some_iff.1 hvalue).1
      exact h index value ((List.getElem?_append_left hlt).trans hvalue)
    have hlast : f earlier.length = [g earlier.length value] := h _ _ (by simp)
    rw [List.length_append, List.length_singleton, List.range_succ, List.flatMap_append, hearlier,
      List.flatMap_singleton, hlast, List.mapIdx_concat]

theorem map_mapIdx {α β γ : Type} (f : Nat → α → β) (g : β → γ) (as : List α) :
    (as.mapIdx f).map g = as.mapIdx fun index a => g (f index a) := by
  rw [List.mapIdx_eq_zipIdx_map, List.mapIdx_eq_zipIdx_map, List.map_map]
  rfl

theorem Effect.filterMap_event_report (events : List Event) :
    (events.map report).filterMap event? = events := by
  rw [List.filterMap_map]
  exact List.filterMap_some

theorem Run.events_of_complete {effects : List Effect} (h : (Run.of effects).fault = none) :
    (Run.of effects).events = effects.filterMap Effect.event? := by
  rw [Run.of_complete h, Run.events]

namespace Param

variable {p : Param}

theorem events_columnEffects {index : Nat} {value : Option Bytes} (h : p.sent index = .ok value) :
    (p.columnEffects index).filterMap Effect.event? = [.ofValue index value] := by
  rw [columnEffects, h]
  cases value with
  | none => rfl
  | some value =>
    show List.filterMap _ (if value.length ≤ longestValue then _ else _) = _
    split <;> rfl

theorem event_formatEffect (p : Param) (index : Nat) : (p.formatEffect index).event? = none := by
  unfold formatEffect
  cases p.format index <;> rfl

theorem events_startEffects {values : List (Option Bytes)}
    (hvalues : (List.range values.length).map p.sent = values.map .ok) :
    (p.startEffects values.length).filterMap Effect.event? = values.mapIdx Event.ofValue := by
  have hformats : ((List.range p.columns).map p.formatEffect).filterMap Effect.event? = [] := by
    rw [List.filterMap_eq_nil_iff]
    intro effect heffect
    obtain ⟨index, -, rfl⟩ := List.mem_map.1 heffect
    exact p.event_formatEffect index
  have hcolumns : ((List.range values.length).flatMap p.columnEffects).filterMap Effect.event? =
      values.mapIdx Event.ofValue := by
    rw [List.filterMap_flatMap]
    apply flatMap_range_eq_mapIdx
    intro index value hvalue
    exact events_columnEffects (eq_of_getElem?_of_map_range hvalues hvalue)
  simp only [startEffects, List.cons_append, List.filterMap_cons, List.filterMap_append,
    Effect.event?, hformats, hcolumns, List.nil_append]

/-! ## How far the writing comes -/

/-- The ways in which the writing can end once these values are written: the events that no value
follows, and the fault. -/
inductive Ends (p : Param) : List (Option Bytes) → List Event → Option Fault → Prop where
  | whole {values : List (Option Bytes)} : p.columns ≤ mostColumns → values.length = p.columns →
    Ends p values [] none
  /-- Columns that cannot be counted are not begun. -/
  | uncounted : mostColumns < p.columns → Ends p [] [] (some .tooManyColumns)
  /-- A column that claims too much has nothing to report. -/
  | cut {values : List (Option Bytes)} {data : Bytes} {claimed : Int32} :
    p.columns ≤ mostColumns → p.FirstOverrun values.length data claimed →
    Ends p values [] (some (.sliceEnd (signExtended claimed) data.length))
  /-- A value that is longer than its length field can say is reported, but not written. -/
  | unsaid {values : List (Option Bytes)} {value : Bytes} : p.columns ≤ mostColumns →
    values.length < p.columns → p.sent values.length = .ok (some value) →
    longestValue < value.length →
    Ends p values [.measured values.length value.length] (some .valueTooLarge)

theorem Ends.beyond_eq_nil {values : List (Option Bytes)} {beyond : List Event}
    {fault : Option Fault} (h : p.Ends values beyond fault) (hfault : fault ≠ some .valueTooLarge) :
    beyond = [] := by
  cases h with
  | whole _ _ => rfl
  | uncounted _ => rfl
  | cut _ _ => rfl
  | unsaid _ _ _ _ => exact absurd rfl hfault

theorem FirstOverrun.of_columnFault {index : Nat} {fault : Fault} (h : p.Responds)
    (hindex : index < p.columns) (hearlier : ∀ earlier < index, p.columnFault earlier = none)
    (hsent : p.sent index = .error fault) :
    ∃ data claimed, p.FirstOverrun index data claimed ∧ fault = overrunFault data claimed := by
  obtain ⟨data, claimed, hoverruns, hfault⟩ := (sent_eq_error_iff h hindex).1 hsent
  refine ⟨data, claimed, ⟨hoverruns, hindex, ?_⟩, hfault⟩
  intro earlier hlt data claimed hearly
  obtain ⟨value, hvalue, -⟩ := columnFault_eq_none_iff.1 (hearlier earlier hlt)
  rw [hearly.sent_eq] at hvalue
  cases hvalue

theorem long_of_columnFault {index : Nat} {value : Option Bytes} {fault : Fault}
    (hsent : p.sent index = .ok value) (h : p.columnFault index = some fault) :
    ∃ bytes, value = some bytes ∧ longestValue < bytes.length := by
  simp only [columnFault, hsent] at h
  cases value with
  | none => cases h
  | some bytes =>
    refine ⟨bytes, rfl, Nat.lt_of_not_le fun hfits => ?_⟩
    have hnone : (none : Option Fault) = some fault := (if_pos hfits).symm.trans h
    cases hnone

/-- What has been done when the writing ends: these values are written, each of them is reported,
and beyond them only these events are. -/
structure Reaches (p : Param) (values : List (Option Bytes)) (beyond : List Event) : Prop where
  sent : (List.range values.length).map p.sent = values.map .ok
  fits : ∀ value ∈ values, valueSize value ≤ longestValue
  ends : p.Ends values beyond p.sectionRun.fault
  events : p.sectionRun.events = values.mapIdx Event.ofValue ++ beyond
  written : p.sectionRun.bytes.drop (4 + 2 * p.columns) = values.flatMap valueBytes

theorem drop_sectionStart (formats : List Format) (values : List (Option Bytes)) :
    (sectionStart formats values).drop (4 + 2 * formats.length) = values.flatMap valueBytes := by
  have hheader : (bigEndian 2 formats.length ++
      formats.flatMap (fun format => bigEndian 2 format.code) ++
        bigEndian 2 formats.length).length = 4 + 2 * formats.length := by
    rw [List.length_append, List.length_append, length_bigEndian, length_formatCodes]
    omega
  rw [sectionStart, ← List.append_assoc, ← hheader, List.drop_left]

theorem reaches_of_sectionRun {values : List (Option Bytes)} {beyond : List Event}
    {fault : Option Fault} (h : p.Responds)
    (hsent : (List.range values.length).map p.sent = values.map .ok)
    (hfits : ∀ value ∈ values, valueSize value ≤ longestValue) (hends : p.Ends values beyond fault)
    (hrun : p.sectionRun = ⟨p.startEffects values.length ++ beyond.map .report, fault⟩) :
    p.Reaches values beyond := by
  obtain ⟨formats, hformats⟩ := exists_answers.2 h.format
  have hstart : (p.startEffects values.length).flatMap Effect.bytes = sectionStart formats values :=
    bytes_startEffects hformats hsent hfits
  have hbeyond : (beyond.map Effect.report).flatMap Effect.bytes = [] := by
    simp [List.flatMap_map, Effect.bytes]
  refine ⟨hsent, hfits, ?_, ?_, ?_⟩
  · rw [hrun]
    exact hends
  · rw [hrun, Run.events, List.filterMap_append, events_startEffects hsent,
      Effect.filterMap_event_report]
  · rw [hrun, Run.bytes, List.flatMap_append, hstart, hbeyond, List.append_nil,
      ← length_of_answers hformats, drop_sectionStart]

theorem exists_reaches_whole (h : p.Responds) (hcount : p.columns ≤ mostColumns)
    (hnone : ∀ index < p.columns, p.columnFault index = none) :
    ∃ values beyond, p.Reaches values beyond := by
  obtain ⟨values, hlength, hsent, hfits⟩ := exists_values_of_columnFault hnone
  have heffects : p.sectionEffects = p.startEffects values.length := by
    rw [sectionEffects, if_pos hcount, startEffects, hlength]
  have hfault : (Run.of (p.startEffects values.length)).fault = none := by
    rw [Run.of, List.findSome?_eq_none_iff, hlength]
    exact fault_startEffects (fun index hindex => formatFault_eq_none_iff.2 (h.format index hindex))
      hnone
  have hrun : p.sectionRun = ⟨p.startEffects values.length ++ [], none⟩ := by
    rw [sectionRun, heffects, List.append_nil, Run.of_complete hfault]
  exact ⟨values, [], reaches_of_sectionRun h (hlength ▸ hsent) hfits (.whole hcount hlength) hrun⟩

theorem exists_reaches_of_columnFault {index : Nat} {fault : Fault} (h : p.Responds)
    (hcount : p.columns ≤ mostColumns) (hindex : index < p.columns)
    (hearlier : ∀ earlier < index, p.columnFault earlier = none)
    (hfault : p.columnFault index = some fault) : ∃ values beyond, p.Reaches values beyond := by
  obtain ⟨values, rfl, hsent, hfits⟩ := exists_values_of_columnFault hearlier
  rcases hcolumn : p.sent values.length with fault | value
  · obtain ⟨data, claimed, hfirst, rfl⟩ := FirstOverrun.of_columnFault h hindex hearlier hcolumn
    have heffects : p.columnEffects values.length =
        [] ++ [.stop (overrunFault data claimed)] := by
      rw [columnEffects, hcolumn]
      rfl
    have hrun := sectionRun_of_stop hcount h.format hindex hearlier (by simp) heffects
    exact ⟨values, [], reaches_of_sectionRun h hsent hfits (.cut hcount hfirst) hrun⟩
  · obtain ⟨value, rfl, hlong⟩ := long_of_columnFault hcolumn hfault
    have hrun := sectionRun_of_unsaid hcount h.format hindex hearlier hcolumn hlong
    exact ⟨values, [.measured values.length value.length],
      reaches_of_sectionRun h hsent hfits (.unsaid hcount hindex hcolumn hlong) hrun⟩

theorem exists_reaches (h : p.Responds) : ∃ values beyond, p.Reaches values beyond := by
  -- The first column that has a fault decides, if the columns can be counted.
  by_cases hcount : p.columns ≤ mostColumns
  · cases hfound : (List.range p.columns).findSome? p.columnFault with
    | none =>
      refine exists_reaches_whole h hcount fun index hindex => ?_
      exact List.findSome?_eq_none_iff.1 hfound index (List.mem_range.2 hindex)
    | some fault =>
      obtain ⟨index, hindex, hfault, hearlier⟩ := findSome?_range_eq_some_iff.1 hfound
      exact exists_reaches_of_columnFault h hcount hindex hearlier hfault
  · have hmany : mostColumns < p.columns := Nat.lt_of_not_le hcount
    have hrun : p.sectionRun = ⟨[], some .tooManyColumns⟩ := sectionRun_of_uncounted hmany
    refine ⟨[], [], rfl, by simp, ?_, ?_, ?_⟩
    · rw [hrun]
      exact .uncounted hmany
    · rw [hrun]
      rfl
    · rw [hrun]
      exact List.drop_nil

theorem Reaches.reads {values : List (Option Bytes)} {beyond : List Event}
    (h : p.Reaches values beyond) :
    (Section.value.times values.length).run (p.sectionRun.bytes.drop (4 + 2 * p.columns)) =
      some (values, []) := by
  have hreads : Reads (Section.value.times values.length) (values.flatMap valueBytes) values :=
    Reads.times values fun value hvalue => reads_value (h.fits value hvalue)
  rw [h.written, ← List.append_nil (values.flatMap valueBytes)]
  exact hreads []

/-! ## Collecting the arrays -/

theorem collectEffects_of_arrayColumn {index : Nat} {column : ArrayColumn}
    (h : p.arrayColumn index = .ok column) :
    p.collectEffects index = [.report (.collected index column.value.isNone column.format)] := by
  obtain ⟨hdata, hformat, hlength⟩ := arrayColumn_eq_ok_iff.1 h
  simp only [collectEffects, hdata, hformat, hlength]

theorem Responds.exists_arrayColumns (h : p.Responds)
    (hlengths : ∀ index < p.columns, ∃ length, p.length index = .ok length) :
    ∃ columns : List ArrayColumn, p.answers arrayColumn = columns.map .ok := by
  apply exists_answers.2
  intro index hindex
  obtain ⟨value, hdata⟩ := h.data index hindex
  obtain ⟨format, hformat⟩ := h.format index hindex
  obtain ⟨length, hlength⟩ := hlengths index hindex
  exact ⟨⟨value, length, format⟩, arrayColumn_eq_ok_iff.2 ⟨hdata, hformat, hlength⟩⟩

theorem arraysRun_of_answers {columns : List ArrayColumn}
    (h : p.answers arrayColumn = columns.map .ok) :
    p.arraysRun.fault = none ∧ p.arraysRun.events =
      columns.mapIdx fun index column => .collected index column.value.isNone column.format := by
  have hlength : columns.length = p.columns := length_of_answers h
  have heffects : (List.range p.columns).flatMap p.collectEffects = (columns.mapIdx
      fun index column => Event.collected index column.value.isNone column.format).map .report := by
    rw [← hlength, map_mapIdx]
    apply flatMap_range_eq_mapIdx
    intro index column hcolumn
    exact collectEffects_of_arrayColumn (eq_of_getElem?_of_map_range h hcolumn)
  have hfault : p.arraysRun.fault = none := by
    show List.findSome? _ _ = none
    rw [heffects, List.findSome?_map, List.findSome?_eq_none_iff]
    exact fun _ _ => rfl
  refine ⟨hfault, ?_⟩
  have hevents : p.arraysRun.events =
      ((List.range p.columns).flatMap p.collectEffects).filterMap Effect.event? :=
    Run.events_of_complete hfault
  rw [hevents, heffects, Effect.filterMap_event_report]

end Param

/-- **The trace tells what was done.** Collecting the arrays reports every column in order, with its
own null flag and format. Writing a section reports a column for every value that stands behind the
second count when the writing ends, in order, with NULL for NULL and else the length that the
length field says; so every column where the section is complete, none where the columns cannot be
counted, and those before it where a column claims too much. Only a value that is too long for its
length field is reported on top of them and not written. The bytes behind the second count are as
many as the events of the written columns announce. -/
theorem trace_tells {p : Param} (h : p.Responds)
    (hlengths : ∀ index < p.columns, ∃ length, p.length index = .ok length) :
    (∃ events : List Event, p.arraysRun.fault = none ∧ p.arraysTrace =
        .span "param_arrays" p.columns :: .enter :: events.map .event ++ [.exit] ∧
      events.length = p.columns ∧ ∀ index < p.columns, ∃ value format,
        p.data index = .ok value ∧ p.format index = .ok format ∧
        events[index]? = some (.collected index value.isNone format)) ∧
    ∃ (events beyond : List Event) (values : List (Option Bytes)), p.sectionTrace =
        .span "bind_params" p.columns :: .enter :: events.map .event ++ [.exit] ∧
      (Section.value.times values.length).run (p.sectionRun.bytes.drop (4 + 2 * p.columns)) =
        some (values, []) ∧
      (∀ index value, values[index]? = some value → p.sent index = .ok value) ∧
      events = values.mapIdx Event.ofValue ++ beyond ∧ p.Ends values beyond p.sectionRun.fault ∧
      (p.sectionRun.bytes.drop (4 + 2 * p.columns)).length =
        total ((events.take values.length).map Event.announced) ∧
      (p.sectionRun.fault ≠ some .valueTooLarge → beyond = [] ∧
        (p.sectionRun.bytes.drop (4 + 2 * p.columns)).length =
          total (events.map Event.announced)) := by
  constructor
  · obtain ⟨columns, hcolumns⟩ := h.exists_arrayColumns hlengths
    obtain ⟨hfault, hevents⟩ := Param.arraysRun_of_answers hcolumns
    refine ⟨p.arraysRun.events, hfault, rfl, ?_, ?_⟩
    · rw [hevents, List.length_mapIdx, Param.length_of_answers hcolumns]
    · intro index hindex
      obtain ⟨column, hcolumn, hanswer⟩ := Param.getElem?_of_answers hcolumns hindex
      obtain ⟨hdata, hformat, -⟩ := Param.arrayColumn_eq_ok_iff.1 hanswer
      refine ⟨column.value, column.format, hdata, hformat, ?_⟩
      rw [hevents, List.getElem?_mapIdx, hcolumn]
      rfl
  · obtain ⟨values, beyond, hreaches⟩ := p.exists_reaches h
    have hwritten : (p.sectionRun.bytes.drop (4 + 2 * p.columns)).length =
        total ((values.mapIdx Event.ofValue).map Event.announced) := by
      rw [hreaches.written, Event.announced_mapIdx_ofValue]
    refine ⟨p.sectionRun.events, beyond, values, rfl, hreaches.reads,
      fun _ _ => eq_of_getElem?_of_map_range hreaches.sent, hreaches.events, hreaches.ends, ?_, ?_⟩
    · have htake : p.sectionRun.events.take values.length = values.mapIdx Event.ofValue := by
        rw [hreaches.events]
        exact List.take_left' List.length_mapIdx
      rw [htake, hwritten]
    · intro hfault
      have hbeyond : beyond = [] := hreaches.ends.beyond_eq_nil hfault
      refine ⟨hbeyond, ?_⟩
      rw [hreaches.events, hbeyond, List.append_nil, hwritten]

/-- What is reported is not always what is written: where a column ends the writing there may be an
event for it, of which nothing is in the buffer. -/
theorem not_all_reported_written :
    (¬ ∀ p : Param, p.Responds → (∀ index < p.columns, ∃ length, p.length index = .ok length) →
      p.columns ≤ mostColumns → ∀ k < p.columns,
        (∀ earlier < k, p.columnFault earlier = none) → p.columnFault k ≠ none →
          p.sectionRun.events.length = k) ∧
    ¬ ∀ p : Param, p.Responds → (∀ index < p.columns, ∃ length, p.length index = .ok length) →
      (p.sectionRun.bytes.drop (4 + 2 * p.columns)).length =
        total (p.sectionRun.events.map Event.announced) := by
  have hholds : (StoredText.owned longText).Holds longText.bytes := StoredText.Route.owned.holds
  have hresponds := Param.responds_text (.owned longText)
  have hlengths : ∀ index < (Param.text (.owned longText)).columns,
      ∃ length, (Param.text (.owned longText)).length index = .ok length :=
    Shape.exists_answer .length True.intro (List.forall_mem_nil _)
  have hevents := Param.events_text_of_unsaid hholds longestValue_lt_longText
  constructor
  · intro h
    have hfault : (Param.text (.owned longText)).columnFault 0 ≠ none := by
      intro hnone
      obtain ⟨value, hsent, hfits⟩ := Param.columnFault_eq_none_iff.1 hnone
      have hvalue : some longText.bytes = value :=
        Except.ok.inj ((Param.sent_text hholds).symm.trans hsent)
      rw [← hvalue, Param.valueSize] at hfits
      exact Nat.not_le.2 longestValue_lt_longText hfits
    have hcount := h _ hresponds hlengths (Param.columns_text_le _) 0 Nat.one_pos
      (fun earlier hlt => absurd hlt (Nat.not_lt_zero earlier)) hfault
    rw [hevents] at hcount
    exact Nat.one_ne_zero hcount
  · intro h
    have hsum := h _ hresponds hlengths
    have hcolumns : (Param.text (.owned longText)).columns = 1 := rfl
    have hnothing : ([0, 1, 0, 0, 0, 1] : Bytes).drop (4 + 2 * 1) = [] := rfl
    rw [Param.bytes_text_of_unsaid hholds longestValue_lt_longText, hcolumns, hnothing, hevents,
      List.map_singleton, total_cons, Event.announced, List.length_nil] at hsum
    omega

/-- Two bytes, a NULL, and four bytes claimed of two. -/
def spilling : Param :=
  .tuple [.binary [0, 7], .present .null, .foreign (UserTypes.rawBinary 4 (some [1, 2]))]

theorem trace_tells_spilling :
    spilling.Responds ∧
      spilling.sectionTrace = [.span "bind_params" 3, .enter, .event (.measured 0 2),
        .event (.null 1), .exit] ∧
      ∃ values beyond, spilling.Ends values beyond (some (.sliceEnd 4 2)) ∧
        (Section.value.times values.length).run [0, 0, 0, 2, 0, 7, 255, 255, 255, 255] =
          some (values, []) := by
  have hresponds : spilling.Responds := by
    apply Param.responds_tuple
    simp [Param.responds_binary, Param.responds_rawBinary,
      Param.responds_present rfl Param.responds_null]
  have hlengths : ∀ index < spilling.columns, ∃ length, spilling.length index = .ok length := by
    apply Shape.exists_answer .length
    · simp [spilling, Param.shape, Param.shapes, Shape.WellFormed, Shape.AllWellFormed,
        Shape.columns]
    · intro kind hkind index _
      obtain rfl : kind = UserTypes.rawBinaryKind 4 := List.mem_singleton.1 hkind
      exact ⟨4, rfl⟩
  obtain ⟨-, events, beyond, values, -, hread, -, -, hends, -⟩ := trace_tells hresponds hlengths
  exact ⟨hresponds, rfl, values, beyond, hends, hread⟩

end SqlBind
