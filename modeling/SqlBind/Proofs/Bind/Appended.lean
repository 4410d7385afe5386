import SqlBind.Bind.Stream
import SqlBind.Proofs.Bind.Overrun
import SqlBind.Proofs.Bind.Stopped

/-!
# What is appended to a common buffer

* `sectionRun_of_firstOverrun`: a section that ends early holds everything before the column that
  ended it.
* `Stream.Item.contribution`: what an item appends; nothing but the item decides it.
* `Stream.Item.Appends`: the ways in which an item can end, with what each leaves in the buffer.
* `Stream.pushAll_append`, `Stream.buffer_pushAll`: a buffer only grows, by one contribution after
  another.
* `Stream.pushAll_appends`: so it is for any items, and each of them ends in one of these ways.
-/

namespace SqlBind
set_option autoImplicit false

/-! ## Sections with a column that claims too much -/

namespace Param

variable {p : Param}

theorem FirstOverrun.columnFault_eq_none {index : Nat} {data : Bytes} {claimed : Int32}
    (hfirst : p.FirstOverrun index data claimed) (h : p.Responds) (hfits : p.Fits) :
    ∀ earlier < index, p.columnFault earlier = none := by
  intro earlier hlt
  have hcolumns : earlier < p.columns := Nat.lt_trans hlt hfirst.lt_columns
  rw [columnFault_eq_sentFault hfits hcolumns, sentFault_eq_none_iff_not_overruns h hcolumns]
  exact hfirst.earlier earlier hlt

theorem sectionRun_of_firstOverrun {index : Nat} {data : Bytes} {claimed : Int32}
    (h : p.Responds) (hfits : p.Fits) (hcount : p.columns ≤ mostColumns)
    (hfirst : p.FirstOverrun index data claimed) :
    p.sectionRun = ⟨p.startEffects index, some (overrunFault data claimed)⟩ := by
  have hcolumn : p.columnEffects index = [] ++ [.stop (overrunFault data claimed)] := by
    rw [columnEffects, hfirst.sent_eq]
    rfl
  rw [sectionRun_of_stop hcount h.format hfirst.lt_columns (hfirst.columnFault_eq_none h hfits)
    (by simp) hcolumn, List.append_nil]

end Param

namespace Stream

/-! ## One item -/

/-- What an item appends. -/
def Item.contribution (item : Item) : Bytes :=
  match (item.value.encode item.passing).result with
  | .error _ => []
  | .ok p => p.sectionRun.bytes

/-- If the item has a parameter, that responds and holds no value that is too long. -/
def Item.Sendable (item : Item) : Prop :=
  ∀ p, (item.value.encode item.passing).result = .ok p → p.Responds ∧ p.Fits

theorem Item.sendable_of_outside {item : Item} (hitem : item.value.type.shape.WellFormed)
    (houtside : ∀ param ∈ item.value.outside, (Param.foreign param).Responds)
    (hkinds : ∀ kind ∈ item.value.type.shape.kinds, ∀ index < kind.columns,
      ∃ format, kind.format index = .ok format)
    (hfits : ∀ p, (item.value.encode item.passing).result = .ok p → p.Fits) : item.Sendable :=
  fun p hp =>
    ⟨Value.responds_of_encoded (Value.encoded_of_encode hp) hitem houtside hkinds, hfits p hp⟩

/-- The ways in which an item can end, with what it leaves in the buffer. -/
inductive Item.Appends (item : Item) : Bytes → Outcome → Prop where
  /-- Without a parameter there is nothing to append. -/
  | refused {e : EncodeError} : (item.value.encode item.passing).result = .error e →
    Appends item [] (.refused e)
  /-- Columns that cannot be counted are not begun. -/
  | uncounted {p : Param} : (item.value.encode item.passing).result = .ok p →
    mostColumns < p.columns → Appends item [] (.stopped .tooManyColumns)
  /-- Before a column that claims too much there are all format codes and all earlier values. -/
  | cut {p : Param} {index : Nat} {data : Bytes} {claimed : Int32} {formats : List Format}
    {values : List (Option Bytes)} : (item.value.encode item.passing).result = .ok p →
    p.columns ≤ mostColumns → p.FirstOverrun index data claimed →
    p.answers Param.format = formats.map .ok → (List.range index).map p.sent = values.map .ok →
    Appends item (sectionStart formats values)
      (.stopped (.sliceEnd (signExtended claimed) data.length))
  /-- Otherwise the section is complete. -/
  | whole {p : Param} {formats : List Format} {values : List (Option Bytes)} :
    (item.value.encode item.passing).result = .ok p → p.columns ≤ mostColumns →
    (∀ index < p.columns, ∀ data claimed, ¬p.Overruns index data claimed) →
    p.answers Param.format = formats.map .ok → p.answers Param.sent = values.map .ok →
    Appends item (sectionBytes formats values) .written

def Outcome.ofFault : Option Fault → Outcome
  | none => .written
  | some fault => .stopped fault

theorem push_of_error (buffer : Bytes) {item : Item} {e : EncodeError}
    (h : (item.value.encode item.passing).result = .error e) :
    push buffer item =
      (buffer, ⟨(item.value.encode item.passing).log, [], buffer.length, .refused e⟩) := by
  simp only [push, h]

theorem push_of_ok (buffer : Bytes) {item : Item} {p : Param}
    (h : (item.value.encode item.passing).result = .ok p) :
    push buffer item =
      (buffer ++ p.sectionRun.bytes, ⟨(item.value.encode item.passing).log, p.sectionRun.bytes,
        (buffer ++ p.sectionRun.bytes).length, .ofFault p.sectionRun.fault⟩) := by
  simp only [push, h]
  cases p.sectionRun.fault <;> rfl

theorem push_contribution (buffer : Bytes) (item : Item) :
    (push buffer item).1 = buffer ++ item.contribution ∧
      (push buffer item).2.wrote = item.contribution := by
  cases h : (item.value.encode item.passing).result with
  | error e =>
    rw [push_of_error buffer h, Item.contribution, h]
    exact ⟨(List.append_nil buffer).symm, rfl⟩
  | ok p =>
    rw [push_of_ok buffer h, Item.contribution, h]
    exact ⟨rfl, rfl⟩

theorem appends_push (buffer : Bytes) {item : Item} (h : item.Sendable) :
    item.Appends (push buffer item).2.wrote (push buffer item).2.outcome := by
  cases hencode : (item.value.encode item.passing).result with
  | error e =>
    rw [push_of_error buffer hencode]
    exact .refused hencode
  | ok p =>
    obtain ⟨hresponds, hfits⟩ := h p hencode
    obtain ⟨formats, hformats⟩ := Param.exists_answers.2 hresponds.format
    rw [push_of_ok buffer hencode]
    -- The count is written first, so too many columns are found before any that overruns.
    by_cases hcount : p.columns ≤ mostColumns
    · by_cases hoverruns : ∃ index < p.columns, ∃ data claimed, p.Overruns index data claimed
      · obtain ⟨index, hindex, data, claimed, hoverrun⟩ := hoverruns
        obtain ⟨index, data, claimed, hfirst⟩ := hoverrun.exists_first hindex
        obtain ⟨values, -, hvalues, hsizes⟩ := Param.exists_values_of_columnFault
          (hfirst.columnFault_eq_none hresponds hfits)
        have hbytes := Param.bytes_startEffects hformats hvalues hsizes
        rw [Param.sectionRun_of_firstOverrun hresponds hfits hcount hfirst]
        show Item.Appends item ((p.startEffects index).flatMap Effect.bytes) _
        rw [hbytes]
        exact .cut hencode hcount hfirst hformats hvalues
      · have hnone : ∀ index < p.columns, ∀ data claimed, ¬p.Overruns index data claimed :=
          fun index hindex data claimed hoverrun =>
            hoverruns ⟨index, hindex, data, claimed, hoverrun⟩
        obtain ⟨values, hvalues⟩ := Param.exists_values_of_not_overruns hresponds hnone
        have hcomplete := Param.completeSection_eq_ok_iff.2
          ⟨hcount, hfits, formats, values, hformats, hvalues, rfl⟩
        obtain ⟨hfault, hbytes⟩ := Param.completeSection_eq_ok_iff_sectionRun.1 hcomplete
        rw [hfault, hbytes]
        exact .whole hencode hcount hnone hformats hvalues
    · rw [Param.sectionRun_of_uncounted (Nat.lt_of_not_le hcount)]
      exact .uncounted hencode (Nat.lt_of_not_le hcount)

/-! ## Several items -/

theorem pushAll_append (buffer : Bytes) (first rest : List Item) :
    pushAll buffer (first ++ rest) =
      ((pushAll (pushAll buffer first).1 rest).1,
        (pushAll buffer first).2 ++ (pushAll (pushAll buffer first).1 rest).2) := by
  induction first generalizing buffer with
  | nil => rfl
  | cons item items ih =>
    rw [List.cons_append, pushAll, ih]
    rfl

theorem buffer_pushAll (buffer : Bytes) (items : List Item) :
    (pushAll buffer items).1 = buffer ++ items.flatMap Item.contribution := by
  induction items generalizing buffer with
  | nil => exact (List.append_nil buffer).symm
  | cons item rest ih =>
    show (pushAll (push buffer item).1 rest).1 = _
    rw [ih, (push_contribution buffer item).1, List.flatMap_cons, List.append_assoc]

theorem wrote_pushAll (buffer : Bytes) (items : List Item) :
    (pushAll buffer items).2.map Report.wrote = items.map Item.contribution := by
  induction items generalizing buffer with
  | nil => rfl
  | cons item rest ih =>
    show (push buffer item).2.wrote :: (pushAll (push buffer item).1 rest).2.map Report.wrote = _
    rw [ih, (push_contribution buffer item).2, List.map_cons]

theorem appends_pushAll (buffer : Bytes) {items : List Item} (h : ∀ item ∈ items, item.Sendable) :
    List.Forall₂ (fun item report => item.Appends report.wrote report.outcome) items
      (pushAll buffer items).2 := by
  induction items generalizing buffer with
  | nil => exact .nil
  | cons item rest ih =>
    refine .cons (appends_push buffer (h item List.mem_cons_self)) ?_
    exact ih (push buffer item).1 fun other hother => h other (List.mem_cons_of_mem item hother)

/-- **A buffer only grows.** After any items the buffer holds what it held before, and then what
each item appended, in order; at every moment on the way it holds a beginning of that. What an item
appends depends on nothing else: no parameter and columns that cannot be counted append nothing, a
column that claims too much leaves all format codes and the values before it, and any other item its
whole section. -/
theorem pushAll_appends (buffer : Bytes) {items : List Item}
    (h : ∀ item ∈ items, item.Sendable) :
    (pushAll buffer items).1 = buffer ++ ((pushAll buffer items).2.map Report.wrote).flatten ∧
    (∀ first rest, items = first ++ rest → (pushAll buffer first).1 <+: (pushAll buffer items).1) ∧
    (pushAll buffer items).2.map Report.wrote = items.map Item.contribution ∧
    List.Forall₂ (fun item report => item.Appends report.wrote report.outcome) items
      (pushAll buffer items).2 := by
  refine ⟨?_, ?_, wrote_pushAll buffer items, appends_pushAll buffer h⟩
  · rw [buffer_pushAll, wrote_pushAll, List.flatMap_def]
  · rintro first rest rfl
    rw [pushAll_append]
    show _ <+: (pushAll (pushAll buffer first).1 rest).1
    rw [buffer_pushAll (pushAll buffer first).1 rest]
    exact List.prefix_append _ _

/-- A text with a nul, too many columns, four bytes claimed of two, and a text without a nul. -/
def mishaps : List Item :=
  [⟨.moved, .string .owned "a\x00"⟩, ⟨.lent, .foreign (UserTypes.wide 65536)⟩,
    ⟨.moved, .tuple [.int16 7, .foreign (UserTypes.rawBinary 4 (some [1, 2])), .bool true]⟩,
    ⟨.lent, .string .owned "b"⟩]

theorem pushAll_appends_mishaps :
    (∀ item ∈ mishaps, item.Sendable) ∧
      (pushAll [9] mishaps).1 = [9, 0, 3, 0, 1, 0, 1, 0, 0, 0, 3, 0, 0, 0, 2, 0, 7,
        0, 1, 0, 0, 0, 1, 0, 0, 0, 1, 98] := by
  have hwide : (Param.foreign (UserTypes.wide 65536)).Fits := by
    apply Param.fits_of_data
    intro index _ data hdata
    have hvalue := Except.ok.inj hdata
    split at hvalue
    · cases hvalue
    · split at hvalue <;> cases hvalue <;> decide
  have hsmall : ∀ p ∈ [Param.binary [0, 7], .foreign (UserTypes.rawBinary 4 (some [1, 2])),
      .text (.literal "TRUE")], p.Fits := by
    simp only [List.forall_mem_cons, List.not_mem_nil, false_implies, implies_true, and_true]
    refine ⟨?_, ?_, ?_⟩
    · exact Param.fits_of_columns_eq_one rfl fun value h => by cases h; decide
    · exact Param.fits_of_columns_eq_one rfl fun value h => by cases h
    · exact Param.fits_of_columns_eq_one rfl fun value h => by cases h; decide
  have hsendable : ∀ item ∈ mishaps, item.Sendable := by
    simp only [mishaps, List.forall_mem_cons, List.not_mem_nil, false_implies, implies_true,
      and_true]
    refine ⟨?_, ?_, ?_, ?_⟩
    · intro p hp
      cases hp
    · intro p hp
      cases hp
      exact ⟨Param.responds_wide 65536, hwide⟩
    · apply Item.sendable_of_outside
      · simp [Value.type, Value.types, ValueType.shape, ValueType.shapes, Shape.WellFormed,
          Shape.AllWellFormed]
      · intro param hparam
        obtain rfl := List.mem_singleton.1 hparam
        exact Param.responds_rawBinary 4 _
      · intro kind hkind index _
        obtain rfl := List.mem_singleton.1 hkind
        exact ⟨.binary, rfl⟩
      · intro p hp
        cases hp
        exact Param.fits_tuple hsmall
    · intro p hp
      refine ⟨Value.responds_of_isBuiltIn (Value.encoded_of_encode hp) True.intro, ?_⟩
      cases hp
      exact Param.fits_of_columns_eq_one rfl fun value h => by cases h; decide
  have hcontributions : (mishaps.map Item.contribution).flatten = [0, 3, 0, 1, 0, 1, 0, 0, 0, 3,
      0, 0, 0, 2, 0, 7, 0, 1, 0, 0, 0, 1, 0, 0, 0, 1, 98] := by rfl
  obtain ⟨hbuffer, -, hwrote, -⟩ := pushAll_appends [9] hsendable
  rw [hwrote, hcontributions] at hbuffer
  exact ⟨hsendable, hbuffer⟩

end Stream

end SqlBind
