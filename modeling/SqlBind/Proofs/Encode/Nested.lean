import Mathlib.Logic.Function.Iterate
import SqlBind.Proofs.Bind.Length
import SqlBind.Proofs.Bind.Outcome
import SqlBind.Proofs.Encode.Encoded
import SqlBind.Proofs.Encode.Passing
import SqlBind.Proofs.Param.LeafColumns
import SqlBind.UserTypes.Converted
import SqlBind.UserTypes.Unchecked

/-!
# Optional values within optional values

A column may be NULL for want of a value at any of several levels. All levels together are one
column, which is that of the value at the bottom if every level has one.

* `ValueType.Nested t depth u`: `u` is that many levels of optional types around `t`.
* `Value.Nested t depth v content`: a value of such a type, and the value at the bottom if there is
  one.
* `Value.isMissing v`: whether the outermost level is without a value.
* `Value.map_onHeap_encode_nested`, `Value.encode_missing`: what is encoded if every level has a
  value, and if one has none.
* `encode_nested`: the column of such a value.
-/

namespace SqlBind
set_option autoImplicit false

/-! ## Types -/

namespace ValueType

/-- So many levels of optional types around a type; a wrapper of an optional value is one too. -/
inductive Nested (t : ValueType) : Nat → ValueType → Prop where
  | bare : Nested t 0 t
  | option {depth : Nat} {u : ValueType} : Nested t depth u → Nested t (depth + 1) (.option u)
  | wrapper {depth : Nat} {u : ValueType} :
    Nested t depth u → Nested t (depth + 1) (Bindable.type (UserTypes.Maybe u))

theorem ask_nested {α : Type} {ask : Shape → Nat → Except Fault α} (hask : Shape.Forwards ask)
    {t u : ValueType} {depth : Nat} (h : t.Nested depth u) : ask u.shape 0 = ask t.shape 0 := by
  induction h with
  | bare => rfl
  | option _ ih => exact (hask.optional _).trans ih
  | wrapper _ ih => exact (hask.optional _).trans ih

theorem shape_of_nested {t u : ValueType} {depth : Nat} (h : t.Nested (depth + 1) u) :
    ∃ inner, u.shape = .optional inner := by
  cases h with
  | option _ => exact ⟨_, rfl⟩
  | wrapper _ => exact ⟨_, rfl⟩

end ValueType

/-! ## Parameters of one column -/

namespace Param

variable {p q : Param}

theorem sent_eq_of_answers {index : Nat} (hdata : p.data index = q.data index)
    (hlength : p.length index = q.length index) (hformat : p.format index = q.format index) :
    p.sent index = q.sent index := by
  rw [sent, sent, hdata, hformat, hlength]

theorem sectionRun_eq_of_one_column (hp : p.columns = 1) (hq : q.columns = 1)
    (hformat : p.format 0 = q.format 0) (hsent : p.sent 0 = q.sent 0) :
    p.sectionRun = q.sectionRun := by
  have hcode : p.formatEffect 0 = q.formatEffect 0 := by rw [formatEffect, formatEffect, hformat]
  have hentry : p.columnEffects 0 = q.columnEffects 0 := by
    rw [columnEffects, columnEffects, hsent]
  rw [sectionRun, sectionRun, sectionEffects, sectionEffects, hp, hq, List.range_one,
    List.map_singleton, List.map_singleton, List.flatMap_singleton, List.flatMap_singleton, hcode,
    hentry]

theorem sectionLength_eq_of_one_column (hp : p.columns = 1) (hq : q.columns = 1)
    (hsent : p.sent 0 = q.sent 0) : p.sectionLength = q.sectionLength := by
  rw [sectionLength_eq, sectionLength_eq, answers_of_columns_eq_one sent hp,
    answers_of_columns_eq_one sent hq, hp, hq, hsent]

theorem completeSection_of_null (hp : p.columns = 1) (hdata : p.data 0 = .ok none) :
    p.completeSection = (p.format 0).map fun format =>
      [0, 1, 0, UInt8.ofNat format.code, 0, 1, 255, 255, 255, 255] := by
  have hentry : p.columnEffects 0 = [.report (.null 0), .write nullLength] := by
    rw [columnEffects, sent_of_null hdata]
  rw [completeSection, sectionRun, sectionEffects, hp, List.range_one, List.map_singleton,
    List.flatMap_singleton, hentry, formatEffect]
  rcases p.format 0 with fault | _ | _
  · rfl
  · rfl
  · rfl

theorem sectionLength_of_null (hp : p.columns = 1) (hdata : p.data 0 = .ok none) :
    p.sectionLength = .ok 10 := by
  have hvalues : p.answers sent = [none].map .ok := by
    rw [answers_of_columns_eq_one sent hp, sent_of_null hdata]
    rfl
  rw [sectionLength_eq_ok hvalues, hp]
  rfl

theorem data_present_iterate (depth : Nat) (p : Param) : (present^[depth] p).data 0 = p.data 0 := by
  induction depth generalizing p with
  | zero => rfl
  | succ depth ih =>
    rw [Function.iterate_succ_apply, ih]
    rfl

theorem ne_foreign_of_shape {inner : Shape} (h : p.shape = .optional inner) (param : Foreign) :
    p ≠ .foreign param := by
  rintro rfl
  cases h

end Param

/-! ## Values -/

namespace Value

open Param

/-- A value of so many levels of optional types around a type, and the value at the bottom, which
is there unless a level is without one. -/
inductive Nested (t : ValueType) : Nat → Value → Option Value → Prop where
  | bare {x : Value} : x.type = t → Nested t 0 x (.some x)
  | missing {depth : Nat} {u : ValueType} :
    t.Nested depth u → Nested t (depth + 1) (none u) .none
  | present {depth : Nat} {v : Value} {content : Option Value} :
    Nested t depth v content → Nested t (depth + 1) (some v) content
  | wrapper {depth : Nat} {u : ValueType} {content : Option Value} (m : UserTypes.Maybe u) :
    Nested t (depth + 1) m.content content → Nested t (depth + 1) (Bindable.value m) content

/-- Whether the outermost level is without a value. A wrapper is the level that it wraps. -/
def isMissing : Value → Bool
  | none _ => true
  | converted _ target => target.isMissing
  | _ => false

variable {t : ValueType} {depth : Nat} {v x : Value} {content : Option Value} {passing : Passing}

theorem Nested.type (h : Nested t depth v content) : t.Nested depth v.type := by
  induction h with
  | bare hx =>
    rw [hx]
    exact .bare
  | missing hu => exact .option hu
  | present _ ih => exact .option ih
  | wrapper m _ ih =>
    rw [m.type_content] at ih
    cases ih with
    | option hu =>
      rw [Bindable.type_value]
      exact .wrapper hu

theorem Nested.type_content (h : Nested t depth v (.some x)) : x.type = t := by
  generalize hcontent : Option.some x = content at h
  induction h with
  | bare hx =>
    cases hcontent
    exact hx
  | missing _ => cases hcontent
  | present _ ih => exact ih hcontent
  | wrapper _ _ ih => exact ih hcontent

theorem map_onHeap_encode_nested (h : Nested t depth v (.some x)) (a b : Passing) :
    (v.encode a).map onHeap = ((x.encode b).map onHeap).map Param.present^[depth] := by
  generalize hcontent : Option.some x = content at h
  induction h generalizing a with
  | bare _ =>
    cases hcontent
    rw [map_onHeap_encode x a b]
    exact (Logged.map_id _).symm
  | missing _ => cases hcontent
  | present _ ih =>
    rw [map_onHeap_encode_some, ih a hcontent, Logged.map_map, Function.iterate_succ']
    rfl
  | wrapper m _ ih =>
    -- A wrapper logs nothing, and what it wraps is given away.
    exact ih .moved hcontent

theorem log_encode_nested (h : Nested t depth v (.some x)) (a b : Passing) :
    (v.encode a).log = (x.encode b).log := by
  show ((v.encode a).map onHeap).log = _
  rw [map_onHeap_encode_nested h a b]
  rfl

theorem exists_encode_nested (h : Nested t depth v (.some x)) (a : Passing) {b : Passing}
    {q : Param} (hq : (x.encode b).result = .ok q) :
    ∃ p, (v.encode a).result = .ok p ∧ p.data 0 = q.data 0 := by
  have hresult : ((v.encode a).map onHeap).result = .ok (Param.present^[depth] q.onHeap) := by
    rw [map_onHeap_encode_nested h a b, Logged.result_map_eq_ok]
    exact ⟨q.onHeap, Logged.result_map_eq_ok.2 ⟨q, hq, rfl⟩, rfl⟩
  obtain ⟨p, hp, hstored⟩ := Logged.result_map_eq_ok.1 hresult
  refine ⟨p, hp, ?_⟩
  rw [← data_onHeap p, hstored, data_present_iterate, data_onHeap]

theorem encode_missing (h : Nested t depth v .none) (passing : Passing) :
    ∃ p, v.encode passing = .pure p ∧ p.data 0 = .ok .none := by
  generalize hcontent : (Option.none : Option Value) = content at h
  induction h generalizing passing with
  | bare _ => cases hcontent
  | missing _ => exact ⟨_, rfl, rfl⟩
  | present _ ih =>
    obtain ⟨p, hp, hdata⟩ := ih passing hcontent
    refine ⟨.present p, ?_, hdata⟩
    rw [encode, hp]
    rfl
  | wrapper m _ ih => exact ih .moved hcontent

theorem isNull?_of_nested (h : Nested t depth v content) (hdepth : 0 < depth) {p : Param}
    (hp : (v.encode passing).result = .ok p) : p.isNull? = .some v.isMissing := by
  induction h generalizing passing p with
  | bare _ => exact absurd hdepth (Nat.lt_irrefl 0)
  | missing _ =>
    cases hp
    rfl
  | present _ _ =>
    obtain ⟨q, -, rfl⟩ := Logged.result_map_eq_ok.1 hp
    rfl
  | wrapper m _ ih => exact ih hdepth hp

theorem shape_of_encode {p : Param} (h : (v.encode passing).result = .ok p) :
    p.shape = v.type.shape :=
  shape_of_encoded (encoded_of_encode h)

/-- The declared length and format are those of the bottom, whichever levels have a value. -/
theorem Nested.declared_eq (h : Nested t depth v content) {p : Param}
    (hp : (v.encode passing).result = .ok p) :
    p.length 0 = t.shape.length 0 ∧ p.format 0 = t.shape.format 0 := by
  have hshape := shape_of_encode hp
  rw [Param.length, Param.format, hshape]
  exact ⟨ValueType.ask_nested Shape.forwards_length h.type,
    ValueType.ask_nested Shape.forwards_format h.type⟩

end Value

/-- **Optional values are transparent at any depth.** Let a type fill one column, and let a value of
so many optional types around it be given. If every level has a value, the outcome is that of the
value at the bottom: the same log, the same error, or the same column, and then the same section or
fault and the same length of the section. If a level has none, the outcome is one NULL column of the
declared length and format, and nothing is logged. Only the outermost level decides whether the
parameter calls itself NULL. And there is no column but the first, whatever the bottom would
answer. -/
theorem encode_nested {t : ValueType} {depth : Nat} {v : Value} {content : Option Value}
    (ht : t.columns = 1) (h : Value.Nested t (depth + 1) v content) (a b : Passing) :
    (∀ x, content = some x →
      (v.encode a).log = (x.encode b).log ∧
      (∀ e, (v.encode a).result = .error e ↔ (x.encode b).result = .error e) ∧
      ∀ q, (x.encode b).result = .ok q → ∃ p, (v.encode a).result = .ok p ∧
        p.columns = q.columns ∧ p.data 0 = q.data 0 ∧ p.length 0 = q.length 0 ∧
        p.format 0 = q.format 0 ∧ p.sectionRun = q.sectionRun ∧
        p.completeSection = q.completeSection ∧ p.sectionLength = q.sectionLength) ∧
    (content = none → ∃ p, v.encode a = .pure p ∧ p.data 0 = .ok none ∧
      p.length 0 = t.shape.length 0 ∧ p.format 0 = t.shape.format 0 ∧
      p.completeSection = (t.shape.format 0).map (fun format =>
        [0, 1, 0, UInt8.ofNat format.code, 0, 1, 255, 255, 255, 255]) ∧
      p.sectionLength = .ok 10) ∧
    ∀ p, (v.encode a).result = .ok p →
      p.isNull? = some v.isMissing ∧
      ∀ index, 1 ≤ index → p.data index = .error (.columnIndex 1 index) ∧
        p.length index = .error (.columnIndex 1 index) ∧
        p.format index = .error (.columnIndex 1 index) := by
  obtain ⟨inner, hinner⟩ := ValueType.shape_of_nested h.type
  have hshape : ∀ p, (v.encode a).result = .ok p → p.shape = .optional inner := fun p hp =>
    (Value.shape_of_encode hp).trans hinner
  have hcolumns : ∀ p, (v.encode a).result = .ok p → p.columns = 1 := fun p hp =>
    congrArg Shape.columns (hshape p hp)
  refine ⟨?_, ?_, ?_⟩
  · rintro x rfl
    have hmap := Value.map_onHeap_encode_nested h a b
    refine ⟨Value.log_encode_nested h a b, fun e => ?_, fun q hq => ?_⟩
    · have herror : ((v.encode a).map Param.onHeap).result = .error e ↔
          (((x.encode b).map Param.onHeap).map Param.present^[depth + 1]).result = .error e := by
        rw [hmap]
      exact Result.map_eq_error.symm.trans
        (herror.trans (Result.map_eq_error.trans Result.map_eq_error))
    · obtain ⟨p, hp, hdata⟩ := Value.exists_encode_nested h a hq
      have hqshape := Value.shape_of_encode hq
      rw [h.type_content] at hqshape
      have hqcolumns : q.columns = 1 := (congrArg Shape.columns hqshape).trans ht
      obtain ⟨hlength, hformat⟩ := h.declared_eq hp
      have hlength : p.length 0 = q.length 0 := by rw [hlength, Param.length, hqshape]
      have hformat : p.format 0 = q.format 0 := by rw [hformat, Param.format, hqshape]
      have hsent := Param.sent_eq_of_answers hdata hlength hformat
      have hrun := Param.sectionRun_eq_of_one_column (hcolumns p hp) hqcolumns hformat hsent
      refine ⟨p, hp, (hcolumns p hp).trans hqcolumns.symm, hdata, hlength, hformat, hrun, ?_,
        Param.sectionLength_eq_of_one_column (hcolumns p hp) hqcolumns hsent⟩
      rw [Param.completeSection, Param.completeSection, hrun]
  · rintro rfl
    obtain ⟨p, hp, hdata⟩ := Value.encode_missing h a
    have hok : (v.encode a).result = .ok p := by
      rw [hp]
      rfl
    obtain ⟨hlength, hformat⟩ := h.declared_eq hok
    have hsection := Param.completeSection_of_null (hcolumns p hok) hdata
    rw [hformat] at hsection
    exact ⟨p, hp, hdata, hlength, hformat, hsection,
      Param.sectionLength_of_null (hcolumns p hok) hdata⟩
  · intro p hp
    refine ⟨Value.isNull?_of_nested h (Nat.succ_pos depth) hp, fun index hindex => ?_⟩
    have hone := hcolumns p hp
    have hdata := Param.data_beyond (Param.ne_foreign_of_shape (hshape p hp))
      (hone.trans_le hindex)
    have hkind : ∀ kind, Shape.optional inner ≠ .foreign kind := fun _ => Shape.noConfusion
    rw [hone] at hdata
    rw [Param.length, Param.format, hshape p hp]
    exact ⟨hdata, Shape.forwards_length.beyond hkind hindex,
      Shape.forwards_format.beyond hkind hindex⟩

/-- Two levels, the outer one a wrapper, around a part from outside that answers for any index and
stands in a tuple of one column. -/
def capsule : Value :=
  Bindable.value (UserTypes.Maybe.present (.some (.tuple [.tuple [],
    .foreign (UserTypes.rawBinary 2 (some [7, 8, 9]))])))

/-- The same type, with no value at the inner level. -/
def hollowCapsule : Value :=
  Bindable.value (UserTypes.Maybe.present
    (.none (.tuple [.tuple [], .foreign (UserTypes.rawBinaryKind 2)])))

theorem encode_nested_capsule :
    (∃ p, (capsule.encode .lent).result = .ok p ∧ p.data 0 = .ok (some [7, 8, 9]) ∧
      p.completeSection = .ok [0, 1, 0, 1, 0, 1, 0, 0, 0, 2, 7, 8] ∧
      p.data 1 = .error (.columnIndex 1 1)) ∧
    ∃ p, (hollowCapsule.encode .lent).result = .ok p ∧ p.data 0 = .ok none ∧
      p.isNull? = some false ∧
      p.completeSection = .ok [0, 1, 0, 1, 0, 1, 255, 255, 255, 255] := by
  have ht : (ValueType.tuple [.tuple [], .foreign (UserTypes.rawBinaryKind 2)]).columns = 1 := rfl
  have hfull : Value.Nested (.tuple [.tuple [], .foreign (UserTypes.rawBinaryKind 2)]) 2 capsule
      (some (.tuple [.tuple [], .foreign (UserTypes.rawBinary 2 (some [7, 8, 9]))])) :=
    .wrapper _ (.present (.present (.bare rfl)))
  have hhollow : Value.Nested (.tuple [.tuple [], .foreign (UserTypes.rawBinaryKind 2)]) 2
      hollowCapsule none :=
    .wrapper _ (.present (.missing .bare))
  obtain ⟨hpresent, -, hall⟩ := encode_nested ht hfull .lent .moved
  obtain ⟨-, hmissing, hallHollow⟩ := encode_nested ht hhollow .lent .moved
  obtain ⟨-, -, hok⟩ := hpresent _ rfl
  obtain ⟨p, hp, -, hdata, -, -, -, hsection, -⟩ := hok _ rfl
  obtain ⟨q, hq, hnull, -, -, hnullSection, -⟩ := hmissing rfl
  have hqok : (hollowCapsule.encode .lent).result = .ok q := by
    rw [hq]
    rfl
  exact ⟨⟨p, hp, hdata.trans rfl, hsection.trans rfl, ((hall p hp).2 1 (Nat.le_refl 1)).1⟩,
    q, hqok, hnull, (hallHollow q hqok).1.trans rfl, hnullSection.trans rfl⟩

end SqlBind
