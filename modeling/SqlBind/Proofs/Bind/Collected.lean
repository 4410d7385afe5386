import SqlBind.Bind.Arrays
import SqlBind.Proofs.Param.Columns
import SqlBind.Proofs.Result

/-!
# What the arrays hold

The arrays are collected column by column, so each of them is the list of what one accessor answers.

* `Param.arrays_eq_ok_iff`: the arrays exist just when every column can be collected, and then they
  list what was collected.
* `Param.answers_of_arrays`: the arrays are the answers of the accessors.
-/

namespace SqlBind.Param
set_option autoImplicit false

variable {p : Param}

theorem arrayColumn_eq_ok_iff {index : Nat} {c : ArrayColumn} :
    p.arrayColumn index = .ok c ↔
      p.data index = .ok c.value ∧ p.format index = .ok c.format ∧
        p.length index = .ok c.length := by
  simp only [arrayColumn, Result.bind_eq_ok]
  constructor
  · rintro ⟨value, hvalue, format, hformat, length, hlength, hc⟩
    cases hc
    exact ⟨hvalue, hformat, hlength⟩
  · rintro ⟨hvalue, hformat, hlength⟩
    exact ⟨_, hvalue, _, hformat, _, hlength, rfl⟩

def arraysOf (columns : List ArrayColumn) : Arrays where
  values := columns.map ArrayColumn.value
  lengths := columns.map ArrayColumn.length
  formats := columns.map fun column => column.format.code

theorem arrays_eq_ok_iff {a : Arrays} :
    p.arrays = .ok a ↔
      ∃ columns, p.answers arrayColumn = columns.map .ok ∧ a = arraysOf columns := by
  simp only [arrays, Result.bind_eq_ok, Result.mapM_eq_ok_iff]
  constructor
  · rintro ⟨columns, hcolumns, ha⟩
    cases ha
    exact ⟨columns, hcolumns, rfl⟩
  · rintro ⟨columns, hcolumns, rfl⟩
    exact ⟨columns, hcolumns, rfl⟩

theorem answers_eq_of_arrayColumn {α : Type} {columns : List ArrayColumn}
    {read : Param → Nat → Except Fault α} {field : ArrayColumn → α}
    (h : p.answers arrayColumn = columns.map .ok)
    (hread : ∀ index c, p.arrayColumn index = .ok c → read p index = .ok (field c)) :
    p.answers read = (columns.map field).map .ok := by
  rw [List.map_map]
  exact map_eq_of_map_eq h fun index c _ hc => hread index c hc

/-- Each array lists what one accessor answers for the columns; of the formats it holds the codes.
-/
theorem answers_of_arrays {a : Arrays} (h : p.arrays = .ok a) :
    p.answers data = a.values.map .ok ∧ p.answers length = a.lengths.map .ok ∧
      ∃ formats : List Format, p.answers format = formats.map .ok ∧
        a.formats = formats.map Format.code := by
  obtain ⟨columns, hcolumns, rfl⟩ := arrays_eq_ok_iff.1 h
  refine ⟨?_, ?_, columns.map ArrayColumn.format, ?_, ?_⟩
  · exact answers_eq_of_arrayColumn hcolumns fun _ _ hc => (arrayColumn_eq_ok_iff.1 hc).1
  · exact answers_eq_of_arrayColumn hcolumns fun _ _ hc => (arrayColumn_eq_ok_iff.1 hc).2.2
  · exact answers_eq_of_arrayColumn hcolumns fun _ _ hc => (arrayColumn_eq_ok_iff.1 hc).2.1
  · rw [List.map_map]
    rfl

end SqlBind.Param
