import SqlBind.Bind.Arrays
import SqlBind.Bind.Section

/-!
# Parameters that answer alike

What is assembled from a parameter depends on nothing but its columns and the answers of its three
accessors.

* `Param.Agree p q`: both have the same columns and answer alike for every index, also for those
  that they do not have.
* `Agree.sectionRun_eq` and its siblings: whatever is assembled from them is the same.
-/

namespace SqlBind.Param
set_option autoImplicit false

/-- Both parameters have the same columns and give the same answers, faults included. -/
structure Agree (p q : Param) : Prop where
  columns : p.columns = q.columns
  data : ∀ index, p.data index = q.data index
  length : ∀ index, p.length index = q.length index
  format : ∀ index, p.format index = q.format index

namespace Agree

variable {p q r : Param}

theorem refl (p : Param) : Agree p p :=
  ⟨rfl, fun _ => rfl, fun _ => rfl, fun _ => rfl⟩

theorem symm (h : Agree p q) : Agree q p :=
  ⟨h.columns.symm, fun index => (h.data index).symm, fun index => (h.length index).symm,
    fun index => (h.format index).symm⟩

theorem trans (h : Agree p q) (h' : Agree q r) : Agree p r :=
  ⟨h.columns.trans h'.columns, fun index => (h.data index).trans (h'.data index),
    fun index => (h.length index).trans (h'.length index),
    fun index => (h.format index).trans (h'.format index)⟩

/-! ## Sections -/

theorem sent (h : Agree p q) (index : Nat) : p.sent index = q.sent index := by
  rw [Param.sent, Param.sent, h.data, h.format, h.length]

theorem formatEffect (h : Agree p q) (index : Nat) : p.formatEffect index = q.formatEffect index := by
  rw [Param.formatEffect, Param.formatEffect, h.format]

theorem columnEffects (h : Agree p q) (index : Nat) :
    p.columnEffects index = q.columnEffects index := by
  rw [Param.columnEffects, Param.columnEffects, h.sent]

theorem sectionRun_eq (h : Agree p q) : p.sectionRun = q.sectionRun := by
  rw [sectionRun, sectionRun, sectionEffects, sectionEffects, funext h.formatEffect,
    funext h.columnEffects, h.columns]

theorem completeSection_eq (h : Agree p q) : p.completeSection = q.completeSection := by
  rw [completeSection, completeSection, h.sectionRun_eq]

theorem sectionLength_eq (h : Agree p q) : p.sectionLength = q.sectionLength := by
  simp only [sectionLength, h.sent, h.columns]

/-! ## Arrays -/

theorem arrayColumn (h : Agree p q) (index : Nat) : p.arrayColumn index = q.arrayColumn index := by
  rw [Param.arrayColumn, Param.arrayColumn, h.data, h.format, h.length]

theorem arrays_eq (h : Agree p q) : p.arrays = q.arrays := by
  rw [arrays, arrays, funext h.arrayColumn, h.columns]

theorem collectEffects (h : Agree p q) (index : Nat) :
    p.collectEffects index = q.collectEffects index := by
  rw [Param.collectEffects, Param.collectEffects, h.data, h.format, h.length]

theorem arraysRun_eq (h : Agree p q) : p.arraysRun = q.arraysRun := by
  rw [arraysRun, arraysRun, funext h.collectEffects, h.columns]

end Agree

end SqlBind.Param
