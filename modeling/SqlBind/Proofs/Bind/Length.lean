import SqlBind.Proofs.Param.Columns

/-!
# The length of a section

* `sectionLength_eq`: the length is summed over what is sent for the columns.
* `sectionLength_eq_ok`: if something is sent for every column, the length is two counts, a format
  code for each column, and for each column a length field and its value.
* `sectionLength_tuple`: how the length of a tuple comes from those of its children.
-/

namespace SqlBind.Param
set_option autoImplicit false

/-- Adds what a column takes to the size of those before it. -/
def addSize (size : Nat) (value : Except Fault (Option Bytes)) : Except Fault Nat := do
  return size + (4 + valueSize (← value))

theorem sectionLength_eq (p : Param) :
    p.sectionLength = (p.answers sent).foldlM addSize (2 + 2 * p.columns + 2) := by
  rw [answers, List.foldlM_map]
  rfl

theorem foldlM_addSize (values : List (Option Bytes)) (size : Nat) :
    (values.map Except.ok).foldlM addSize size =
      .ok (size + total (values.map fun value => 4 + valueSize value)) := by
  induction values generalizing size with
  | nil => rfl
  | cons value rest ih =>
    rw [List.map_cons, List.foldlM_cons, List.map_cons, total_cons, ← Nat.add_assoc]
    exact ih _

theorem sectionLength_eq_ok {p : Param} {values : List (Option Bytes)}
    (h : p.answers sent = values.map .ok) :
    p.sectionLength =
      .ok (4 + 2 * p.columns + total (values.map fun value => 4 + valueSize value)) := by
  have hstart : 2 + 2 * p.columns + 2 = 4 + 2 * p.columns := by omega
  rw [sectionLength_eq, h, foldlM_addSize, hstart]

/-- **Lengths add up.** Without their two counts each, the lengths of the sections of the children
add up to that of the tuple. -/
theorem sectionLength_tuple {ps : List Param} {values : List (Option Bytes)}
    (h : (tuple ps).answers sent = values.map .ok) :
    ∃ sizes : List Nat, ps.map sectionLength = sizes.map .ok ∧ (∀ size ∈ sizes, 4 ≤ size) ∧
      (tuple ps).sectionLength = .ok (4 + total (sizes.map (· - 4))) := by
  induction ps generalizing values with
  | nil => exact ⟨[], rfl, by simp, rfl⟩
  | cons p rest ih =>
    have hlength := sectionLength_eq_ok h
    rw [answers_tuple_cons childByChild_sent] at h
    obtain ⟨first, later, rfl, hfirst, hlater⟩ := List.map_eq_append_iff.1 h.symm
    obtain ⟨sizes, hsizes, hcounts, hrest⟩ := ih hlater.symm
    have hfirstLength := sectionLength_eq_ok hfirst.symm
    have hlaterLength := hrest.symm.trans (sectionLength_eq_ok hlater.symm)
    have hsum := Except.ok.inj hlaterLength
    refine ⟨(4 + 2 * p.columns + total (first.map fun value => 4 + valueSize value)) :: sizes,
      ?_, ?_, ?_⟩
    · rw [List.map_cons, hfirstLength, hsizes, List.map_cons]
    · intro size hsize
      rcases List.mem_cons.1 hsize with rfl | hsize
      · omega
      · exact hcounts size hsize
    · rw [hlength, columns_tuple_cons, List.map_append, total_append, List.map_cons,
        total_cons]
      exact congrArg Except.ok (by omega)

end SqlBind.Param
