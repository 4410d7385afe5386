import SqlBind.Proofs.Param.Agree
import SqlBind.Proofs.Param.Columns

/-!
# The leaves of a parameter

* `Param.leaves`: the parameters at the ends of nested tuples, from left to right.
* `answers_leaves`: every accessor answers for the columns of the leaves, in that order.
* `agree_of_leavesAll`: tuples of the same leaves answer alike.
-/

namespace SqlBind.Param
set_option autoImplicit false

mutual
/-- The parameters at the ends of nested tuples, from left to right. -/
def leaves : Param → List Param
  | tuple children => leavesAll children
  | null => [null]
  | text value => [text value]
  | binary bytes => [binary bytes]
  | absent inner => [absent inner]
  | present inner => [present inner]
  | foreign param => [foreign param]
def leavesAll : List Param → List Param
  | [] => []
  | p :: rest => p.leaves ++ leavesAll rest
end

theorem leavesAll_eq_flatMap (ps : List Param) : leavesAll ps = ps.flatMap leaves := by
  induction ps with
  | nil => rfl
  | cons p ps ih => rw [leavesAll, ih, List.flatMap_cons]

theorem leavesAll_append (ps qs : List Param) :
    leavesAll (ps ++ qs) = leavesAll ps ++ leavesAll qs := by
  simp only [leavesAll_eq_flatMap, List.flatMap_append]

variable {α : Type} {read : Param → Nat → Except Fault α}

theorem answers_leaves (h : ChildByChild read) (p : Param) :
    p.answers read = p.leaves.flatMap (answers read) := by
  induction p with
  | tuple ps ih =>
    rw [answers_tuple h, leaves, leavesAll_eq_flatMap, List.flatMap_assoc, List.flatMap_def,
      List.flatMap_def, List.map_congr_left ih]
  | _ => exact (List.append_nil _).symm

/-! ## Tuples of the same leaves -/

variable {ps qs : List Param}

theorem answers_eq_of_leavesAll (hread : ChildByChild read) (h : leavesAll ps = leavesAll qs) :
    (tuple ps).answers read = (tuple qs).answers read := by
  rw [answers_leaves hread, answers_leaves hread, leaves, leaves, h]

theorem columns_eq_of_leavesAll (h : leavesAll ps = leavesAll qs) :
    (tuple ps).columns = (tuple qs).columns := by
  have hanswers := answers_eq_of_leavesAll childByChild_data h
  rw [← length_answers data (tuple ps), hanswers, length_answers]

theorem read_eq_of_leavesAll (hread : ChildByChild read) (h : leavesAll ps = leavesAll qs)
    (index : Nat) : read (tuple ps) index = read (tuple qs) index := by
  have hcolumns := columns_eq_of_leavesAll h
  by_cases hindex : index < (tuple ps).columns
  · have hget := getElem?_answers read hindex
    rw [answers_eq_of_leavesAll hread h, getElem?_answers read (hcolumns ▸ hindex)] at hget
    exact (Option.some.inj hget).symm
  · have hbeyond : (tuple ps).columns ≤ index := Nat.not_lt.1 hindex
    rw [hread.beyond hbeyond, hread.beyond (hcolumns ▸ hbeyond), hcolumns]

/-- **Grouping does not show.** Tuples of the same leaves answer alike, however deep the leaves are.
-/
theorem agree_of_leavesAll (h : leavesAll ps = leavesAll qs) : (tuple ps).Agree (tuple qs) where
  columns := columns_eq_of_leavesAll h
  data := read_eq_of_leavesAll childByChild_data h
  length := read_eq_of_leavesAll childByChild_length h
  format := read_eq_of_leavesAll childByChild_format h

end SqlBind.Param
