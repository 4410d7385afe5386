import Mathlib.Data.List.Forall2
import SqlBind.Param.Describe
import SqlBind.Proofs.Param.Agree
import SqlBind.Proofs.Param.Columns

/-!
# Parameters up to storage

A text column may borrow its bytes, keep them in a buffer of its own or on the heap. Nothing that is
read off a parameter tells which.

* `Param.onHeap p`: the same parameter with every text on the heap.
* `Param.Alike p q`: the two differ at most in where their texts are kept.
* `Alike.agree`, `Alike.debug_eq`, `Alike.isNull?_eq`, `Alike.rel_children?`: hence they answer
  alike, are described alike and have children that are alike.
-/

namespace SqlBind.Param
set_option autoImplicit false

mutual
/-- The same parameter with every text on the heap. -/
def onHeap : Param → Param
  | null => null
  | text value => text (.heap value.bytes)
  | binary bytes => binary bytes
  | absent inner => absent inner
  | present inner => present inner.onHeap
  | tuple children => tuple (onHeapAll children)
  | foreign param => foreign param
def onHeapAll : List Param → List Param
  | [] => []
  | p :: rest => p.onHeap :: onHeapAll rest
end

theorem onHeapAll_eq_map (ps : List Param) : onHeapAll ps = ps.map onHeap := by
  induction ps with
  | nil => rfl
  | cons p ps ih => rw [onHeapAll, ih, List.map_cons]

theorem onHeap_tuple (ps : List Param) : (tuple ps).onHeap = tuple (ps.map onHeap) := by
  rw [onHeap, onHeapAll_eq_map]

/-! ## What stays the same -/

theorem children?_onHeap (p : Param) : p.onHeap.children? = p.children?.map (List.map onHeap) := by
  cases p with
  | tuple ps => exact congrArg Param.children? (onHeap_tuple ps)
  | _ => rfl

theorem isNull?_onHeap (p : Param) : p.onHeap.isNull? = p.isNull? := by
  cases p <;> rfl

theorem debug_onHeap (p : Param) : p.onHeap.debug = p.debug := by
  induction p with
  | present inner ih => rw [onHeap, debug, debug, ih]
  | tuple ps ih =>
    have hall : (ps.map onHeap).map debug = ps.map debug := by
      rw [List.map_map]
      exact List.map_congr_left ih
    rw [onHeap_tuple, debug, debug, debugAll_eq_map, debugAll_eq_map, hall]
  | _ => rfl

theorem shapes_map_onHeap {ps : List Param} (h : ∀ p ∈ ps, p.onHeap.shape = p.shape) :
    shapes (ps.map onHeap) = shapes ps := by
  rw [shapes_eq_map, shapes_eq_map, List.map_map]
  exact List.map_congr_left h

theorem shape_onHeap (p : Param) : p.onHeap.shape = p.shape := by
  induction p with
  | present inner ih => rw [onHeap, shape, shape, ih]
  | tuple ps ih => rw [onHeap_tuple, shape, shape, shapes_map_onHeap ih]
  | _ => rfl

theorem answer_tracedDataAt_map_onHeap {ps : List Param}
    (h : ∀ p ∈ ps, ∀ index, p.onHeap.data index = p.data index) (child inner : Nat) :
    (tracedDataAt (ps.map onHeap) child inner).answer = (tracedDataAt ps child inner).answer := by
  induction ps generalizing child with
  | nil => rfl
  | cons p ps ih =>
    cases child with
    | zero => exact h p List.mem_cons_self inner
    | succ child => exact ih (fun q hq => h q (List.mem_cons_of_mem p hq)) child

theorem data_onHeap (p : Param) (index : Nat) : p.onHeap.data index = p.data index := by
  induction p generalizing index with
  | present inner ih => rw [onHeap, data_present, data_present, ih]
  | tuple ps ih =>
    rw [onHeap_tuple, data_tuple, data_tuple, shapes_map_onHeap fun p _ => shape_onHeap p]
    simp only [answer_tracedDataAt_map_onHeap ih]
  | _ => rfl

theorem agree_onHeap (p : Param) : p.onHeap.Agree p where
  columns := congrArg Shape.columns (shape_onHeap p)
  data := data_onHeap p
  length index := congrArg (Shape.length · index) (shape_onHeap p)
  format index := congrArg (Shape.format · index) (shape_onHeap p)

/-! ## Parameters that are alike -/

/-- The two parameters differ at most in where their texts are kept. -/
def Alike (p q : Param) : Prop :=
  p.onHeap = q.onHeap

namespace Alike

variable {p q : Param}

theorem agree (h : p.Alike q) : p.Agree q := by
  have hq := agree_onHeap q
  rw [← h] at hq
  exact (agree_onHeap p).symm.trans hq

theorem isNull?_eq (h : p.Alike q) : p.isNull? = q.isNull? := by
  rw [← isNull?_onHeap p, h, isNull?_onHeap]

theorem debug_eq (h : p.Alike q) : p.debug = q.debug := by
  rw [← debug_onHeap p, h, debug_onHeap]

theorem forall₂_of_map {ps qs : List Param} (h : ps.map onHeap = qs.map onHeap) :
    List.Forall₂ Alike ps qs := by
  rw [← List.forall₂_eq_eq_eq, List.forall₂_map_left_iff, List.forall₂_map_right_iff] at h
  exact h

/-- Either both are tuples, with as many children that are alike one by one, or neither is. -/
theorem rel_children? (h : p.Alike q) :
    Option.Rel (List.Forall₂ Alike) p.children? q.children? := by
  have hchildren := congrArg Param.children? h
  rw [children?_onHeap, children?_onHeap] at hchildren
  cases hp : p.children? with
  | none =>
    cases hq : q.children? with
    | none => exact .none
    | some qs => simp [hp, hq] at hchildren
  | some ps =>
    cases hq : q.children? with
    | none => simp [hp, hq] at hchildren
    | some qs =>
      rw [hp, hq] at hchildren
      exact .some (forall₂_of_map (Option.some.inj hchildren))

end Alike

end SqlBind.Param
