import SqlBind.Proofs.Param.Columns

/-!
# Columns of the leaves

At the ends of a nested parameter stand parameters that hold their columns themselves: scalars,
missing values and parameters written outside the library.

* `Shape.leafColumns`, `Param.leafColumns`: the columns of the leaves from left to right, each as a
  leaf and a column of it.
* `Shape.map_range_ask`, `Param.answers_data`: what an accessor answers for the columns in order is
  what the leaves answer for theirs.
* `Shape.kinds`, `Param.outside`: the parts that are written outside the library; `exists_answer`:
  what they declare decides whether something is declared of every column.
-/

namespace SqlBind
set_option autoImplicit false

namespace Shape

mutual
/-- The columns at the ends of a shape, from left to right. -/
def leafColumns : Shape → List (Shape × Nat)
  | optional inner => inner.leafColumns
  | tuple children => leafColumnsAll children
  | foreign kind => (List.range kind.columns).map fun index => (foreign kind, index)
  | null => [(null, 0)]
  | text => [(text, 0)]
  | binary width => [(binary width, 0)]
def leafColumnsAll : List Shape → List (Shape × Nat)
  | [] => []
  | s :: rest => s.leafColumns ++ leafColumnsAll rest
end

mutual
/-- The kinds written outside the library. -/
def kinds : Shape → List ForeignKind
  | optional inner => inner.kinds
  | tuple children => kindsAll children
  | foreign kind => [kind]
  | _ => []
def kindsAll : List Shape → List ForeignKind
  | [] => []
  | s :: rest => s.kinds ++ kindsAll rest
end

theorem allWellFormed_iff {children : List Shape} :
    AllWellFormed children ↔ ∀ s ∈ children, s.WellFormed := by
  induction children with
  | nil => simp [AllWellFormed]
  | cons s rest ih => simp [AllWellFormed, ih]

variable {α : Type} {ask : Shape → Nat → Except Fault α}

theorem map_range_ask (h : Forwards ask) {s : Shape} (hs : s.WellFormed) :
    (List.range s.columns).map (ask s) = s.leafColumns.map fun c => ask c.1 c.2 := by
  induction s with
  | optional inner ih =>
    have hinner := ih hs.2
    rw [hs.1] at hinner
    show [ask (.optional inner) 0] = _
    rw [h.optional, leafColumns, ← hinner]
    rfl
  | tuple children ih =>
    rw [leafColumns]
    induction children with
    | nil => rfl
    | cons s rest ihrest =>
      have hfirst := ih s List.mem_cons_self hs.1
      have hlater := ihrest (fun r hr => ih r (List.mem_cons_of_mem s hr)) hs.2
      rw [columns_tuple_cons, leafColumnsAll, List.map_append, ← hfirst, ← hlater]
      exact map_range_add (fun _ => h.first) fun _ => h.later
  | foreign kind =>
    rw [leafColumns, List.map_map]
    rfl
  | _ => rfl

theorem leafColumns_answer (q : Question α) {s : Shape}
    (h : ∀ kind ∈ s.kinds, ∀ index < kind.columns, ∃ a, q.foreign kind index = .ok a) :
    ∀ c ∈ s.leafColumns, c.2 < c.1.columns ∧ ∃ a, (c.1.traced q c.2).answer = .ok a := by
  induction s with
  | optional inner ih => exact ih h
  | tuple children ih =>
    rw [leafColumns]
    induction children with
    | nil => exact List.forall_mem_nil _
    | cons s rest ihrest =>
      rw [kinds, kindsAll, List.forall_mem_append] at h
      rw [leafColumnsAll, List.forall_mem_append]
      exact ⟨ih s List.mem_cons_self h.1,
        ihrest (fun r hr => ih r (List.mem_cons_of_mem s hr)) h.2⟩
  | foreign kind =>
    intro c hc
    obtain ⟨index, hindex, rfl⟩ := List.mem_map.1 hc
    have hlt : index < kind.columns := List.mem_range.1 hindex
    exact ⟨hlt, h kind List.mem_cons_self index hlt⟩
  | _ =>
    rw [leafColumns, List.forall_mem_singleton]
    exact ⟨Nat.one_pos, _, rfl⟩

/-- If the kinds from outside declare something of the columns that they have, so does the shape. -/
theorem exists_answer (q : Question α) {s : Shape} (hs : s.WellFormed)
    (h : ∀ kind ∈ s.kinds, ∀ index < kind.columns, ∃ a, q.foreign kind index = .ok a) :
    ∀ index < s.columns, ∃ a, (s.traced q index).answer = .ok a := by
  intro index hindex
  obtain ⟨c, hget, hanswer⟩ :=
    getElem?_of_map_range (map_range_ask (forwards_traced q) hs) hindex
  obtain ⟨-, a, ha⟩ := leafColumns_answer q h c (List.mem_of_getElem? hget)
  exact ⟨a, hanswer.trans ha⟩

end Shape

/-! ## Parameters -/

namespace Param

mutual
/-- The columns at the ends of a parameter, from left to right. A missing value is an end: nothing
is behind it. -/
def leafColumns : Param → List (Param × Nat)
  | present inner => inner.leafColumns
  | tuple children => leafColumnsAll children
  | foreign param => (List.range param.kind.columns).map fun index => (foreign param, index)
  | null => [(null, 0)]
  | text value => [(text value, 0)]
  | binary bytes => [(binary bytes, 0)]
  | absent inner => [(absent inner, 0)]
def leafColumnsAll : List Param → List (Param × Nat)
  | [] => []
  | p :: rest => p.leafColumns ++ leafColumnsAll rest
end

mutual
/-- The parameters written outside the library. -/
def outside : Param → List Foreign
  | present inner => inner.outside
  | tuple children => outsideAll children
  | foreign param => [param]
  | _ => []
def outsideAll : List Param → List Foreign
  | [] => []
  | p :: rest => p.outside ++ outsideAll rest
end

theorem data_beyond {p : Param} {index : Nat} (hp : ∀ param, p ≠ .foreign param)
    (h : p.columns ≤ index) : p.data index = .error (.columnIndex p.columns index) := by
  cases p with
  | tuple ps => exact childByChild_data.beyond h
  | foreign param => exact absurd rfl (hp param)
  | _ => exact congrArg Traced.answer (Traced.after_check_of_le h _)

theorem answers_data {p : Param} (hp : p.shape.WellFormed) :
    p.answers data = p.leafColumns.map fun c => c.1.data c.2 := by
  induction p with
  | present inner ih =>
    have hinner := ih hp.2
    rw [answers_of_columns_eq_one data hp.1] at hinner
    rw [answers_of_columns_eq_one data rfl, leafColumns, ← hinner]
    rfl
  | tuple ps ih =>
    rw [leafColumns]
    induction ps with
    | nil => rfl
    | cons p ps ihps =>
      have hfirst := ih p List.mem_cons_self hp.1
      have hlater := ihps (fun q hq => ih q (List.mem_cons_of_mem p hq)) hp.2
      rw [answers_tuple_cons childByChild_data, leafColumnsAll, List.map_append, hfirst, hlater]
  | foreign param =>
    rw [leafColumns, List.map_map]
    rfl
  | _ => rfl

theorem leafColumns_answer {p : Param} (h : ∀ param ∈ p.outside, ∀ index < param.kind.columns,
      ∃ value, param.data index = .ok value) :
    ∀ c ∈ p.leafColumns, c.2 < c.1.columns ∧ ∃ value, c.1.data c.2 = .ok value := by
  induction p with
  | present inner ih => exact ih h
  | tuple ps ih =>
    rw [leafColumns]
    induction ps with
    | nil => exact List.forall_mem_nil _
    | cons p ps ihps =>
      rw [outside, outsideAll, List.forall_mem_append] at h
      rw [leafColumnsAll, List.forall_mem_append]
      exact ⟨ih p List.mem_cons_self h.1,
        ihps (fun q hq => ih q (List.mem_cons_of_mem p hq)) h.2⟩
  | foreign param =>
    intro c hc
    obtain ⟨index, hindex, rfl⟩ := List.mem_map.1 hc
    have hlt : index < param.kind.columns := List.mem_range.1 hindex
    exact ⟨hlt, h param List.mem_cons_self index hlt⟩
  | _ =>
    rw [leafColumns, List.forall_mem_singleton]
    exact ⟨Nat.one_pos, _, rfl⟩

end Param

end SqlBind
