import SqlBind.Proofs.Param.LeafColumns
import SqlBind.UserTypes.Unchecked

/-!
# What parts are asked

* `Shape.calls_traced`, `Param.calls_tracedData`: no question that an accessor passes on goes beyond
  the columns of the part that it is put to.
* `Param.data_leaf`, `Shape.ask_leaf`: within the columns of a parameter the accessors answer what
  the leaf of the column answers.
* `accessors_in_bounds`: what the accessors answer within the columns of a parameter, what they do
  beyond them, and what they ask.
-/

namespace SqlBind
set_option autoImplicit false

/-! ## Shapes -/

namespace Shape

theorem exists_child {children : List Shape} {index : Nat} (h : index < (tuple children).columns) :
    ∃ owner s, place children index = .ok owner ∧ children[owner.child]? = some s ∧
      owner.inner < s.columns := by
  rw [columns_tuple] at h
  obtain ⟨owner, s, hlocate, hget, hlt, -⟩ :=
    exists_locate (f := fun _ _ => ()) (g := fun _ _ => ()) (fun _ => rfl) (fun _ => rfl) h
  refine ⟨owner, s, ?_, hget, hlt⟩
  rwa [place, widths_eq_map]

variable {α : Type} {q : Question α}

theorem tracedAt_of_getElem? {children : List Shape} {child : Nat} {s : Shape}
    (h : children[child]? = some s) (inner : Nat) :
    tracedAt q children child inner = .ask s inner (s.traced q inner) := by
  induction children generalizing child with
  | nil => cases h
  | cons t rest ih =>
    cases child with
    | zero =>
      cases h
      rfl
    | succ child => exact ih h

theorem exists_traced_tuple {children : List Shape} {index : Nat}
    (h : index < (tuple children).columns) :
    ∃ s ∈ children, ∃ inner < s.columns,
      (tuple children).traced q index = .ask s inner (s.traced q inner) := by
  have hcheck : checkColumn (total (widths children)) index = .ok () := checkColumn_ok h
  obtain ⟨owner, s, hplace, hget, hlt⟩ := exists_child h
  refine ⟨s, List.mem_of_getElem? hget, owner.inner, hlt, ?_⟩
  rw [traced, hcheck, Traced.after_ok, hplace, Traced.after_ok]
  exact tracedAt_of_getElem? hget owner.inner

theorem calls_traced {s : Shape} (hs : s.WellFormed) (index : Nat) :
    ∀ call ∈ (s.traced q index).calls, call.2 < call.1.columns := by
  induction s generalizing index with
  | optional inner ih =>
    rw [traced]
    by_cases hindex : 1 ≤ index
    · rw [Traced.after_check_of_le hindex]
      exact List.forall_mem_nil _
    · obtain rfl : index = 0 := by omega
      have hcolumns : 0 < inner.columns := by rw [hs.1]; exact Nat.one_pos
      exact List.forall_mem_cons.2 ⟨hcolumns, ih hs.2 0⟩
  | tuple children ih =>
    by_cases hindex : index < (tuple children).columns
    · obtain ⟨s, hmem, inner, hinner, htraced⟩ := exists_traced_tuple (q := q) hindex
      rw [htraced]
      exact List.forall_mem_cons.2 ⟨hinner, ih s hmem (allWellFormed_iff.1 hs s hmem) inner⟩
    · have hbeyond : total (widths children) ≤ index := Nat.not_lt.1 hindex
      rw [traced, Traced.after_check_of_le hbeyond]
      exact List.forall_mem_nil _
  | foreign kind => exact List.forall_mem_nil _
  | _ =>
    rw [traced, Traced.calls_after_own]
    exact List.forall_mem_nil _

end Shape

/-! ## Parameters -/

namespace Param

theorem tracedDataAt_of_getElem? {ps : List Param} {child : Nat} {p : Param}
    (h : ps[child]? = some p) (inner : Nat) :
    tracedDataAt ps child inner = .ask p inner (p.tracedData inner) := by
  induction ps generalizing child with
  | nil => cases h
  | cons q ps ih =>
    cases child with
    | zero =>
      cases h
      rfl
    | succ child => exact ih h

theorem exists_tracedData_tuple {ps : List Param} {index : Nat} (h : index < (tuple ps).columns) :
    ∃ p ∈ ps, ∃ inner < p.columns,
      (tuple ps).tracedData index = .ask p inner (p.tracedData inner) := by
  have hcheck : checkColumn (total (Shape.widths (shapes ps))) index = .ok () := checkColumn_ok h
  obtain ⟨owner, s, hplace, hget, hlt⟩ := Shape.exists_child h
  rw [shapes_eq_map, List.getElem?_map, Option.map_eq_some_iff] at hget
  obtain ⟨p, hget, rfl⟩ := hget
  refine ⟨p, List.mem_of_getElem? hget, owner.inner, hlt, ?_⟩
  rw [tracedData, hcheck, Traced.after_ok, hplace, Traced.after_ok]
  exact tracedDataAt_of_getElem? hget owner.inner

theorem wellFormed_of_mem {ps : List Param} (h : (tuple ps).shape.WellFormed) {p : Param}
    (hp : p ∈ ps) : p.shape.WellFormed := by
  have hall := Shape.allWellFormed_iff.1 h
  rw [shapes_eq_map] at hall
  exact hall p.shape (List.mem_map_of_mem hp)

theorem calls_tracedData {p : Param} (hp : p.shape.WellFormed) (index : Nat) :
    ∀ call ∈ (p.tracedData index).calls, call.2 < call.1.columns := by
  induction p generalizing index with
  | present inner ih =>
    rw [tracedData]
    by_cases hindex : 1 ≤ index
    · rw [Traced.after_check_of_le hindex]
      exact List.forall_mem_nil _
    · obtain rfl : index = 0 := by omega
      have hcolumns : 0 < inner.columns := by rw [columns, hp.1]; exact Nat.one_pos
      exact List.forall_mem_cons.2 ⟨hcolumns, ih hp.2 0⟩
  | tuple ps ih =>
    by_cases hindex : index < (tuple ps).columns
    · obtain ⟨p, hmem, inner, hinner, htraced⟩ := exists_tracedData_tuple hindex
      rw [htraced]
      exact List.forall_mem_cons.2 ⟨hinner, ih p hmem (wellFormed_of_mem hp hmem) inner⟩
    · have hbeyond : total (Shape.widths (shapes ps)) ≤ index := Nat.not_lt.1 hindex
      rw [tracedData, Traced.after_check_of_le hbeyond]
      exact List.forall_mem_nil _
  | foreign param => exact List.forall_mem_nil _
  | _ =>
    rw [tracedData, Traced.calls_after_own]
    exact List.forall_mem_nil _

theorem shape_ne_foreign {p : Param} (h : ∀ param, p ≠ .foreign param) (kind : ForeignKind) :
    p.shape ≠ .foreign kind := by
  cases p with
  | foreign param => exact absurd rfl (h param)
  | _ => exact Shape.noConfusion

theorem data_leaf {p : Param} (hp : p.shape.WellFormed)
    (h : ∀ param ∈ p.outside, ∀ index < param.kind.columns, ∃ value, param.data index = .ok value)
    {index : Nat} (hindex : index < p.columns) :
    ∃ leaf inner value, p.leafColumns[index]? = some (leaf, inner) ∧ inner < leaf.columns ∧
      p.data index = .ok value ∧ leaf.data inner = .ok value ∧
      ∀ missing, leaf = .absent missing → value = none := by
  obtain ⟨⟨leaf, inner⟩, hget, hdata⟩ := getElem?_of_map_range (answers_data hp) hindex
  obtain ⟨hlt, value, hvalue⟩ := leafColumns_answer h _ (List.mem_of_getElem? hget)
  refine ⟨leaf, inner, value, hget, hlt, hdata.trans hvalue, hvalue, ?_⟩
  rintro missing rfl
  obtain rfl : inner = 0 := Nat.lt_one_iff.1 hlt
  exact (Except.ok.inj hvalue).symm

end Param

namespace Shape

theorem ask_leaf {s : Shape} (hs : s.WellFormed)
    (h : ∀ kind ∈ s.kinds, ∀ index < kind.columns,
      (∃ length, kind.length index = .ok length) ∧ ∃ format, kind.format index = .ok format)
    {index : Nat} (hindex : index < s.columns) :
    ∃ leaf inner length format, s.leafColumns[index]? = some (leaf, inner) ∧ inner < leaf.columns ∧
      s.length index = .ok length ∧ leaf.length inner = .ok length ∧
      s.format index = .ok format ∧ leaf.format inner = .ok format := by
  obtain ⟨⟨leaf, inner⟩, hget, hlength⟩ :=
    getElem?_of_map_range (map_range_ask forwards_length hs) hindex
  obtain ⟨c, hget', hformat⟩ := getElem?_of_map_range (map_range_ask forwards_format hs) hindex
  cases hget.symm.trans hget'
  obtain ⟨hlt, length, hlengthLeaf⟩ := leafColumns_answer .length
    (fun kind hkind index hindex => (h kind hkind index hindex).1) _ (List.mem_of_getElem? hget)
  obtain ⟨-, format, hformatLeaf⟩ := leafColumns_answer .format
    (fun kind hkind index hindex => (h kind hkind index hindex).2) _ (List.mem_of_getElem? hget)
  exact ⟨leaf, inner, length, format, hget, hlt, hlength.trans hlengthLeaf, hlengthLeaf,
    hformat.trans hformatLeaf, hformatLeaf⟩

end Shape

/-- **Tuples are flat, and nothing is asked out of bounds.** A tuple has as many columns as its
children together. If the parts from outside answer for the columns that they have, every accessor
of a library parameter answers for each of its columns, and with what the leaf of that column
answers; the data of a missing value is NULL. Beyond the last column it reports the index and the
number of columns. And whatever index it is asked for, it asks each part only for columns that this
part has. -/
theorem accessors_in_bounds {p : Param} (hroot : ∀ param, p ≠ .foreign param)
    (hp : p.shape.WellFormed)
    (hdata : ∀ param ∈ p.outside, ∀ index < param.kind.columns,
      ∃ value, param.data index = .ok value)
    (hkinds : ∀ kind ∈ p.shape.kinds, ∀ index < kind.columns,
      (∃ length, kind.length index = .ok length) ∧ ∃ format, kind.format index = .ok format) :
    (∀ ps, p = .tuple ps → p.columns = total (ps.map Param.columns)) ∧
    (∀ index < p.columns,
      (∃ leaf inner value, p.leafColumns[index]? = some (leaf, inner) ∧ inner < leaf.columns ∧
        p.data index = .ok value ∧ leaf.data inner = .ok value ∧
        ∀ missing, leaf = .absent missing → value = none) ∧
      ∃ leaf inner length format, p.shape.leafColumns[index]? = some (leaf, inner) ∧
        inner < leaf.columns ∧ p.length index = .ok length ∧ leaf.length inner = .ok length ∧
        p.format index = .ok format ∧ leaf.format inner = .ok format) ∧
    (∀ index, p.columns ≤ index →
      p.data index = .error (.columnIndex p.columns index) ∧
      p.length index = .error (.columnIndex p.columns index) ∧
      p.format index = .error (.columnIndex p.columns index)) ∧
    ∀ index,
      ((p.tracedData index).answer = p.data index ∧
        ∀ call ∈ (p.tracedData index).calls, call.2 < call.1.columns) ∧
      ((p.shape.traced .length index).answer = p.length index ∧
        ∀ call ∈ (p.shape.traced .length index).calls, call.2 < call.1.columns) ∧
      ((p.shape.traced .format index).answer = p.format index ∧
        ∀ call ∈ (p.shape.traced .format index).calls, call.2 < call.1.columns) := by
  have hshape := Param.shape_ne_foreign hroot
  refine ⟨?_, ?_, ?_, ?_⟩
  · rintro ps rfl
    exact Param.columns_tuple ps
  · intro index hindex
    exact ⟨Param.data_leaf hp hdata hindex, Shape.ask_leaf hp hkinds hindex⟩
  · intro index hindex
    exact ⟨Param.data_beyond hroot hindex, Shape.forwards_length.beyond hshape hindex,
      Shape.forwards_format.beyond hshape hindex⟩
  · intro index
    exact ⟨⟨rfl, Param.calls_tracedData hp index⟩, ⟨rfl, Shape.calls_traced hp index⟩, rfl,
      Shape.calls_traced hp index⟩

/-- Five columns: two bytes, two that a part from outside counts as its own, a missing value of one
column between parts without any, and a text that is not terminated. -/
def thicket : Param :=
  .tuple [.binary [0, 7], .tuple [],
    .tuple [.foreign (UserTypes.wide 2), .absent (.tuple [.tuple [], .tuple [.binary 4]])],
    .present (.tuple [.tuple [], .foreign (UserTypes.rawText (some [97]))])]

theorem accessors_in_bounds_thicket :
    thicket.shape.WellFormed ∧ thicket.columns = 5 ∧ thicket.data 2 = .ok (some [7]) ∧
      thicket.data 3 = .ok none ∧ thicket.length 3 = .ok 4 ∧
      thicket.format 4 = .ok .text ∧ thicket.data 5 = .error (.columnIndex 5 5) ∧
      ((thicket.tracedData 4).calls.map Prod.snd = [0, 0, 0]) ∧
      ∀ call ∈ (thicket.tracedData 4).calls, call.2 < call.1.columns := by
  have hp : thicket.shape.WellFormed := by
    simp [thicket, Param.shape, Param.shapes, Shape.WellFormed, Shape.AllWellFormed, Shape.columns,
      Shape.widths, UserTypes.rawText, UserTypes.rawTextKind]
  have houtside : thicket.outside = [UserTypes.wide 2, UserTypes.rawText (some [97])] := rfl
  have hdata : ∀ param ∈ thicket.outside, ∀ index < param.kind.columns,
      ∃ value, param.data index = .ok value := by
    rw [houtside, List.forall_mem_cons, List.forall_mem_singleton]
    exact ⟨fun _ _ => ⟨_, rfl⟩, fun _ _ => ⟨_, rfl⟩⟩
  have houtsideKinds : thicket.shape.kinds = [UserTypes.wideKind 2, UserTypes.rawTextKind] := rfl
  have hkinds : ∀ kind ∈ thicket.shape.kinds, ∀ index < kind.columns,
      (∃ length, kind.length index = .ok length) ∧ ∃ format, kind.format index = .ok format := by
    rw [houtsideKinds, List.forall_mem_cons, List.forall_mem_singleton]
    exact ⟨fun _ _ => ⟨⟨_, rfl⟩, _, rfl⟩, fun _ _ => ⟨⟨_, rfl⟩, _, rfl⟩⟩
  obtain ⟨hcolumns, -, hbeyond, hcalls⟩ :=
    accessors_in_bounds (fun _ => Param.noConfusion) hp hdata hkinds
  have hfive : thicket.columns = 5 := (hcolumns _ rfl).trans rfl
  obtain ⟨hrefused, -, -⟩ := hbeyond 5 (Nat.le_of_eq hfive)
  rw [hfive] at hrefused
  exact ⟨hp, hfive, rfl, rfl, rfl, rfl, hrefused, rfl, (hcalls 4).1.2⟩

end SqlBind
