import SqlBind.Bind.Sent
import SqlBind.Proofs.Induction
import SqlBind.Proofs.Shape.Place

/-!
# The columns of a tuple

A tuple answers for its columns child by child: a column of the first child is answered by that
child, a later one by the tuple of the other children.

* `Shape.Forwards`: an accessor of shapes that passes questions on; `forwards_traced`: so do all that
  are answered by `Shape.traced`.
* `Param.ChildByChild`: an accessor that reads tuples in this way; `childByChild_data`,
  `childByChild_length`, `childByChild_format` and `childByChild_sent` are the accessors that do.
* `Param.answers read p`: what an accessor answers for every column in order; `answers_tuple` joins
  the answers of the children.
-/

namespace SqlBind
set_option autoImplicit false

theorem map_range_add {β : Type} {m n : Nat} {f g h : Nat → β} (hfirst : ∀ i < m, f i = g i)
    (hlater : ∀ i < n, f (m + i) = h i) :
    (List.range (m + n)).map f = (List.range m).map g ++ (List.range n).map h := by
  rw [List.range_add, List.map_append, List.map_map]
  congr 1
  · exact List.map_congr_left fun i hi => hfirst i (List.mem_range.1 hi)
  · exact List.map_congr_left fun i hi => hlater i (List.mem_range.1 hi)

theorem getElem?_of_map_range {β γ : Type} {n : Nat} {f : Nat → β} {cs : List γ} {g : γ → β}
    (h : (List.range n).map f = cs.map g) {i : Nat} (hi : i < n) :
    ∃ c, cs[i]? = some c ∧ f i = g c := by
  have hget : ((List.range n).map f)[i]? = some (f i) := by simp [hi]
  rw [h, List.getElem?_map] at hget
  obtain ⟨c, hc, heq⟩ := Option.map_eq_some_iff.1 hget
  exact ⟨c, hc, heq.symm⟩

theorem eq_of_getElem?_of_map_range {β γ : Type} {n : Nat} {f : Nat → β} {cs : List γ} {g : γ → β}
    (h : (List.range n).map f = cs.map g) {i : Nat} {c : γ} (hc : cs[i]? = some c) : f i = g c := by
  have hlength : n = cs.length := by simpa using congrArg List.length h
  have hi : i < n := hlength ▸ (List.getElem?_eq_some_iff.1 hc).1
  obtain ⟨c', hc', heq⟩ := getElem?_of_map_range h hi
  rw [hc] at hc'
  cases hc'
  exact heq

/-- A question for a column that is not there ends with the check of its index. -/
theorem checkColumn_bind_of_le {β : Type} {columns index : Nat} (h : columns ≤ index)
    (next : Unit → Except Fault β) :
    (checkColumn columns index >>= next) = .error (.columnIndex columns index) := by
  rw [checkColumn_error (Nat.not_lt.2 h)]
  rfl

/-! ## Shapes -/

namespace Shape

theorem columns_tuple (children : List Shape) :
    (tuple children).columns = total (children.map columns) := by
  rw [columns, widths_eq_map]

theorem columns_tuple_cons (s : Shape) (rest : List Shape) :
    (tuple (s :: rest)).columns = s.columns + (tuple rest).columns := by
  simp [columns_tuple]

theorem place_cons_lt {s : Shape} {index : Nat} (rest : List Shape) (h : index < s.columns) :
    place (s :: rest) index = .ok ⟨0, index⟩ :=
  locate_cons_lt (widths rest) h

theorem place_cons_add (s : Shape) (rest : List Shape) (index : Nat) :
    place (s :: rest) (s.columns + index) = (place rest index).map Place.next :=
  locate_cons_add s.columns (widths rest) index

/-- How a tuple answers for a column: the index is checked, then the column's place is asked. -/
def dispatch {β : Type} (children : List Shape) (index : Nat) (ask : Place → Except Fault β) :
    Except Fault β := do
  checkColumn (tuple children).columns index
  let owner ← place children index
  ask owner

theorem dispatch_cons_lt {β : Type} {s : Shape} {index : Nat} (rest : List Shape)
    (ask : Place → Except Fault β) (h : index < s.columns) :
    dispatch (s :: rest) index ask = ask ⟨0, index⟩ := by
  have htotal : index < (tuple (s :: rest)).columns := by
    rw [columns_tuple_cons]
    omega
  rw [dispatch, checkColumn_ok htotal, place_cons_lt rest h]
  rfl

theorem dispatch_cons_add {β : Type} {index : Nat} (s : Shape) (rest : List Shape)
    (ask : Place → Except Fault β) (h : index < (tuple rest).columns) :
    dispatch (s :: rest) (s.columns + index) ask = dispatch rest index (ask ∘ Place.next) := by
  have htotal : s.columns + index < (tuple (s :: rest)).columns := by
    rw [columns_tuple_cons]
    omega
  rw [dispatch, dispatch, checkColumn_ok htotal, checkColumn_ok h, place_cons_add]
  cases place rest index <;> rfl

theorem dispatch_of_le {β : Type} {children : List Shape} {index : Nat}
    (ask : Place → Except Fault β) (h : (tuple children).columns ≤ index) :
    dispatch children index ask = .error (.columnIndex (tuple children).columns index) :=
  checkColumn_bind_of_le h fun _ => place children index >>= ask

/-- An accessor that passes a question on: an optional parameter asks what it wraps, and a tuple the
child whose column it is. A parameter of the library refuses a column that it does not have. -/
structure Forwards {α : Type} (ask : Shape → Nat → Except Fault α) : Prop where
  optional : ∀ inner, ask (.optional inner) 0 = ask inner 0
  first : ∀ {s : Shape} {rest : List Shape} {index : Nat}, index < s.columns →
    ask (.tuple (s :: rest)) index = ask s index
  later : ∀ {s : Shape} {rest : List Shape} {index : Nat}, index < (tuple rest).columns →
    ask (.tuple (s :: rest)) (s.columns + index) = ask (.tuple rest) index
  beyond : ∀ {s : Shape} {index : Nat}, (∀ kind, s ≠ .foreign kind) → s.columns ≤ index →
    ask s index = .error (.columnIndex s.columns index)

section

variable {α : Type} (q : Question α)

theorem answer_tuple (children : List Shape) (index : Nat) :
    ((tuple children).traced q index).answer =
      dispatch children index fun owner =>
        (tracedAt q children owner.child owner.inner).answer := by
  rw [traced, Traced.answer_after]
  simp only [Traced.answer_after]
  rfl

theorem forwards_traced : Forwards fun s index => (s.traced q index).answer where
  optional _ := rfl
  first := by
    intro s rest index h
    rw [answer_tuple, dispatch_cons_lt _ _ h]
    rfl
  later := by
    intro s rest index h
    rw [answer_tuple, answer_tuple]
    exact dispatch_cons_add s rest _ h
  beyond := by
    intro s index hs h
    cases s with
    | foreign kind => exact absurd rfl (hs kind)
    | _ => exact congrArg Traced.answer (Traced.after_check_of_le h _)

end

theorem forwards_length : Forwards length :=
  forwards_traced .length

theorem forwards_format : Forwards format :=
  forwards_traced .format

end Shape

/-! ## Parameters -/

namespace Param

theorem columns_tuple (ps : List Param) : (tuple ps).columns = total (ps.map columns) := by
  rw [columns, shape, Shape.columns_tuple, shapes_eq_map, List.map_map]
  rfl

theorem columns_tuple_cons (p : Param) (ps : List Param) :
    (tuple (p :: ps)).columns = p.columns + (tuple ps).columns := by
  simp [columns_tuple]

theorem data_present (inner : Param) (index : Nat) :
    (present inner).data index = checkColumn 1 index >>= fun _ => inner.data index := by
  rw [data, tracedData, Traced.answer_after]
  rfl

theorem data_tuple (ps : List Param) (index : Nat) :
    (tuple ps).data index =
      Shape.dispatch (shapes ps) index fun owner =>
        (tracedDataAt ps owner.child owner.inner).answer := by
  rw [data, tracedData, Traced.answer_after]
  simp only [Traced.answer_after]
  rfl

/-- An accessor reads tuples child by child: a column of the first child is read from that child,
a later one from the tuple of the others, and beyond the last column there is a fault. -/
structure ChildByChild {α : Type} (read : Param → Nat → Except Fault α) : Prop where
  first : ∀ {p : Param} {ps : List Param} {index : Nat}, index < p.columns →
    read (.tuple (p :: ps)) index = read p index
  later : ∀ {p : Param} {ps : List Param} {index : Nat}, index < (tuple ps).columns →
    read (.tuple (p :: ps)) (p.columns + index) = read (.tuple ps) index
  beyond : ∀ {ps : List Param} {index : Nat}, (tuple ps).columns ≤ index →
    read (.tuple ps) index = .error (.columnIndex (tuple ps).columns index)

theorem childByChild_data : ChildByChild data where
  first := by
    intro p ps index h
    rw [data_tuple, shapes, Shape.dispatch_cons_lt _ _ h]
    rfl
  later := by
    intro p ps index h
    rw [data_tuple, data_tuple, shapes]
    exact Shape.dispatch_cons_add p.shape (shapes ps) _ h
  beyond := by
    intro ps index h
    rw [data_tuple]
    exact Shape.dispatch_of_le _ h

/-- What a shape forwards, its parameters read child by child. -/
theorem ChildByChild.of_forwards {α : Type} {ask : Shape → Nat → Except Fault α}
    (h : Shape.Forwards ask) : ChildByChild fun p index => ask p.shape index where
  first := h.first
  later := h.later
  beyond := h.beyond fun _ => Shape.noConfusion

theorem childByChild_length : ChildByChild length :=
  .of_forwards Shape.forwards_length

theorem childByChild_format : ChildByChild format :=
  .of_forwards Shape.forwards_format

theorem childByChild_sent : ChildByChild sent where
  first := by
    intro p ps index h
    rw [sent, sent, childByChild_data.first h, childByChild_format.first h,
      childByChild_length.first h]
  later := by
    intro p ps index h
    rw [sent, sent, childByChild_data.later h, childByChild_format.later h,
      childByChild_length.later h]
  beyond := by
    intro ps index h
    rw [sent, childByChild_data.beyond h]
    rfl

/-! ## All answers of an accessor -/

theorem exists_eq_map_ok {α ε : Type} {results : List (Except ε α)}
    (h : ∀ r ∈ results, ∃ a, r = .ok a) : ∃ as : List α, results = as.map .ok := by
  induction results with
  | nil => exact ⟨[], rfl⟩
  | cons r rest ih =>
    obtain ⟨a, rfl⟩ := h r List.mem_cons_self
    obtain ⟨as, rfl⟩ := ih fun r hr => h r (List.mem_cons_of_mem _ hr)
    exact ⟨a :: as, rfl⟩

theorem map_eq_of_map_eq {α β γ δ : Type} {f : α → β} {c : γ → β} {g : α → δ} {k : γ → δ}
    {as : List α} {cs : List γ} (h : as.map f = cs.map c)
    (hstep : ∀ a, ∀ x ∈ cs, f a = c x → g a = k x) : as.map g = cs.map k := by
  induction as generalizing cs with
  | nil =>
    rw [List.map_nil, eq_comm, List.map_eq_nil_iff] at h
    rw [h]
    rfl
  | cons a as ih =>
    cases cs with
    | nil => cases h
    | cons x cs =>
      obtain ⟨hhead, htail⟩ := List.cons.inj h
      have hrest := ih htail fun a y hy => hstep a y (List.mem_cons_of_mem x hy)
      rw [List.map_cons, List.map_cons, hstep a x List.mem_cons_self hhead, hrest]

variable {β : Type} {read : Param → Nat → β}

/-- What an accessor answers for the columns of a parameter, in order. -/
def answers (read : Param → Nat → β) (p : Param) : List β :=
  (List.range p.columns).map (read p)

@[simp] theorem length_answers (read : Param → Nat → β) (p : Param) :
    (p.answers read).length = p.columns := by
  simp [answers]

theorem answers_of_columns_eq_one (read : Param → Nat → β) {p : Param} (h : p.columns = 1) :
    p.answers read = [read p 0] := by
  rw [answers, h]
  rfl

theorem getElem?_answers (read : Param → Nat → β) {p : Param} {index : Nat} (h : index < p.columns) :
    (p.answers read)[index]? = some (read p index) := by
  simp [answers, h]

theorem mem_answers {p : Param} {answer : β} :
    answer ∈ p.answers read ↔ ∃ index < p.columns, read p index = answer := by
  simp [answers]

theorem exists_answers {α : Type} {read : Param → Nat → Except Fault α} {p : Param} :
    (∃ as : List α, p.answers read = as.map .ok) ↔
      ∀ index < p.columns, ∃ a, read p index = .ok a := by
  constructor
  · rintro ⟨as, has⟩ index hindex
    have hmem : read p index ∈ as.map Except.ok := has ▸ mem_answers.2 ⟨index, hindex, rfl⟩
    obtain ⟨a, _, ha⟩ := List.mem_map.1 hmem
    exact ⟨a, ha.symm⟩
  · intro h
    apply exists_eq_map_ok
    intro answer hanswer
    obtain ⟨index, hindex, rfl⟩ := mem_answers.1 hanswer
    exact h index hindex

theorem mem_of_answers {α : Type} {read : Param → Nat → Except Fault α} {p : Param} {as : List α}
    (h : p.answers read = as.map .ok) {a : α} :
    a ∈ as ↔ ∃ index < p.columns, read p index = .ok a := by
  rw [← mem_answers, h]
  simp

theorem getElem?_of_answers {α : Type} {read : Param → Nat → Except Fault α} {p : Param}
    {as : List α} (h : p.answers read = as.map .ok) {index : Nat} (hindex : index < p.columns) :
    ∃ a, as[index]? = some a ∧ read p index = .ok a :=
  getElem?_of_map_range h hindex

theorem length_of_answers {α : Type} {read : Param → Nat → Except Fault α} {p : Param}
    {as : List α} (h : p.answers read = as.map .ok) : as.length = p.columns := by
  rw [← length_answers read p, h, List.length_map]

theorem eq_of_answers {α : Type} {read : Param → Nat → Except Fault α} {p : Param} {as bs : List α}
    (h : p.answers read = as.map .ok) (h' : p.answers read = bs.map .ok) : as = bs :=
  (List.map_inj_right fun _ _ => Except.ok.inj).1 (h.symm.trans h')

variable {α : Type} {ask : Param → Nat → Except Fault α}

theorem answers_tuple_cons (h : ChildByChild ask) (p : Param) (ps : List Param) :
    (tuple (p :: ps)).answers ask = p.answers ask ++ (tuple ps).answers ask := by
  rw [answers, columns_tuple_cons]
  exact map_range_add (fun _ => h.first) fun _ => h.later

theorem answers_tuple (h : ChildByChild ask) (ps : List Param) :
    (tuple ps).answers ask = ps.flatMap (answers ask) := by
  induction ps with
  | nil => rfl
  | cons p ps ih => rw [answers_tuple_cons h, ih, List.flatMap_cons]

end Param

end SqlBind
