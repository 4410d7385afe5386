import SqlBind.Value

/-!
# Induction over nested trees

Shapes, parameters, types, values and documents nest through lists, so the induction that Lean
derives for them speaks of lists too. The principles here speak of the members of such a list
instead; `induction` uses them wherever this module is imported.

* `Shape.inductionOn`, `Param.inductionOn`, `ValueType.inductionOn`, `Value.inductionOn`,
  `Json.Document.inductionOn`.
-/

namespace SqlBind
set_option autoImplicit false

@[elab_as_elim, induction_eliminator]
theorem Shape.inductionOn {motive : Shape → Prop} (null : motive .null) (text : motive .text)
    (binary : ∀ width, motive (.binary width))
    (optional : ∀ inner, motive inner → motive (.optional inner))
    (tuple : ∀ children, (∀ s ∈ children, motive s) → motive (.tuple children))
    (foreign : ∀ kind, motive (.foreign kind)) (s : Shape) : motive s := by
  refine @Shape.rec motive (fun children => ∀ s ∈ children, motive s) null text binary optional
    tuple foreign ?_ (fun _ _ h hrest => List.forall_mem_cons.2 ⟨h, hrest⟩) s
  exact List.forall_mem_nil _

@[elab_as_elim, induction_eliminator]
theorem Param.inductionOn {motive : Param → Prop} (null : motive .null)
    (text : ∀ value, motive (.text value)) (binary : ∀ bytes, motive (.binary bytes))
    (absent : ∀ inner, motive (.absent inner))
    (present : ∀ inner, motive inner → motive (.present inner))
    (tuple : ∀ children, (∀ p ∈ children, motive p) → motive (.tuple children))
    (foreign : ∀ param, motive (.foreign param)) (p : Param) : motive p := by
  refine @Param.rec motive (fun children => ∀ p ∈ children, motive p) null text binary absent
    present tuple foreign ?_ (fun _ _ h hrest => List.forall_mem_cons.2 ⟨h, hrest⟩) p
  exact List.forall_mem_nil _

@[elab_as_elim, induction_eliminator]
theorem ValueType.inductionOn {motive : ValueType → Prop} (null : motive .null)
    (bool : motive .bool) (char : motive .char) (decimal : ∀ kind, motive (.decimal kind))
    (int16 : motive .int16) (int32 : motive .int32) (int64 : motive .int64)
    (float32 : motive .float32) (float64 : motive .float64) (extended : motive .extended)
    (string : ∀ own, motive (.string own)) (ctext : ∀ own, motive (.ctext own))
    (bytes : ∀ own, motive (.bytes own)) (date : motive .date) (timestamp : motive .timestamp)
    (timestampUtc : motive .timestampUtc)
    (option : ∀ inner, motive inner → motive (.option inner))
    (ref : ∀ inner, motive inner → motive (.ref inner))
    (tuple : ∀ elements, (∀ t ∈ elements, motive t) → motive (.tuple elements))
    (json : motive .json) (converted : ∀ target, motive target → motive (.converted target))
    (foreign : ∀ kind, motive (.foreign kind)) (t : ValueType) : motive t := by
  refine @ValueType.rec motive (fun elements => ∀ t ∈ elements, motive t) null bool char decimal
    int16 int32 int64 float32 float64 extended string ctext bytes date timestamp timestampUtc
    option ref tuple json converted foreign ?_ (fun _ _ h hrest => List.forall_mem_cons.2 ⟨h, hrest⟩) t
  exact List.forall_mem_nil _

@[elab_as_elim, induction_eliminator]
theorem Value.inductionOn {motive : Value → Prop} (null : motive .null)
    (bool : ∀ b, motive (.bool b)) (char : ∀ c, motive (.char c))
    (decimal : ∀ n, motive (.decimal n)) (int16 : ∀ n, motive (.int16 n))
    (int32 : ∀ n, motive (.int32 n)) (int64 : ∀ n, motive (.int64 n))
    (float32 : ∀ bits, motive (.float32 bits)) (float64 : ∀ bits, motive (.float64 bits))
    (extended : ∀ x, motive (.extended x)) (string : ∀ own s, motive (.string own s))
    (ctext : ∀ own t, motive (.ctext own t)) (bytes : ∀ own bs, motive (.bytes own bs))
    (date : ∀ d, motive (.date d)) (timestamp : ∀ t, motive (.timestamp t))
    (timestampUtc : ∀ t, motive (.timestampUtc t)) (none : ∀ inner, motive (.none inner))
    (some : ∀ v, motive v → motive (.some v)) (ref : ∀ v, motive v → motive (.ref v))
    (tuple : ∀ vs, (∀ v ∈ vs, motive v) → motive (.tuple vs)) (json : ∀ d, motive (.json d))
    (converted : ∀ log target, motive target → motive (.converted log target))
    (foreign : ∀ param, motive (.foreign param)) (v : Value) : motive v := by
  refine @Value.rec motive (fun vs => ∀ v ∈ vs, motive v) null bool char decimal int16 int32 int64
    float32 float64 extended string ctext bytes date timestamp timestampUtc none some ref tuple
    json converted foreign ?_ (fun _ _ h hrest => List.forall_mem_cons.2 ⟨h, hrest⟩) v
  exact List.forall_mem_nil _

@[elab_as_elim, induction_eliminator]
theorem Json.Document.inductionOn {motive : Json.Document → Prop} (unit : motive .unit)
    (absent : motive .absent) (present : ∀ content, motive content → motive (.present content))
    (bool : ∀ b, motive (.bool b)) (integer : ∀ n, motive (.integer n))
    (float32 : ∀ bits, motive (.float32 bits)) (float64 : ∀ bits, motive (.float64 bits))
    (char : ∀ c, motive (.char c)) (string : ∀ s, motive (.string s))
    (bytes : ∀ bs, motive (.bytes bs))
    (array : ∀ items, (∀ d ∈ items, motive d) → motive (.array items))
    (map : ∀ entries, (∀ e ∈ entries, motive e.1 ∧ motive e.2) → motive (.map entries))
    (unitVariant : ∀ name, motive (.unitVariant name))
    (newtypeVariant : ∀ name content, motive content → motive (.newtypeVariant name content))
    (tupleVariant : ∀ name items, (∀ d ∈ items, motive d) → motive (.tupleVariant name items))
    (structVariant : ∀ name fields, (∀ f ∈ fields, motive f.2) →
      motive (.structVariant name fields))
    (wrapped : ∀ content, motive content → motive (.wrapped content))
    (failing : ∀ message, motive (.failing message)) (d : Json.Document) : motive d := by
  refine @Json.Document.rec motive (fun items => ∀ d ∈ items, motive d)
    (fun entries => ∀ e ∈ entries, motive e.1 ∧ motive e.2)
    (fun fields => ∀ f ∈ fields, motive f.2) (fun e => motive e.1 ∧ motive e.2)
    (fun f => motive f.2) unit absent present bool integer float32 float64 char string bytes array
    map unitVariant newtypeVariant tupleVariant structVariant wrapped failing
    ?_ (fun _ _ h hrest => List.forall_mem_cons.2 ⟨h, hrest⟩)
    ?_ (fun _ _ h hrest => List.forall_mem_cons.2 ⟨h, hrest⟩)
    ?_ (fun _ _ h hrest => List.forall_mem_cons.2 ⟨h, hrest⟩)
    (fun _ _ hkey hvalue => ⟨hkey, hvalue⟩) (fun _ _ h => h) d
  · exact List.forall_mem_nil _
  · exact List.forall_mem_nil _
  · exact List.forall_mem_nil _

end SqlBind
