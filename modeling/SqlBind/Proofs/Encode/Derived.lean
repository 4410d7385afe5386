import SqlBind.Derive
import SqlBind.Proofs.Encode.Conversion

/-!
# Derived conversions

The conversion that is generated for a struct copies the one field that it names. A field goes by
its name, or by its number where it has none.

* `Derive.Item.members`: what the fields of a declaration go by.
* `Derive.Implementation.convert?`: the generated conversion, carried out on the fields of a value.
* `Derive.exists_implementation_iff`: the declarations for which there is one.
* `Derive.encode_derived`: a value with a derived conversion is encoded as its field.
* `Derive.perm_ordered`: the implementation introduces every generic parameter once.
-/

namespace SqlBind.Derive
set_option autoImplicit false

/-- What the fields go by. -/
def Item.members (item : Item) : List String :=
  item.fields.mapIdx fun index field => field.name.getD (toString index)

/-- What the generated conversion makes of a value with these fields, if it has the field that is
copied. The conversion logs nothing. -/
def Implementation.convert? (impl : Implementation) (members : List String)
    (fields : List Value) : Option Value := do
  let index ← members.idxOf? impl.member
  let content ← fields[index]?
  return .converted [] content

theorem exists_implementation_iff {item : Item} :
    (∃ impl, implementation item = .ok impl) ↔ item.kind.isStruct ∧ item.fields.length = 1 := by
  by_cases hkind : item.kind.isStruct
  · rw [implementation, if_pos hkind, List.length_eq_one_iff]
    rcases item.fields with _ | ⟨field, _ | ⟨other, rest⟩⟩
    · simp
    · simp [hkind]
    · simp
  · rw [implementation, if_neg hkind]
    simp [hkind]

theorem of_implementation {item : Item} {impl : Implementation}
    (h : implementation item = .ok impl) :
    ∃ field, item.fields = [field] ∧ impl.target = field.type ∧ item.members = [impl.member] := by
  obtain ⟨hkind, hlength⟩ := exists_implementation_iff.1 ⟨impl, h⟩
  obtain ⟨field, hfields⟩ := List.length_eq_one_iff.1 hlength
  rw [implementation, if_pos hkind, hfields] at h
  cases h
  exact ⟨field, hfields, rfl, by rw [Item.members, hfields]; rfl⟩

/-- **A derived conversion is its field.** The field that the generated conversion copies is the
only one that a value of the declared type has, and its type is the target. So the value is encoded
as this field when that is given away, also where that fails, and nothing is logged on top. -/
theorem encode_derived {item : Item} {impl : Implementation} (h : implementation item = .ok impl)
    {fields : List Value} (hfields : fields.length = item.fields.length) :
    ∃ field content converted, item.fields = [field] ∧ impl.target = field.type ∧
      fields = [content] ∧ impl.convert? item.members fields = some converted ∧
      converted.ConvertsTo content ∧
      ∀ passing, converted.encode passing = content.encode .moved := by
  obtain ⟨field, hfield, htarget, hmembers⟩ := of_implementation h
  rw [hfield, List.length_singleton] at hfields
  obtain ⟨content, rfl⟩ := List.length_eq_one_iff.1 hfields
  refine ⟨field, content, .converted [] content, hfield, htarget, rfl, ?_, .user [] content,
    fun _ => rfl⟩
  simp [Implementation.convert?, hmembers]

theorem perm_ordered (generics : List Generic) : (ordered generics).Perm generics :=
  List.filter_append_perm Generic.isLifetime generics

/-- The declaration of a wrapper of one named field. -/
def userId : Item where
  kind := .namedStruct
  name := "UserId"
  fields := [⟨some "number", "i32"⟩]
  generics := []
  predicates := []

example (u : UserTypes.UserId) : ∃ impl, implementation userId = .ok impl ∧
    impl.convert? userId.members [.int32 u.number] = some (Bindable.value u) :=
  ⟨_, rfl, rfl⟩

end SqlBind.Derive
