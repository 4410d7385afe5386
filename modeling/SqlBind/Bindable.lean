import SqlBind.Value

/-!
# User types

A user type becomes bindable by saying what it converts to. The target may be a user type again.

* `Bindable α`: the conversion of a user type, and what it logs.
* `Bindable.value a`: a user value as a value that can be bound.
-/

namespace SqlBind
set_option autoImplicit false

/-- A user type that is bound as what it converts to. -/
class Bindable (α : Type) where
  target : ValueType
  conversion : α → Value
  /-- What a conversion adds to the log. -/
  log : α → List String := fun _ => []
  /-- The conversion ends in the target type. -/
  type_conversion : ∀ a, (conversion a).type = target

namespace Bindable

variable {α : Type} [Bindable α]

/-- The type of user values that can be bound. -/
def type (α : Type) [Bindable α] : ValueType :=
  .converted (target α)

/-- A user value as a value that can be bound. -/
def value (a : α) : Value :=
  .converted (log a) (conversion a)

theorem type_value (a : α) : (value a).type = type α := by
  simp [value, type, Value.type, type_conversion]

end Bindable

end SqlBind
