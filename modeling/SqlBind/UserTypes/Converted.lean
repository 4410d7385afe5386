import SqlBind.Bindable

/-!
# User types that convert

* `Meters`, `Height`: a unit over an integer, and a chain of two conversions.
* `UserId`, `Nested`, `Email`, `Label`, `Maybe`: wrappers of one field, bound as the field.
* `Level`, `Positive`, `Pair`: conversions to text, to an optional integer and to two columns.
* `Probe`: a text whose conversion leaves a log entry.
-/

namespace SqlBind.UserTypes
set_option autoImplicit false

/-- A length in metres. -/
structure Meters where
  count : Int32

instance : Bindable Meters where
  target := .int32
  conversion m := .int32 m.count
  type_conversion _ := by rw [Value.type]

/-- A height, which is a length. -/
structure Height where
  length : Meters

instance : Bindable Height where
  target := Bindable.type Meters
  conversion h := Bindable.value h.length
  type_conversion h := Bindable.type_value h.length

/-- The number of a user. -/
structure UserId where
  number : Int32

instance : Bindable UserId where
  target := .int32
  conversion u := .int32 u.number
  type_conversion _ := by rw [Value.type]

/-- A wrapper of a wrapper. -/
structure Nested where
  user : UserId

instance : Bindable Nested where
  target := Bindable.type UserId
  conversion n := Bindable.value n.user
  type_conversion n := Bindable.type_value n.user

/-- One of two levels. -/
inductive Level where
  | low
  | high
  deriving DecidableEq, Repr

instance : Bindable Level where
  target := .string .borrowed
  conversion
    | .low => .string .borrowed "low"
    | .high => .string .borrowed "high"
  type_conversion l := by cases l <;> rw [Value.type]

/-- A number of which only zero and the positive values count. -/
structure Positive where
  number : Int64

instance : Bindable Positive where
  target := .option .int64
  conversion p := if p.number < 0 then .none .int64 else .some (.int64 p.number)
  type_conversion p := by split <;> simp [Value.type]

/-- A number and a text, side by side. -/
structure Pair where
  number : Int16
  text : String

instance : Bindable Pair where
  target := .tuple [.int16, .string .owned]
  conversion p := .tuple [.int16 p.number, .string .owned p.text]
  type_conversion _ := by simp [Value.type, Value.types]

/-- An address. -/
structure Email where
  address : String

instance : Bindable Email where
  target := .string .owned
  conversion e := .string .owned e.address
  type_conversion _ := by rw [Value.type]

/-- A text that somebody else keeps. -/
structure Label where
  text : String

instance : Bindable Label where
  target := .string .borrowed
  conversion l := .string .borrowed l.text
  type_conversion _ := by rw [Value.type]

/-- A wrapper of an optional value of any type. -/
structure Maybe (inner : ValueType) where
  content : Value
  type_content : content.type = .option inner

namespace Maybe

/-- Nothing, where a value of a type might have been. -/
def absent (inner : ValueType) : Maybe inner where
  content := .none inner
  type_content := by rw [Value.type]

/-- A value that is there. -/
def present (v : Value) : Maybe v.type where
  content := .some v
  type_content := by rw [Value.type]

end Maybe

instance (inner : ValueType) : Bindable (Maybe inner) where
  target := .option inner
  conversion m := m.content
  type_conversion m := m.type_content

/-- A text whose conversion is logged. -/
structure Probe where
  text : String

instance : Bindable Probe where
  target := .string .owned
  conversion p := .string .owned p.text
  log p := [p.text]
  type_conversion _ := by rw [Value.type]

end SqlBind.UserTypes
