import SqlBind.Shape.Basic

/-!
# Types that can be bound

* `Ownership`: whether a text or byte value is kept by itself or by somebody else.
* `IntKind`: the integers that are sent as decimal text, with the range of each.
* `ValueType`: the types of values that can be bound.
* `ValueType.shape`: the shape of the parameter that a type is encoded as.
-/

namespace SqlBind
set_option autoImplicit false

/-- Who keeps the storage behind a value. -/
inductive Ownership where
  /-- The value itself. -/
  | owned
  /-- Somebody who outlives the value. -/
  | borrowed
  deriving DecidableEq, Repr

/-- The integers that are sent as decimal text: a binary form would need a column type of the same
width and sign, and there is none. -/
inductive IntKind where
  | int8
  | uint8
  | uint16
  | uint32
  | uint64
  | int128
  | uint128
  /-- A signed machine word of 64 bits. -/
  | intSize
  /-- An unsigned machine word of 64 bits. -/
  | uintSize
  deriving DecidableEq, Repr

namespace IntKind

def least : IntKind → Int
  | int8 => -2 ^ 7
  | int128 => -2 ^ 127
  | intSize => -2 ^ 63
  | uint8 | uint16 | uint32 | uint64 | uint128 | uintSize => 0

def greatest : IntKind → Int
  | int8 => 2 ^ 7 - 1
  | uint8 => 2 ^ 8 - 1
  | uint16 => 2 ^ 16 - 1
  | uint32 => 2 ^ 32 - 1
  | uint64 => 2 ^ 64 - 1
  | int128 => 2 ^ 127 - 1
  | uint128 => 2 ^ 128 - 1
  | intSize => 2 ^ 63 - 1
  | uintSize => 2 ^ 64 - 1

end IntKind

/-- The types of values that can be bound. -/
inductive ValueType where
  | null
  | bool
  | char
  /-- Integers that are sent as decimal text. -/
  | decimal (kind : IntKind)
  | int16
  | int32
  | int64
  | float32
  | float64
  /-- Double-precision numbers that are sent as decimal text. -/
  | extended
  | string (own : Ownership)
  /-- Text that is known to hold no nul and need not be UTF-8. -/
  | ctext (own : Ownership)
  | bytes (own : Ownership)
  | date
  | timestamp
  /-- Timestamps in universal time. -/
  | timestampUtc
  | option (inner : ValueType)
  | ref (inner : ValueType)
  | tuple (elements : List ValueType)
  | json
  /-- User types that are bound as what they convert to. -/
  | converted (target : ValueType)
  /-- Types whose values are parameters written outside the library. -/
  | foreign (kind : ForeignKind)

namespace ValueType

mutual
/-- The shape of the parameter that a type is encoded as. -/
def shape : ValueType → Shape
  | null => .null
  | bool => .text
  | char => .text
  | decimal _ => .text
  | int16 => .binary 2
  | int32 => .binary 4
  | int64 => .binary 8
  | float32 => .binary 4
  | float64 => .binary 8
  | extended => .text
  | string _ => .text
  | ctext _ => .text
  | bytes _ => .text
  | date => .text
  | timestamp => .text
  | timestampUtc => .text
  | option inner => .optional inner.shape
  | ref inner => inner.shape
  | tuple elements => .tuple (shapes elements)
  | json => .text
  | converted target => target.shape
  | foreign kind => .foreign kind
def shapes : List ValueType → List Shape
  | [] => []
  | t :: rest => t.shape :: shapes rest
end

theorem shapes_eq_map (types : List ValueType) : shapes types = types.map shape := by
  induction types with
  | nil => rfl
  | cons t rest ih => simp [shapes, ih]

/-- The number of columns that values of a type fill. -/
def columns (t : ValueType) : Nat :=
  t.shape.columns

end ValueType

end SqlBind
