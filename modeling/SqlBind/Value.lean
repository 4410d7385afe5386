import SqlBind.Calendar.Date
import SqlBind.Extended
import SqlBind.Json.Document
import SqlBind.Param.Basic
import SqlBind.ValueType

/-!
# Values that can be bound

* `BoundedInt`: an integer within the range of its kind.
* `Value`: a value together with its type: a missing value says what it is that is missing.
* `Value.type`: the type.
-/

namespace SqlBind
set_option autoImplicit false

/-- An integer of a kind that is sent as decimal text. -/
structure BoundedInt where
  kind : IntKind
  val : Int
  least_le : kind.least ≤ val
  le_greatest : val ≤ kind.greatest

/-- A value that can be bound. -/
inductive Value where
  | null
  | bool (b : Bool)
  | char (c : Char)
  | decimal (n : BoundedInt)
  | int16 (n : Int16)
  | int32 (n : Int32)
  | int64 (n : Int64)
  /-- A single-precision number, as its bit pattern. -/
  | float32 (bits : UInt32)
  /-- A double-precision number, as its bit pattern. -/
  | float64 (bits : UInt64)
  | extended (x : Extended)
  | string (own : Ownership) (s : String)
  | ctext (own : Ownership) (t : CText)
  | bytes (own : Ownership) (bs : Bytes)
  | date (d : Calendar.Date)
  | timestamp (t : Calendar.Timestamp)
  | timestampUtc (t : Calendar.Timestamp)
  /-- A missing value of a type. -/
  | none (inner : ValueType)
  /-- A value that might have been missing. -/
  | some (v : Value)
  | ref (v : Value)
  | tuple (vs : List Value)
  | json (d : Json.Document)
  /-- A value of a user type, as what it converts to, and what converting it adds to the log. -/
  | converted (log : List String) (target : Value)
  /-- A parameter written outside the library, which is encoded as itself. -/
  | foreign (param : Foreign)

namespace Value

mutual
def type : Value → ValueType
  | null => .null
  | bool _ => .bool
  | char _ => .char
  | decimal n => .decimal n.kind
  | int16 _ => .int16
  | int32 _ => .int32
  | int64 _ => .int64
  | float32 _ => .float32
  | float64 _ => .float64
  | extended _ => .extended
  | string own _ => .string own
  | ctext own _ => .ctext own
  | bytes own _ => .bytes own
  | date _ => .date
  | timestamp _ => .timestamp
  | timestampUtc _ => .timestampUtc
  | none inner => .option inner
  | some v => .option v.type
  | ref v => .ref v.type
  | tuple vs => .tuple (types vs)
  | json _ => .json
  | converted _ target => .converted target.type
  | foreign param => .foreign param.kind
def types : List Value → List ValueType
  | [] => []
  | v :: rest => v.type :: types rest
end

theorem types_eq_map (values : List Value) : types values = values.map type := by
  induction values with
  | nil => rfl
  | cons v rest ih => simp [types, ih]

end Value

end SqlBind
