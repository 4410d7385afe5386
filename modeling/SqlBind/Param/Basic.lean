import SqlBind.Shape.Basic
import SqlBind.Text.Stored

/-!
# Encoded parameters

* `Foreign`: a parameter written outside the library.
* `Param`: an encoded parameter. It knows its shape also where a value is missing.
* `Param.shape`, `Param.columns`, `Param.length`, `Param.format`: what it declares.
* `Param.data p i`: the bytes of column `i`, or none for NULL; `Param.tracedData` keeps a record of
  the parts that are asked for them.
* `Param.isNull?`, `Param.children?`: what optional parameters and tuples tell about themselves.
-/

namespace SqlBind
set_option autoImplicit false

/-- A parameter written outside the library: what its kind declares, the bytes of its columns, and
its description for diagnostics. -/
structure Foreign where
  kind : ForeignKind
  /-- The bytes of a column, or none for NULL. -/
  data : Nat → Except Fault (Option Bytes)
  debug : Debug

/-- An encoded parameter. -/
inductive Param where
  | null
  /-- A text column, its terminating nul included. -/
  | text (value : StoredText)
  | binary (bytes : Bytes)
  /-- An optional parameter without a value, of which the shape is known. -/
  | absent (inner : Shape)
  /-- An optional parameter with a value. -/
  | present (inner : Param)
  /-- Parameters side by side. -/
  | tuple (children : List Param)
  | foreign (param : Foreign)

namespace Param

mutual
def shape : Param → Shape
  | null => .null
  | text _ => .text
  | binary bytes => .binary bytes.length
  | absent inner => .optional inner
  | present inner => .optional inner.shape
  | tuple children => .tuple (shapes children)
  | foreign param => .foreign param.kind
def shapes : List Param → List Shape
  | [] => []
  | p :: rest => p.shape :: shapes rest
end

theorem shapes_eq_map (params : List Param) : shapes params = params.map shape := by
  induction params with
  | nil => rfl
  | cons p rest ih => simp [shapes, ih]

def columns (p : Param) : Nat :=
  p.shape.columns

def length (p : Param) (index : Nat) : Except Fault Int32 :=
  p.shape.length index

def format (p : Param) (index : Nat) : Except Fault Format :=
  p.shape.format index

mutual
/-- The bytes of a column, or none for NULL, with a record of the parts that are asked for them. -/
def tracedData : Param → Nat → Traced Param (Option Bytes)
  | null, index => .after (checkColumn 1 index) fun _ => .own (.ok none)
  | text value, index => .after (checkColumn 1 index) fun _ => .own (.ok (some value.bytes))
  | binary bytes, index => .after (checkColumn 1 index) fun _ => .own (.ok (some bytes))
  | absent _, index => .after (checkColumn 1 index) fun _ => .own (.ok none)
  | present inner, index =>
    .after (checkColumn 1 index) fun _ => .ask inner index (inner.tracedData index)
  | tuple children, index =>
    .after (checkColumn (total (Shape.widths (shapes children))) index) fun _ =>
      .after (Shape.place (shapes children) index) fun owner =>
        tracedDataAt children owner.child owner.inner
  | foreign param, index => .own (param.data index)
def tracedDataAt : List Param → Nat → Nat → Traced Param (Option Bytes)
  | [], _, _ => .own (.error .noChild)
  | p :: _, 0, inner => .ask p inner (p.tracedData inner)
  | _ :: rest, child + 1, inner => tracedDataAt rest child inner
end

/-- The bytes of a column, or none for NULL. -/
def data (p : Param) (index : Nat) : Except Fault (Option Bytes) :=
  (p.tracedData index).answer

/-- Whether an optional parameter is without a value; nothing for other parameters. A value that is
itself missing still is a value. -/
def isNull? : Param → Option Bool
  | absent _ => some true
  | present _ => some false
  | _ => none

/-- The children of a tuple; nothing for other parameters. -/
def children? : Param → Option (List Param)
  | tuple children => some children
  | _ => none

end Param

end SqlBind
