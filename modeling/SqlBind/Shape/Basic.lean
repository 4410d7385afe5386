import SqlBind.Debug
import SqlBind.Format
import SqlBind.Shape.Traced

/-!
# Shapes of parameters

A statement is prepared before any value is known, so the number of columns of a parameter, and the
length and format of each, are fixed by its shape.

* `ForeignKind`: what a parameter kind written outside the library declares about its columns.
* `Shape`: the shape of a parameter.
* `Shape.columns`: how many columns it fills; those of a tuple are those of its children in order.
* `Question`: something that is declared of every column; `Shape.traced` answers it, with a record
  of the parts that are asked.
* `Shape.length`, `Shape.format`: the declared length and format of a column.
* `Shape.WellFormed`: optional parameters wrap one column each.
-/

namespace SqlBind
set_option autoImplicit false

/-- What a parameter kind written outside the library declares about its columns. Nothing obliges it
to refuse a column that it does not have. -/
structure ForeignKind where
  columns : Nat
  length : Nat → Except Fault Int32
  format : Nat → Except Fault Format

/-- What is known of a parameter before its value. -/
inductive Shape where
  /-- The missing value: one text column. -/
  | null
  | text
  /-- One binary column of a fixed number of bytes. -/
  | binary (width : Nat)
  /-- A parameter that may be missing. -/
  | optional (inner : Shape)
  | tuple (children : List Shape)
  | foreign (kind : ForeignKind)

/-- Something that is declared of every column. -/
structure Question (α : Type) where
  text : α
  /-- What is declared of a binary column of so many bytes. -/
  binary (width : Nat) : α
  foreign (kind : ForeignKind) (index : Nat) : Except Fault α

namespace Question

/-- The declared length: the width in bytes of binary columns, zero for text. -/
def length : Question Int32 where
  text := 0
  binary := Int32.ofNat
  foreign := ForeignKind.length

def format : Question Format where
  text := .text
  binary _ := .binary
  foreign := ForeignKind.format

end Question

namespace Shape

mutual
def columns : Shape → Nat
  | null => 1
  | text => 1
  | binary _ => 1
  | optional _ => 1
  | tuple children => total (widths children)
  | foreign kind => kind.columns
def widths : List Shape → List Nat
  | [] => []
  | s :: rest => s.columns :: widths rest
end

theorem widths_eq_map (shapes : List Shape) : widths shapes = shapes.map columns := by
  induction shapes with
  | nil => rfl
  | cons s rest ih => simp [widths, ih]

/-- The place of a column among shapes that stand side by side. -/
def place (children : List Shape) (index : Nat) : Except Fault Place :=
  locate (widths children) (starts (widths children)) index

section

variable {α : Type} (q : Question α)

mutual
/-- What is declared of a column, with a record of the parts that are asked for it. -/
def traced : Shape → Nat → Traced Shape α
  | null, index => .after (checkColumn 1 index) fun _ => .own (.ok q.text)
  | text, index => .after (checkColumn 1 index) fun _ => .own (.ok q.text)
  | binary width, index => .after (checkColumn 1 index) fun _ => .own (.ok (q.binary width))
  | optional inner, index =>
    .after (checkColumn 1 index) fun _ => .ask inner index (inner.traced index)
  | tuple children, index =>
    .after (checkColumn (total (widths children)) index) fun _ =>
      .after (place children index) fun owner => tracedAt children owner.child owner.inner
  | foreign kind, index => .own (q.foreign kind index)
def tracedAt : List Shape → Nat → Nat → Traced Shape α
  | [], _, _ => .own (.error .noChild)
  | s :: _, 0, inner => .ask s inner (s.traced inner)
  | _ :: rest, child + 1, inner => tracedAt rest child inner
end

end

/-- The declared length of a column. -/
def length (s : Shape) (index : Nat) : Except Fault Int32 :=
  (s.traced .length index).answer

/-- The format of a column. -/
def format (s : Shape) (index : Nat) : Except Fault Format :=
  (s.traced .format index).answer

mutual
/-- Every optional parameter wraps a parameter of exactly one column. -/
def WellFormed : Shape → Prop
  | null => True
  | text => True
  | binary _ => True
  | optional inner => inner.columns = 1 ∧ inner.WellFormed
  | tuple children => AllWellFormed children
  | foreign _ => True
def AllWellFormed : List Shape → Prop
  | [] => True
  | s :: rest => s.WellFormed ∧ AllWellFormed rest
end

/-- For a tuple with children, the place of a column; other shapes have no children to look among.
-/
def locate? : Shape → Nat → Option (Except Fault Place)
  | tuple (first :: rest), index => some (place (first :: rest) index)
  | _, _ => none

end Shape

end SqlBind
