import SqlBind.Bind.Run
import SqlBind.Bind.Sent

/-!
# Parameters as parallel arrays

A client of another kind takes the columns as three arrays: a pointer to each value, its length and
its format code. The end of a text value is its nul, whatever its length says.

* `Arrays`: the three arrays.
* `Param.arrays p`: collects them, column by column; `Param.arraysRun` is what is reported.
* `Arrays.read`: the values as such a client reads them.
-/

namespace SqlBind
set_option autoImplicit false

/-- Three arrays with one entry per column. -/
structure Arrays where
  /-- The bytes that each pointer shows, or none for a null pointer. -/
  values : List (Option Bytes)
  lengths : List Int32
  formats : List Nat
  deriving DecidableEq, Repr

/-- What is collected about one column. -/
structure ArrayColumn where
  value : Option Bytes
  length : Int32
  format : Format
  deriving DecidableEq, Repr

namespace Param

/-- What is collected about one column. The report of a column asks for its format before its length
is taken, which is the order of a verbose build that somebody listens to; without a report the
length comes first. The order only decides which of two faults is seen. -/
def arrayColumn (p : Param) (index : Nat) : Except Fault ArrayColumn := do
  let value ← p.data index
  let format ← p.format index
  let length ← p.length index
  return { value, length, format }

/-- Collects all columns. -/
def arrays (p : Param) : Except Fault Arrays := do
  let columns ← (List.range p.columns).mapM p.arrayColumn
  return {
    values := columns.map ArrayColumn.value
    lengths := columns.map ArrayColumn.length
    formats := columns.map fun column => column.format.code }

/-- What is reported when a column is collected: the report comes before the length is taken. -/
def collectEffects (p : Param) (index : Nat) : List Effect :=
  match p.data index, p.format index with
  | .error fault, _ => [.stop fault]
  | _, .error fault => [.stop fault]
  | .ok value, .ok format =>
    .report (.collected index value.isNone format) ::
      match p.length index with
      | .error fault => [.stop fault]
      | .ok _ => []

/-- The run that collects all columns. -/
def arraysRun (p : Param) : Run :=
  .of ((List.range p.columns).flatMap p.collectEffects)

end Param

namespace Arrays

def size (a : Arrays) : Nat :=
  a.values.length

def isEmpty (a : Arrays) : Bool :=
  a.values.isEmpty

/-- A value as the client reads it: text up to its nul, binary data by its length. -/
def readValue (value : Option Bytes) (length : Int32) (code : Nat) : Option Bytes :=
  value.map fun bytes =>
    if code = Format.text.code then bytes.takeWhile (· != 0) else bytes.take length.toInt.toNat

def read (a : Arrays) : List (Option Bytes) :=
  (a.values.zip (a.lengths.zip a.formats)).map fun column =>
    readValue column.1 column.2.1 column.2.2

end Arrays

end SqlBind
