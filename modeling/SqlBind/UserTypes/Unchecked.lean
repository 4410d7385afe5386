import SqlBind.Param.Basic

/-!
# Parameters written outside the library

Three kinds that answer for every index, whether or not they have such a column.

* `rawText`: one text column of arbitrary bytes, terminated or not.
* `rawBinary`: one binary column that claims a length of its own.
* `wide`: any number of columns, alternating between the formats.
-/

namespace SqlBind.UserTypes
set_option autoImplicit false

/-- The description of optional raw bytes. -/
def rawDebug (name : String) (value : Option Bytes) : Debug :=
  .wrap name (.option (value.map .bytes))

/-- One text column of any bytes. -/
def rawTextKind : ForeignKind where
  columns := 1
  length _ := .ok 0
  format _ := .ok .text

/-- The bytes are sent as they are. -/
def rawText (value : Option Bytes) : Foreign where
  kind := rawTextKind
  data _ := .ok value
  debug := rawDebug "RawText" value

/-- One binary column that claims `length` bytes. -/
def rawBinaryKind (length : Int32) : ForeignKind where
  columns := 1
  length _ := .ok length
  format _ := .ok .binary

/-- The bytes are whatever is given, however many the kind claims. -/
def rawBinary (length : Int32) (value : Option Bytes) : Foreign where
  kind := rawBinaryKind length
  data _ := .ok value
  debug := rawDebug "RawBin" value

/-- Columns with even numbers are text of length zero, the others binary of one byte. -/
def wideKind (columns : Nat) : ForeignKind where
  columns
  length index := .ok (if index % 2 = 0 then 0 else 1)
  format index := .ok (if index % 2 = 0 then .text else .binary)

/-- Every third column is NULL; the others are an `x` with its terminator or the byte seven. -/
def wide (columns : Nat) : Foreign where
  kind := wideKind columns
  data index :=
    .ok (if index % 3 = 0 then none else if index % 2 = 0 then some [0x78, 0] else some [7])
  debug := .atom "Wide"

end SqlBind.UserTypes
