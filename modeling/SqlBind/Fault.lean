/-!
# Faults

A fault is a broken contract between a parameter and its reader: it stops the reading at once, and
what was produced before it stays.

* `Fault`: the contracts that can break.
* `Fault.message`: the wording of each.
-/

namespace SqlBind
set_option autoImplicit false

/-- Why reading a parameter stopped. -/
inductive Fault where
  /-- A column was asked for that a parameter of `columns` columns does not have. -/
  | columnIndex (columns index : Nat)
  /-- No child of a tuple owns the column that was looked up. -/
  | noOwner
  /-- A binary column claims `stop` bytes and has only `length`. -/
  | sliceEnd (stop length : Nat)
  /-- The number of columns does not fit the protocol's counter. -/
  | tooManyColumns
  /-- The value of a column does not fit the protocol's length field. -/
  | valueTooLarge
  /-- A tuple looked up a child that it does not have. -/
  | noChild
  /-- A parameter kind written outside the library stopped with a message of its own. -/
  | foreign (message : String)
  deriving DecidableEq, Repr

/-- What is reported for a fault. -/
def Fault.message : Fault → String
  | .columnIndex columns index =>
    "column index out of bounds: the len is " ++ toString columns ++
      " but the index is " ++ toString index
  | .noOwner => "column index out of bounds"
  | .sliceEnd stop length =>
    "range end index " ++ toString stop ++ " out of range for slice of length " ++ toString length
  | .tooManyColumns => "parameter count too large for protocol"
  | .valueTooLarge => "parameter size too large for protocol"
  | .noChild => "internal error: entered unreachable code"
  | .foreign message => message

end SqlBind
