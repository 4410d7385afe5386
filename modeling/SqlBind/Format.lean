/-!
# Transmission formats

Every column is sent either as text or in its binary representation.

* `Format`: the two formats.
* `Format.code`: the number that stands for a format on the wire.
* `Format.name`: its name in diagnostics.
-/

namespace SqlBind
set_option autoImplicit false

/-- How a column's value is represented on the wire. -/
inductive Format where
  | text
  | binary
  deriving DecidableEq, Repr

namespace Format

def code : Format → Nat
  | text => 0
  | binary => 1

def name : Format → String
  | text => "Text"
  | binary => "Binary"

end Format

end SqlBind
