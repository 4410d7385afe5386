import SqlBind.Json.Document

/-!
# Encoding errors

* `EncodeError`: why a value has no parameter.
* `EncodeError.detail`, `EncodeError.message`: the wording.
* `EncodeError.debugText`: the wording in diagnostics.
-/

namespace SqlBind
set_option autoImplicit false

/-- Why a date or time has no text. -/
inductive TimeFailure where
  /-- The value lacks a component that the text needs. -/
  | missingComponent
  /-- A component is outside the range that the text can show. -/
  | outOfRange (component : String)
  deriving DecidableEq, Repr

def TimeFailure.detail : TimeFailure → String
  | missingComponent =>
    "The type being formatted does not contain sufficient information to format a component."
  | outOfRange component =>
    "The " ++ component ++ " component cannot be formatted into the requested format."

/-- Why a value cannot be encoded. -/
inductive EncodeError where
  /-- Rendering a value as text went wrong. -/
  | format
  /-- The text holds a nul at this byte offset. -/
  | interiorNul (offset : Nat)
  /-- A document cannot be written as JSON. -/
  | json (cause : Json.Failure)
  /-- A date or time has no text. -/
  | time (cause : TimeFailure)
  deriving DecidableEq, Repr

namespace EncodeError

/-- What went wrong, without the common opening. -/
def detail : EncodeError → String
  | format => "an error occurred when formatting an argument"
  | interiorNul offset => "text contains nul byte at " ++ toString offset
  | json cause => cause.detail
  | time cause => cause.detail

def message (e : EncodeError) : String :=
  "failed to encode parameter, " ++ e.detail

/-- The message between quotes, without escapes. -/
def debugText (e : EncodeError) : String :=
  "\"" ++ e.message ++ "\""

/-- The error that lies behind this one: the message already tells everything. -/
def source (_ : EncodeError) : Option EncodeError :=
  none

end EncodeError

end SqlBind
