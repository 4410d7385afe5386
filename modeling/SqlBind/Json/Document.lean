import SqlBind.Bytes.BigEndian
import SqlBind.Json.Position

/-!
# Documents to be sent as JSON

* `Json.Document`: what a value offers to be written as JSON: scalars, sequences, maps, the variants
  of a tagged union, and values that refuse to be written.
* `Json.Failure`: why a document cannot be written; `Json.Failure.detail` is the wording.
-/

namespace SqlBind.Json
set_option autoImplicit false

/-- A document that is to be written as JSON. -/
inductive Document where
  /-- A value without content. -/
  | unit
  | absent
  | present (content : Document)
  | bool (b : Bool)
  | integer (n : Int)
  /-- A single-precision number, as its bit pattern. -/
  | float32 (bits : UInt32)
  /-- A double-precision number, as its bit pattern. -/
  | float64 (bits : UInt64)
  | char (c : Char)
  | string (s : String)
  | bytes (bs : Bytes)
  | array (items : List Document)
  /-- Entries in the order in which they are written; keys may repeat. -/
  | map (entries : List (Document × Document))
  | unitVariant (name : String)
  /-- A variant around one document. -/
  | newtypeVariant (name : String) (content : Document)
  /-- A variant with positional members. -/
  | tupleVariant (name : String) (items : List Document)
  /-- A variant with named members. -/
  | structVariant (name : String) (fields : List (String × Document))
  /-- A document marked to be sent as JSON once more, which changes nothing. -/
  | wrapped (content : Document)
  /-- A value that refuses to be written. -/
  | failing (message : String)

/-- Why a document cannot be written. -/
inductive Failure where
  /-- A map key is neither a string nor something that is written as one. -/
  | keyNotString
  /-- A map key is a NaN or an infinity. -/
  | keyNotFinite
  /-- A value refuses to be written, in its own words. -/
  | refused (message : String)
  deriving DecidableEq, Repr

/-- The wording of a failure. A refusal may name a position, which is restated. -/
def Failure.detail : Failure → String
  | keyNotString => "key must be a string"
  | keyNotFinite => "float key must be finite (got NaN or +/-inf)"
  | refused message => String.ofList (Position.restated message.toList)

end SqlBind.Json
