import SqlBind.Bytes.Hex
import SqlBind.EncodeError
import SqlBind.Extended
import SqlBind.Json.Text
import SqlBind.Text.Stored

/-!
# Text columns of scalar values

* `textOf cs`: the column of a text that has to be checked for nuls.
* `boolText`, `charText`, `integerText`, `extendedText`, `byteaText`, `jsonText`: the columns of
  the other values that are sent as text.
-/

namespace SqlBind.Encode
set_option autoImplicit false

/-- The column of a text; the text must hold no nul. -/
def textOf (cs : List Char) : Except EncodeError StoredText :=
  match CText.ofBytes (utf8 cs) with
  | .ok t => .ok (.owned t)
  | .error offset => .error (.interiorNul offset)

/-- Truth values are the words `TRUE` and `FALSE`. -/
def boolText (b : Bool) : StoredText :=
  if b then .literal "TRUE" else .literal "FALSE"

/-- A character is its UTF-8 form; the nul character has none. -/
def charText (c : Char) : Except EncodeError StoredText :=
  if c = '\x00' then .error (.interiorNul 0) else .ok (.copy (utf8 [c]))

/-- An integer is its decimal numeral. -/
def integerText (n : Int) : StoredText :=
  .copy (utf8 (Numeral.ofInt n))

/-- A finite number is its decimal; NaN and the infinities are words. -/
def extendedText (x : Extended) : StoredText :=
  match x.number with
  | .nan => .literal "NAN"
  | .infinite true => .literal "-INF"
  | .infinite false => .literal "INF"
  | .finite .. => .copy (utf8 x.text)

/-- A byte string is `\x` and two hexadecimal digits per byte. -/
def byteaText (bs : Bytes) : StoredText :=
  .heap (utf8 ('\\' :: 'x' :: Hex.digits bs) ++ [0])

/-- A document is its compact JSON text. -/
def jsonText (d : Json.Document) : Except EncodeError StoredText :=
  match d.text with
  | .ok cs => textOf cs
  | .error failure => .error (.json failure)

end SqlBind.Encode
