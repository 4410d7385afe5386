import SqlBind.Bytes.Network
import SqlBind.Calendar.Text
import SqlBind.Encode.Logged
import SqlBind.Encode.Text
import SqlBind.Value

/-!
# Encoding values

* `Passing`: whether a value is given away, lent, or lent through a further reference.
* `Value.encode passing v`: the parameter of a value. The elements of a tuple are encoded from left
  to right up to the first error; a user value is converted first, and what it converts to is
  given away.
-/

namespace SqlBind
set_option autoImplicit false

/-- How a value is handed to the encoder. -/
inductive Passing where
  /-- The encoder may keep the value. -/
  | moved
  /-- The caller keeps the value. -/
  | lent
  /-- The caller lends a reference to the value. -/
  | lentTwice
  deriving DecidableEq, Repr

/-- How the value behind a reference is handed over when the reference is. -/
def Passing.behind : Passing → Passing
  | moved => lent
  | lent => lentTwice
  | lentTwice => lentTwice

namespace Encode

/-- The column of a text that holds no nul: taken over if the value is given away and keeps the text
itself, else a view of it. -/
def ctextText (passing : Passing) (own : Ownership) (t : CText) : StoredText :=
  match passing, own with
  | .moved, .owned => .owned t
  | _, _ => .lent t

end Encode

namespace Value

open Encode

mutual
/-- The parameter of a value, or the first error on the way to it. -/
def encode (passing : Passing) : Value → Logged Param
  | null => .pure .null
  | bool b => .pure (.text (boolText b))
  | char c => .ofExcept ((charText c).map .text)
  | decimal n => .pure (.text (integerText n.val))
  | int16 n => .pure (.binary (Network.int16 n))
  | int32 n => .pure (.binary (Network.int32 n))
  | int64 n => .pure (.binary (Network.int64 n))
  | float32 bits => .pure (.binary (Network.int32 (Network.word32 bits)))
  | float64 bits => .pure (.binary (Network.int64 (Network.word64 bits)))
  | extended x => .pure (.text (extendedText x))
  | string _ s => .ofExcept ((textOf s.toList).map .text)
  | ctext own t => .pure (.text (ctextText passing own t))
  | bytes _ bs => .pure (.text (byteaText bs))
  | date d => .ofExcept ((textOf d.text).map .text)
  | timestamp t => .ofExcept ((textOf t.text).map .text)
  | timestampUtc t => .ofExcept ((textOf t.utcText).map .text)
  | none inner => .pure (.absent inner.shape)
  | some v => (v.encode passing).map .present
  | ref v => v.encode passing.behind
  | tuple vs => (encodeAll passing vs).map .tuple
  | json d => .ofExcept ((jsonText d).map .text)
  | converted log target => (target.encode .moved).after log
  | foreign param => .pure (.foreign param)
def encodeAll (passing : Passing) : List Value → Logged (List Param)
  | [] => .pure []
  | v :: rest =>
    (v.encode passing).bind fun p => (encodeAll passing rest).map fun others => p :: others
end

end Value

end SqlBind
