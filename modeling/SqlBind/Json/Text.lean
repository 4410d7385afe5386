import SqlBind.Ieee.Notation
import SqlBind.Json.Document

/-!
# Compact JSON text

* `Json.quoted cs`: a string literal; only quotes, backslashes and control characters are escaped.
* `Json.number64`, `Json.number32`: the number token of a finite floating-point value.
* `Json.key d`: a map key, which must be or become a string.
* `Json.Document.text`: the text of a document without blanks, or the first failure in it.
-/

namespace SqlBind.Json
set_option autoImplicit false

/-! ## Strings -/

/-- A control character as `\u` and four hexadecimal digits. -/
def unicodeEscape (c : Char) : List Char :=
  ['\\', 'u', '0', '0', Nat.digitChar (c.toNat / 16), Nat.digitChar (c.toNat % 16)]

/-- A character inside a string literal. -/
def escaped (c : Char) : List Char :=
  if c = '"' then ['\\', '"']
  else if c = '\\' then ['\\', '\\']
  else if c = '\x08' then ['\\', 'b']
  else if c = '\x0c' then ['\\', 'f']
  else if c = '\n' then ['\\', 'n']
  else if c = '\r' then ['\\', 'r']
  else if c = '\t' then ['\\', 't']
  else if c.toNat < 0x20 then unicodeEscape c
  else [c]

def quoted (cs : List Char) : List Char :=
  '"' :: cs.flatMap escaped ++ ['"']

/-! ## Numbers -/

/-- Double-precision numbers are positional from `1e-5` up to `1e16`; positive exponents have a
sign; of two equally near digits the even one is taken. -/
def style64 : Ieee.DecimalStyle where
  lowest := -5
  highest := 15
  plus := ['+']
  tie := .even

/-- Single-precision numbers are positional from `1e-6` up to `1e13`. -/
def style32 : Ieee.DecimalStyle where
  lowest := -6
  highest := 12
  plus := ['+']
  tie := .even

/-- The number token of a finite number. -/
def token? (style : Ieee.DecimalStyle) (f : Ieee.Interchange) (bits : Nat) : Option (List Char) :=
  match f.number bits with
  | .nan => none
  | .infinite _ => none
  | .finite negative m q => some (style.text f negative m q)

def number64 (bits : UInt64) : Option (List Char) :=
  token? style64 Ieee.binary64 bits.toNat

def number32 (bits : UInt32) : Option (List Char) :=
  token? style32 Ieee.binary32 bits.toNat

/-! ## Documents -/

def nullText : List Char := "null".toList

def boolText (b : Bool) : List Char :=
  if b then "true".toList else "false".toList

/-- Texts with commas between them. -/
def commaSeparated : List (List Char) → List Char
  | [] => []
  | [text] => text
  | text :: rest => text ++ ',' :: commaSeparated rest

/-- Texts as the items of an array. -/
def bracketed (items : List (List Char)) : List Char :=
  '[' :: commaSeparated items ++ [']']

/-- Texts as the entries of an object. -/
def braced (entries : List (List Char)) : List Char :=
  '\x7b' :: commaSeparated entries ++ ['\x7d']

def entry (key value : List Char) : List Char :=
  key ++ ':' :: value

/-- A map key: strings, characters and names as they are, integers, truth values and finite numbers
in quotes. An optional value that is there is a key if its content is. -/
def key : Document → Except Failure (List Char)
  | .present content => key content
  | .string s => .ok (quoted s.toList)
  | .char c => .ok (quoted [c])
  | .unitVariant name => .ok (quoted name.toList)
  | .integer n => .ok (quoted (Numeral.ofInt n))
  | .bool b => .ok (quoted (boolText b))
  | .float64 bits =>
    match number64 bits with
    | some text => .ok (quoted text)
    | none => .error .keyNotFinite
  | .float32 bits =>
    match number32 bits with
    | some text => .ok (quoted text)
    | none => .error .keyNotFinite
  | .wrapped content => key content
  | .failing message => .error (.refused message)
  | _ => .error .keyNotString

namespace Document

mutual
/-- The text of a document, or the first failure from left to right; a key comes before its value.
-/
def text : Document → Except Failure (List Char)
  | unit => .ok nullText
  | absent => .ok nullText
  | present content => content.text
  | bool b => .ok (boolText b)
  | integer n => .ok (Numeral.ofInt n)
  | float32 bits => .ok ((number32 bits).getD nullText)
  | float64 bits => .ok ((number64 bits).getD nullText)
  | char c => .ok (quoted [c])
  | string s => .ok (quoted s.toList)
  | bytes bs => .ok (bracketed (bs.map fun b => Numeral.ofNat b.toNat))
  | array items => (itemTexts items).map bracketed
  | map entries => (entryTexts entries).map braced
  | unitVariant name => .ok (quoted name.toList)
  | newtypeVariant name content =>
    content.text.map fun value => braced [entry (quoted name.toList) value]
  | tupleVariant name items =>
    (itemTexts items).map fun values => braced [entry (quoted name.toList) (bracketed values)]
  | structVariant name fields =>
    (fieldTexts fields).map fun values => braced [entry (quoted name.toList) (braced values)]
  | wrapped content => content.text
  | failing message => .error (.refused message)
def itemTexts : List Document → Except Failure (List (List Char))
  | [] => .ok []
  | item :: rest => do
    let first ← item.text
    let others ← itemTexts rest
    return first :: others
def entryTexts : List (Document × Document) → Except Failure (List (List Char))
  | [] => .ok []
  | (k, value) :: rest => do
    let keyText ← key k
    let valueText ← value.text
    let others ← entryTexts rest
    return entry keyText valueText :: others
def fieldTexts : List (String × Document) → Except Failure (List (List Char))
  | [] => .ok []
  | (name, value) :: rest => do
    let valueText ← value.text
    let others ← fieldTexts rest
    return entry (quoted name.toList) valueText :: others
end

end Document

end SqlBind.Json
