import SqlBind.Bytes.BigEndian

/-!
# Diagnostic descriptions

Values are described for diagnostics as nested records, tuples and lists, on one line or with one
member per line.

* `Debug`: the description of a value.
* `Debug.inline`: the description on one line.
* `Debug.lines`, `Debug.pretty`: one member per line, four blanks per level, a comma after each.
* `Debug.option`, `Debug.bytes`: descriptions of an optional value and of a byte list.
-/

namespace SqlBind
set_option autoImplicit false

/-- The description of a value. -/
inductive Debug where
  /-- A value without members, as its text. -/
  | atom (text : String)
  /-- A named record with one labelled member. -/
  | record (name label : String) (member : Debug)
  /-- A name around one unlabelled member. -/
  | wrap (name : String) (member : Debug)
  /-- Members in parentheses; a single member keeps a comma after it. -/
  | tuple (members : List Debug)
  /-- Members in brackets. -/
  | list (members : List Debug)

namespace Debug

/-- Members on one line, between their separators. -/
def separated (members : List String) : String :=
  String.intercalate ", " members

mutual
/-- The description on one line. -/
def inline : Debug → String
  | atom text => text
  | record name label member => name ++ " \x7b " ++ label ++ ": " ++ member.inline ++ " \x7d"
  | wrap name member => name ++ "(" ++ member.inline ++ ")"
  | tuple members =>
    match inlineAll members with
    | [member] => "(" ++ member ++ ",)"
    | all => "(" ++ separated all ++ ")"
  | list members => "[" ++ separated (inlineAll members) ++ "]"
def inlineAll : List Debug → List String
  | [] => []
  | member :: rest => member.inline :: inlineAll rest
end

/-- Puts a label before the first line. -/
def labelled (label : String) : List String → List String
  | [] => [label]
  | first :: rest => (label ++ first) :: rest

/-- Puts a comma after the last line. -/
def closed : List String → List String
  | [] => []
  | [last] => [last ++ ","]
  | line :: rest => line :: closed rest

/-- Lines of one member inside a block: one level deeper, with a comma at the end. -/
def member (lines : List String) : List String :=
  (closed lines).map ("    " ++ ·)

mutual
/-- The lines of the description with one member per line. -/
def lines : Debug → List String
  | atom text => [text]
  | record name label value =>
    (name ++ " \x7b") :: member (labelled (label ++ ": ") value.lines) ++ ["\x7d"]
  | wrap name value => (name ++ "(") :: member value.lines ++ [")"]
  | tuple [] => ["()"]
  | tuple members => "(" :: linesAll members ++ [")"]
  | list [] => ["[]"]
  | list members => "[" :: linesAll members ++ ["]"]
def linesAll : List Debug → List String
  | [] => []
  | value :: rest => member value.lines ++ linesAll rest
end

def pretty (d : Debug) : String :=
  String.intercalate "\n" d.lines

/-- The description of a value that may be missing. -/
def option : Option Debug → Debug
  | none => atom "None"
  | some d => wrap "Some" d

/-- The description of a byte string as a list of numbers. -/
def bytes (bs : Bytes) : Debug :=
  list (bs.map fun b => atom (toString b.toNat))

end Debug

end SqlBind
