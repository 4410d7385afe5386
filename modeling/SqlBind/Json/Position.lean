import SqlBind.Text.Numeral

/-!
# Positions at the end of a message

A message about a document may close with a position, ` at line 3 column 14`. The position is taken
off the message and put back in plain numerals, or left off if it says that there is none.

* `Position`: a line and a column; line zero is no place in a text.
* `Position.text`: a position as it closes a message.
* `Position.read? cs`: the position that a whole text is.
* `Position.split? cs`: what stands before the position that closes a message, and the position.
* `Position.restated cs`: a message with its position written anew.
-/

namespace SqlBind.Json
set_option autoImplicit false

/-- A place in a text. -/
structure Position where
  line : Nat
  column : Nat
  deriving DecidableEq, Repr

namespace Position

def lineMark : List Char := " at line ".toList

def columnMark : List Char := " column ".toList

/-- Lines and columns are counted in 64 bits. -/
def limit : Nat := 2 ^ 64

/-- A position as it closes a message. -/
def text (p : Position) : List Char :=
  lineMark ++ Numeral.ofNat p.line ++ columnMark ++ Numeral.ofNat p.column

/-- The number that a whole text stands for, if it can count a line or a column. -/
def count? (cs : List Char) : Option Nat :=
  (Numeral.read? cs).filter (· < limit)

/-- The position that a whole text is. Its numerals may have zeros in front. -/
def read? (cs : List Char) : Option Position := do
  let counts ← lineMark.isPrefixOf? cs
  let line ← count? (counts.takeWhile Char.isDigit)
  let column ← count? (← columnMark.isPrefixOf? (counts.dropWhile Char.isDigit))
  return { line, column }

/-- What stands before the position that closes a message, and that position. There is at most one,
since no position goes on with another. -/
def split? : List Char → Option (List Char × Position)
  | [] => none
  | c :: rest =>
    match read? (c :: rest) with
    | some p => some ([], p)
    | none => (split? rest).map fun found => (c :: found.1, found.2)

/-- A message with its position written anew; line zero is left off, with its column. -/
def restated (cs : List Char) : List Char :=
  match split? cs with
  | none => cs
  | some (before, p) => if p.line = 0 then before else before ++ p.text

end Position

end SqlBind.Json
