import SqlBind.Bind.Run
import SqlBind.Bind.Sent

/-!
# The parameter section of a Bind message

The section holds the number of columns, their format codes, the number of columns again, and the
columns themselves, each after its length; the length `-1` stands for NULL.

* `Param.columnEffects`: how one column is written.
* `Param.sectionEffects`: how the section is written.
* `Param.sectionRun`, `Param.completeSection`: the run, and the whole section if nothing ends it
  early.
-/

namespace SqlBind
set_option autoImplicit false

/-- The greatest number of columns that the protocol can count. -/
def mostColumns : Nat := 65535

/-- The greatest length that the protocol can give for a value. -/
def longestValue : Nat := 2 ^ 31 - 1

/-- The length field of NULL, which is `-1` in two's complement. -/
def nullLength : Bytes :=
  bigEndian 4 (2 ^ 32 - 1)

namespace Param

def formatEffect (p : Param) (index : Nat) : Effect :=
  match p.format index with
  | .ok format => .write (bigEndian 2 format.code)
  | .error fault => .stop fault

/-- One column: its value is taken first, then reported, then written after its length. -/
def columnEffects (p : Param) (index : Nat) : List Effect :=
  match p.sent index with
  | .error fault => [.stop fault]
  | .ok none => [.report (.null index), .write nullLength]
  | .ok (some value) =>
    if value.length ≤ longestValue then
      [.report (.measured index value.length), .write (bigEndian 4 value.length), .write value]
    else
      [.report (.measured index value.length), .stop .valueTooLarge]

/-- The whole section. Nothing is written if the columns cannot be counted. -/
def sectionEffects (p : Param) : List Effect :=
  if p.columns ≤ mostColumns then
    .write (bigEndian 2 p.columns) :: (List.range p.columns).map p.formatEffect ++
      .write (bigEndian 2 p.columns) :: (List.range p.columns).flatMap p.columnEffects
  else
    [.stop .tooManyColumns]

def sectionRun (p : Param) : Run :=
  .of p.sectionEffects

/-- The section, or the fault that kept it from being completed. -/
def completeSection (p : Param) : Except Fault Bytes :=
  match p.sectionRun.fault with
  | none => .ok p.sectionRun.bytes
  | some fault => .error fault

end Param

end SqlBind
