import SqlBind.Param.Basic

/-!
# Values as they are sent

* `claimedEnd length`: where a binary column ends according to its declared length.
* `Param.sent p i`: the bytes that are sent for column `i`, or none for NULL.
* `Param.sectionLength p`: the length of the parameter section, without writing it.
-/

namespace SqlBind
set_option autoImplicit false

/-- The end of a binary column of a declared length: the length counts as an unsigned 64-bit number,
so a negative one is beyond every end. -/
def claimedEnd (length : Int32) : Nat :=
  (length.toInt % 2 ^ 64).toNat

namespace Param

/-- The bytes that are sent for a column, or none for NULL: text up to its first nul, binary data up
to the declared length. -/
def sent (p : Param) (index : Nat) : Except Fault (Option Bytes) := do
  match ← p.data index with
  | none => return none
  | some data =>
    match ← p.format index with
    | .text => return some (data.takeWhile (· != 0))
    | .binary =>
      let stop := claimedEnd (← p.length index)
      if stop ≤ data.length then return some (data.take stop)
      else throw (.sliceEnd stop data.length)

/-- How many bytes are sent for a value; none for NULL. -/
def valueSize : Option Bytes → Nat
  | none => 0
  | some value => value.length

/-- The length of the parameter section: two counts, a format code per column, and for each column
a length field and its value. -/
def sectionLength (p : Param) : Except Fault Nat :=
  (List.range p.columns).foldlM
    (fun size index => do return size + (4 + valueSize (← p.sent index)))
    (2 + 2 * p.columns + 2)

end Param

end SqlBind
