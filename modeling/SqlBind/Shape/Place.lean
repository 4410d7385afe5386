import SqlBind.Fault
import SqlBind.Steps

/-!
# Finding the child that owns a column

The children of a tuple stand side by side, each as wide as it has columns, and some without any.

* `Place`: a child of a tuple and a column of that child.
* `total widths`: the columns of all children together.
* `starts widths`: for each child, the number of columns before it.
* `locate widths starts index`: the place of a column of the whole tuple.

The table of starts and the search in it are written for any `Steps`; `startsFrom` and `locateFrom`
are what they come to where the bounds of the steps play no part.
-/

namespace SqlBind
set_option autoImplicit false

/-- A child of a tuple, and a column counted within that child. -/
structure Place where
  child : Nat
  inner : Nat
  deriving DecidableEq, Repr

/-! ## Totals -/

def total (widths : List Nat) : Nat :=
  widths.foldr (· + ·) 0

@[simp] theorem total_nil : total [] = 0 := rfl

@[simp] theorem total_cons (width : Nat) (rest : List Nat) :
    total (width :: rest) = width + total rest := rfl

theorem total_append (widths others : List Nat) :
    total (widths ++ others) = total widths + total others := by
  induction widths with
  | nil => exact (Nat.zero_add _).symm
  | cons width rest ih => rw [List.cons_append, total_cons, total_cons, ih, Nat.add_assoc]

/-! ## The table and the search -/

namespace Steps

variable {m : Type → Type} [Monad m] (steps : Steps m)

/-- Running totals of the widths, beginning with `start`. -/
def startsFrom (start : Nat) : List Nat → m (List Nat)
  | [] => pure []
  | width :: rest => do
    let stop ← steps.sum start width
    let others ← startsFrom stop rest
    return start :: others

/-- The first child, counted from `child` on, whose columns end beyond `index`. -/
def locateFrom (child : Nat) : List Nat → List Nat → Nat → m (Except Fault Place)
  | width :: widths, start :: starts, index => do
    let stop ← steps.sum start width
    if index < stop then
      let inner ← steps.difference index start
      return .ok ⟨child, inner⟩
    else locateFrom (child + 1) widths starts index
  | _, _, _ => pure (.error .noOwner)

end Steps

def startsFrom (start : Nat) (widths : List Nat) : List Nat :=
  (Steps.free.startsFrom start widths).run

/-- For each child, the number of columns before it. -/
def starts (widths : List Nat) : List Nat :=
  startsFrom 0 widths

def locateFrom (child : Nat) (widths starts : List Nat) (index : Nat) : Except Fault Place :=
  (Steps.free.locateFrom child widths starts index).run

/-- The place of a column, given the width and the start of every child. -/
def locate (widths starts : List Nat) (index : Nat) : Except Fault Place :=
  locateFrom 0 widths starts index

theorem startsFrom_cons (start width : Nat) (rest : List Nat) :
    startsFrom start (width :: rest) = start :: startsFrom (start + width) rest := rfl

theorem locateFrom_cons (child width start : Nat) (widths starts : List Nat) (index : Nat) :
    locateFrom child (width :: widths) (start :: starts) index =
      if index < start + width then .ok ⟨child, index - start⟩
      else locateFrom (child + 1) widths starts index := rfl

/-- Refuses an index that is not below the number of columns. -/
def checkColumn (columns index : Nat) : Except Fault Unit :=
  if index < columns then .ok () else .error (.columnIndex columns index)

theorem checkColumn_ok {columns index : Nat} (h : index < columns) :
    checkColumn columns index = .ok () := by
  simp [checkColumn, h]

theorem checkColumn_error {columns index : Nat} (h : ¬index < columns) :
    checkColumn columns index = .error (.columnIndex columns index) := by
  simp [checkColumn, h]

end SqlBind
