import SqlBind.EncodeError

/-!
# Results with a log

Converting a user value may leave an entry in a log. The log is kept whether or not the encoding
succeeds in the end.

* `Logged α`: a result, and what was logged on the way to it.
* `Logged.bind`: one step after another; an error ends the steps and keeps the log so far.
-/

namespace SqlBind
set_option autoImplicit false

/-- A result or an error, with what was logged on the way to it. -/
structure Logged (α : Type) where
  log : List String
  result : Except EncodeError α

namespace Logged

variable {α β : Type}

/-- A result without log entries. -/
def ofExcept (result : Except EncodeError α) : Logged α :=
  ⟨[], result⟩

def pure (a : α) : Logged α :=
  ofExcept (.ok a)

/-- Continues with the value, if there is one; the entries of the continuation come after those so
far. -/
def bind (x : Logged α) (f : α → Logged β) : Logged β :=
  match x.result with
  | .ok a => ⟨x.log ++ (f a).log, (f a).result⟩
  | .error e => ⟨x.log, .error e⟩

def map (f : α → β) (x : Logged α) : Logged β :=
  ⟨x.log, x.result.map f⟩

/-- Puts entries before those of a result. -/
def after (log : List String) (x : Logged α) : Logged α :=
  ⟨log ++ x.log, x.result⟩

end Logged

end SqlBind
