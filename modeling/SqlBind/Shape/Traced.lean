import SqlBind.Shape.Place

/-!
# Questions that are passed on

A question for a column may be put to a part of what is asked, and the column is counted anew there.
Parts from outside need not check what they are asked, so it matters which questions are put.

* `Traced σ α`: an answer, and the questions that were put to parts on the way to it.
* `Traced.own`: an answer for which no part is asked; `Traced.ask`: the answer of a part;
  `Traced.after`: an answer behind a step that may fail.
-/

namespace SqlBind
set_option autoImplicit false

/-- An answer, and the questions that were put to parts on the way to it: each as the part and the
column that it was asked for. -/
structure Traced (σ α : Type) where
  calls : List (σ × Nat)
  answer : Except Fault α

namespace Traced

variable {σ α β : Type}

def own (answer : Except Fault α) : Traced σ α :=
  ⟨[], answer⟩

/-- Puts the question to a part and hands on its answer. -/
def ask (part : σ) (index : Nat) (x : Traced σ α) : Traced σ α :=
  ⟨(part, index) :: x.calls, x.answer⟩

/-- Goes on after a step for which no part is asked. -/
def after (step : Except Fault β) (next : β → Traced σ α) : Traced σ α :=
  match step with
  | .ok b => next b
  | .error fault => own (.error fault)

@[simp] theorem after_ok (b : β) (next : β → Traced σ α) : after (.ok b) next = next b := rfl

@[simp] theorem after_error (fault : Fault) (next : β → Traced σ α) :
    after (.error fault) next = own (.error fault) := rfl

theorem answer_after (step : Except Fault β) (next : β → Traced σ α) :
    (after step next).answer = step >>= fun b => (next b).answer := by
  cases step <;> rfl

theorem calls_after_own (step : Except Fault β) (answer : β → Except Fault α) :
    (after step fun b => own (answer b) : Traced σ α).calls = [] := by
  cases step <;> rfl

theorem after_check_of_le {columns index : Nat} (h : columns ≤ index)
    (next : Unit → Traced σ α) :
    after (checkColumn columns index) next = own (.error (.columnIndex columns index)) := by
  rw [checkColumn_error (Nat.not_lt.2 h), after_error]

end Traced

end SqlBind
