/-!
# Results of steps that may fail

* `Result.map_eq_ok`, `Result.map_eq_error`, `Result.bind_eq_ok`, `Result.mapM_eq_ok_iff`: how a
  result tells about the steps behind it.
* `Result.error?`: the error of a result; that of steps in a row is the first one.
-/

namespace SqlBind.Result
set_option autoImplicit false

variable {ε α β : Type} {x : Except ε α}

theorem map_eq_ok {f : α → β} {b : β} : x.map f = .ok b ↔ ∃ a, x = .ok a ∧ f a = b := by
  cases x <;> simp [Except.map]

theorem map_eq_error {f : α → β} {e : ε} : x.map f = .error e ↔ x = .error e := by
  cases x <;> simp [Except.map]

theorem bind_eq_ok {f : α → Except ε β} {b : β} :
    (x >>= f) = .ok b ↔ ∃ a, x = .ok a ∧ f a = .ok b := by
  cases x <;> simp [bind, Except.bind]

theorem mapM_eq_ok_iff {f : α → Except ε β} {as : List α} {bs : List β} :
    as.mapM f = .ok bs ↔ as.map f = bs.map .ok := by
  induction as generalizing bs with
  | nil => simp [pure, Except.pure, eq_comm]
  | cons a rest ih =>
    rw [List.mapM_cons, bind_eq_ok, List.map_cons, eq_comm (a := f a :: _), List.map_eq_cons_iff]
    constructor
    · rintro ⟨b, hb, hbs⟩
      obtain ⟨others, hothers, hbs⟩ := bind_eq_ok.1 hbs
      cases hbs
      exact ⟨b, others, rfl, hb.symm, (ih.1 hothers).symm⟩
    · rintro ⟨b, others, rfl, hb, hothers⟩
      exact ⟨b, hb.symm, bind_eq_ok.2 ⟨others, ih.2 hothers.symm, rfl⟩⟩

def error? (x : Except ε α) : Option ε :=
  match x with
  | .error e => some e
  | .ok _ => none

theorem error?_eq_some_iff {e : ε} : error? x = some e ↔ x = .error e := by
  cases x <;> simp [error?]

theorem error?_eq_none_iff : error? x = none ↔ ∃ a, x = .ok a := by
  cases x <;> simp [error?]

theorem error?_map (f : α → β) : error? (x.map f) = error? x := by
  cases x <;> rfl

theorem error?_bind {f : α → Except ε β} {rest : Option ε} (h : ∀ a, error? (f a) = rest) :
    error? (x >>= f) = (error? x).or rest := by
  cases x with
  | error e => rfl
  | ok a => exact h a

end SqlBind.Result
