import Mathlib.Data.List.Forall2
import SqlBind.Encode.Value
import SqlBind.Proofs.Result

/-!
# Steps of an encoding

* `Logged.result_map_eq_ok`, `Logged.result_bind_eq_ok`: when a step ends in a value.
* `Logged.bind_assoc`, `Logged.bind_pure` and their siblings: how steps are put together.
* `Value.encodeAll_eq_ok_iff`: several values are encoded just when each of them is.
-/

namespace SqlBind
set_option autoImplicit false

namespace Logged

variable {α β : Type}

theorem result_map_eq_ok {f : α → β} {x : Logged α} {b : β} :
    (x.map f).result = .ok b ↔ ∃ a, x.result = .ok a ∧ f a = b := by
  unfold map
  cases x.result <;> simp [Except.map]

theorem result_bind_eq_ok {f : α → Logged β} {x : Logged α} {b : β} :
    (x.bind f).result = .ok b ↔ ∃ a, x.result = .ok a ∧ (f a).result = .ok b := by
  unfold bind
  cases x.result <;> simp

/-! ## Laws of the steps -/

theorem bind_pure (x : Logged α) (f : α → β) : (x.bind fun a => pure (f a)) = x.map f := by
  unfold bind map
  cases x.result with
  | error e => rfl
  | ok a =>
    show Logged.mk (x.log ++ []) _ = _
    rw [List.append_nil]
    rfl

theorem map_id (x : Logged α) : (x.map fun a => a) = x := by
  rcases x with ⟨log, result⟩
  cases result <;> rfl

theorem map_bind {γ : Type} (g : β → γ) (x : Logged α) (f : α → Logged β) :
    (x.bind f).map g = x.bind fun a => (f a).map g := by
  unfold bind
  cases x.result <;> rfl

theorem map_map {γ : Type} (g : β → γ) (f : α → β) (x : Logged α) :
    (x.map f).map g = x.map fun a => g (f a) := by
  unfold map
  cases x.result <;> rfl

theorem bind_map {γ : Type} (x : Logged α) (f : α → β) (g : β → Logged γ) :
    (x.map f).bind g = x.bind fun a => g (f a) := by
  unfold bind map
  cases x.result <;> rfl

theorem bind_assoc {γ : Type} (x : Logged α) (f : α → Logged β) (g : β → Logged γ) :
    (x.bind f).bind g = x.bind fun a => (f a).bind g := by
  unfold bind
  cases x.result with
  | error e => rfl
  | ok a =>
    dsimp only
    cases (f a).result with
    | error e => rfl
    | ok b =>
      dsimp only
      rw [List.append_assoc]

/-- The results of two encodings in one list. -/
def append (x y : Logged (List α)) : Logged (List α) :=
  x.bind fun as => y.map fun bs => as ++ bs

end Logged

namespace Value

theorem encodeAll_eq_ok_iff {passing : Passing} {vs : List Value} {ps : List Param} :
    (encodeAll passing vs).result = .ok ps ↔
      List.Forall₂ (fun v p => (v.encode passing).result = .ok p) vs ps := by
  induction vs generalizing ps with
  | nil =>
    rw [List.forall₂_nil_left_iff, encodeAll, Logged.pure, Logged.ofExcept, Except.ok.injEq, eq_comm]
  | cons v rest ih =>
    simp only [encodeAll, Logged.result_bind_eq_ok, Logged.result_map_eq_ok, ih,
      List.forall₂_cons_left_iff]
    constructor
    · rintro ⟨p, hp, others, hothers, rfl⟩
      exact ⟨p, others, hp, hothers, rfl⟩
    · rintro ⟨p, others, hp, hothers, rfl⟩
      exact ⟨p, hp, others, hothers, rfl⟩

end Value

end SqlBind
