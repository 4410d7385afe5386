import Mathlib.Data.List.Forall2
import SqlBind.Json.Text
import SqlBind.Proofs.Induction
import SqlBind.Proofs.Result

/-!
# Texts of the parts of a document

The items of an array, the entries of a map and the members of a variant are written from left to
right, up to the first failure.

* `forall_of_forall₂`, `forall₂_imp_of_mem`: what members of two lists have, side by side.
* `itemTexts_eq_ok_iff`, `entryTexts_eq_ok_iff`, `fieldTexts_eq_ok_iff`: all of them are written
  just when each of them is.
* `Document.name`, `key_eq_quoted`: the characters of a key.
-/

namespace SqlBind
set_option autoImplicit false

/-! ## Two lists side by side -/

section

variable {α β : Type} {R S : α → β → Prop} {as : List α} {bs : List β}

theorem forall_of_forall₂ {P : β → Prop} (h : List.Forall₂ R as bs)
    (hstep : ∀ a ∈ as, ∀ b, R a b → P b) : ∀ b ∈ bs, P b := by
  induction h with
  | nil => exact List.forall_mem_nil _
  | cons hfirst _ ih =>
    refine List.forall_mem_cons.2 ⟨hstep _ List.mem_cons_self _ hfirst, ih ?_⟩
    exact fun a ha => hstep a (List.mem_cons_of_mem _ ha)

theorem forall₂_imp_of_mem (h : List.Forall₂ R as bs)
    (hstep : ∀ a ∈ as, ∀ b ∈ bs, R a b → S a b) : List.Forall₂ S as bs := by
  induction h with
  | nil => exact .nil
  | cons hfirst _ ih =>
    refine .cons (hstep _ List.mem_cons_self _ List.mem_cons_self hfirst) (ih ?_)
    exact fun a ha b hb => hstep a (List.mem_cons_of_mem _ ha) b (List.mem_cons_of_mem _ hb)

end

namespace Json.Document

theorem itemTexts_eq_ok_iff {items : List Document} {texts : List (List Char)} :
    itemTexts items = .ok texts ↔ List.Forall₂ (fun d text => d.text = .ok text) items texts := by
  induction items generalizing texts with
  | nil => simp [itemTexts, eq_comm]
  | cons item rest ih =>
    simp only [itemTexts, Result.bind_eq_ok, ih, List.forall₂_cons_left_iff]
    constructor
    · rintro ⟨first, hfirst, others, hothers, htexts⟩
      cases htexts
      exact ⟨first, others, hfirst, hothers, rfl⟩
    · rintro ⟨first, others, hfirst, hothers, rfl⟩
      exact ⟨first, hfirst, others, hothers, rfl⟩

/-- The text of a map entry. -/
def EntryText (e : Document × Document) (text : List Char) : Prop :=
  ∃ keyText valueText, key e.1 = .ok keyText ∧ e.2.text = .ok valueText ∧
    text = entry keyText valueText

/-- The text of a named member. -/
def FieldText (f : String × Document) (text : List Char) : Prop :=
  ∃ valueText, f.2.text = .ok valueText ∧ text = entry (quoted f.1.toList) valueText

theorem entryTexts_eq_ok_iff {entries : List (Document × Document)} {texts : List (List Char)} :
    entryTexts entries = .ok texts ↔ List.Forall₂ EntryText entries texts := by
  induction entries generalizing texts with
  | nil => simp [entryTexts, eq_comm]
  | cons e rest ih =>
    obtain ⟨k, value⟩ := e
    simp only [entryTexts, Result.bind_eq_ok, ih, List.forall₂_cons_left_iff]
    constructor
    · rintro ⟨keyText, hkey, valueText, hvalue, others, hothers, htexts⟩
      cases htexts
      exact ⟨_, others, ⟨keyText, valueText, hkey, hvalue, rfl⟩, hothers, rfl⟩
    · rintro ⟨_, others, ⟨keyText, valueText, hkey, hvalue, rfl⟩, hothers, rfl⟩
      exact ⟨keyText, hkey, valueText, hvalue, others, hothers, rfl⟩

theorem fieldTexts_eq_ok_iff {fields : List (String × Document)} {texts : List (List Char)} :
    fieldTexts fields = .ok texts ↔ List.Forall₂ FieldText fields texts := by
  induction fields generalizing texts with
  | nil => simp [fieldTexts, eq_comm]
  | cons f rest ih =>
    obtain ⟨name, value⟩ := f
    simp only [fieldTexts, Result.bind_eq_ok, ih, List.forall₂_cons_left_iff]
    constructor
    · rintro ⟨valueText, hvalue, others, hothers, htexts⟩
      cases htexts
      exact ⟨_, others, ⟨valueText, hvalue, rfl⟩, hothers, rfl⟩
    · rintro ⟨_, others, ⟨valueText, hvalue, rfl⟩, hothers, rfl⟩
      exact ⟨valueText, hvalue, others, hothers, rfl⟩

/-! ## Keys -/

/-- The characters of a key: strings, characters and names as they are, and the texts of other
values. -/
def name : Document → List Char
  | present content => content.name
  | string s => s.toList
  | char c => [c]
  | unitVariant name => name.toList
  | integer n => Numeral.ofInt n
  | bool b => boolText b
  | float64 bits => (number64 bits).getD []
  | float32 bits => (number32 bits).getD []
  | wrapped content => content.name
  | _ => []

/-- A key is a string literal. -/
theorem key_eq_quoted {d : Document} {cs : List Char} (h : key d = .ok cs) :
    cs = quoted d.name := by
  induction d with
  | present content ih => exact ih h
  | wrapped content ih => exact ih h
  | string s => exact (Except.ok.inj h).symm
  | char c => exact (Except.ok.inj h).symm
  | unitVariant name => exact (Except.ok.inj h).symm
  | integer n => exact (Except.ok.inj h).symm
  | bool b => exact (Except.ok.inj h).symm
  | float64 bits =>
    rw [key] at h
    split at h
    · rename_i token htoken
      rw [name, htoken]
      exact (Except.ok.inj h).symm
    · cases h
  | float32 bits =>
    rw [key] at h
    split at h
    · rename_i token htoken
      rw [name, htoken]
      exact (Except.ok.inj h).symm
    · cases h
  | _ => cases h

end Json.Document

end SqlBind
