import Mathlib.Data.List.TakeWhile
import SqlBind.Proofs.Encode.Logged
import SqlBind.Proofs.Induction
import SqlBind.Proofs.Json.Printable
import SqlBind.Proofs.Text.NulFree
import SqlBind.UserTypes.Converted

/-!
# The first failure

An encoder goes through a value from left to right. What it meets are conversions that leave entries
in the log, and leaves; it stops at the first leaf that has no parameter.

* `Value.failure?`: why a leaf has no parameter.
* `Value.steps`: what is met on the way through a value, nothing of what is missing included.
* `Logged.Follows x steps`: the error of `x` is that of the first failing leaf among the steps, and
  its log holds the entries up to there. Each way to put results together puts the steps together.
* `follows_encode`: encoding a value follows its steps, however the value is handed over.
* `encode_first_failure`: hence the error and the log.
-/

namespace SqlBind
set_option autoImplicit false

/-- What is met on the way through a value. -/
inductive Step where
  | entry (text : String)
  | leaf (v : Value)

/-! ## Leaves -/

namespace Value

/-- Why a leaf has no parameter: its text holds a nul, or its document cannot be written. -/
def failure? : Value → Option EncodeError
  | string _ s => if '\x00' ∈ s.toList then .some (.interiorNul (nulOffset s.toList)) else .none
  | char c => if c = '\x00' then .some (.interiorNul 0) else .none
  | json d =>
    match d.text with
    | .error failure => .some (.json failure)
    | .ok _ => .none
  | _ => .none

/-- The nul is found by its byte, not by its character. -/
example : (string .owned "é\x00").failure? = .some (.interiorNul 2) := by decide

mutual
/-- What is met on the way through a value, from left to right. -/
def steps : Value → List Step
  | none _ => []
  | some v => v.steps
  | ref v => v.steps
  | tuple vs => stepsAll vs
  | converted log target => log.map .entry ++ target.steps
  | v => [.leaf v]
def stepsAll : List Value → List Step
  | [] => []
  | v :: rest => v.steps ++ stepsAll rest
end

/-- A logged conversion into a text is met as its entry and then the text. -/
example (p : UserTypes.Probe) :
    (Bindable.value p).steps = [.entry p.text, .leaf (.string .owned p.text)] := rfl

end Value

namespace Step

def failure? : Step → Option EncodeError
  | entry _ => none
  | leaf v => v.failure?

def entry? : Step → Option String
  | entry text => some text
  | leaf _ => none

/-- The steps before the first one that ends the way. -/
def reached (steps : List Step) : List Step :=
  steps.takeWhile fun step => step.failure?.isNone

theorem failure?_eq_none_iff {steps : List Step} :
    (∀ step ∈ steps, step.failure? = none) ↔ ∀ v, .leaf v ∈ steps → v.failure? = none := by
  constructor
  · intro h v hv
    exact h (.leaf v) hv
  · intro h step hstep
    cases step with
    | entry text => rfl
    | leaf v => exact h v hstep

theorem reached_of_passed {steps rest : List Step} (h : ∀ step ∈ steps, step.failure? = none) :
    reached (steps ++ rest) = steps ++ reached rest :=
  List.takeWhile_append_of_pos fun step hstep => Option.isNone_iff_eq_none.2 (h step hstep)

theorem reached_eq_self {steps : List Step} (h : ∀ step ∈ steps, step.failure? = none) :
    reached steps = steps :=
  List.takeWhile_eq_self_iff.2 fun step hstep => Option.isNone_iff_eq_none.2 (h step hstep)

theorem reached_of_failing {before after : List Step} {step : Step}
    (hbefore : ∀ step ∈ before, step.failure? = none) (h : step.failure? ≠ none) :
    reached (before ++ step :: after) = before := by
  have hstop : reached (step :: after) = [] :=
    List.takeWhile_cons_of_neg (by rwa [Option.isNone_iff_eq_none])
  rw [reached_of_passed hbefore, hstop, List.append_nil]

end Step

/-! ## Errors of text columns -/

namespace Encode

variable {e : EncodeError}

theorem textOf_eq_error_iff {cs : List Char} :
    textOf cs = .error e ↔ '\x00' ∈ cs ∧ e = .interiorNul (nulOffset cs) := by
  by_cases hnul : '\x00' ∈ cs
  · have hzero : 0 ∈ utf8 cs := zero_mem_utf8.2 hnul
    rw [textOf, CText.ofBytes_error hzero, idxOf_zero_utf8 hnul]
    simp [hnul, eq_comm]
  · have hzero : 0 ∉ utf8 cs := mt zero_mem_utf8.1 hnul
    rw [textOf, CText.ofBytes_ok hzero]
    simp [hnul]

theorem textOf_ne_error {cs : List Char} (h : '\x00' ∉ cs) : textOf cs ≠ .error e := fun hcs =>
  h (textOf_eq_error_iff.1 hcs).1

theorem charText_eq_error_iff {c : Char} :
    charText c = .error e ↔ c = '\x00' ∧ e = .interiorNul 0 := by
  by_cases hc : c = '\x00' <;> simp [charText, hc, eq_comm]

theorem jsonText_eq_error_iff {d : Json.Document} :
    jsonText d = .error e ↔ ∃ failure, d.text = .error failure ∧ e = .json failure := by
  unfold jsonText
  cases htext : d.text with
  | error failure => simp [eq_comm]
  | ok cs =>
    -- What is written holds no control character, so it passes the check for nuls.
    have hok := textOf_ne_error (e := e) (Json.Document.printable_text htext).nul_notMem
    simpa using hok

end Encode

/-! ## Results that follow steps -/

namespace Logged

variable {α β : Type}

/-- The error of a result is that of the first failing leaf, and its log holds the entries before
that leaf. -/
structure Follows (x : Logged α) (steps : List Step) : Prop where
  log : x.log = (Step.reached steps).filterMap Step.entry?
  error : ∀ e, x.result = .error e ↔ steps.findSome? Step.failure? = some e

theorem Follows.passed {x : Logged α} {steps : List Step} (h : x.Follows steps) {a : α}
    (ha : x.result = .ok a) : ∀ step ∈ steps, step.failure? = none := by
  rw [← List.findSome?_eq_none_iff]
  cases hfound : steps.findSome? Step.failure? with
  | none => rfl
  | some e =>
    rw [(h.error e).2 hfound] at ha
    cases ha

theorem follows_pure (a : α) : (pure a).Follows [] :=
  ⟨rfl, fun _ => by simp [pure, ofExcept]⟩

theorem follows_leaf {v : Value} {result : Except EncodeError α}
    (h : ∀ e, result = .error e ↔ v.failure? = some e) : (ofExcept result).Follows [.leaf v] := by
  refine ⟨?_, fun e => ?_⟩
  · show [] = (Step.reached [.leaf v]).filterMap Step.entry?
    unfold Step.reached
    rw [List.takeWhile_cons]
    split <;> rfl
  · rw [List.findSome?_singleton]
    exact h e

theorem Follows.map {x : Logged α} {steps : List Step} (h : x.Follows steps) (f : α → β) :
    (x.map f).Follows steps :=
  ⟨h.log, fun e => Result.map_eq_error.trans (h.error e)⟩

theorem Follows.after {x : Logged α} {steps : List Step} (h : x.Follows steps) (log : List String) :
    (x.after log).Follows (log.map .entry ++ steps) := by
  have hpassed : ∀ step ∈ log.map Step.entry, step.failure? = none := by
    intro step hstep
    obtain ⟨text, -, rfl⟩ := List.mem_map.1 hstep
    rfl
  refine ⟨?_, fun e => ?_⟩
  · rw [Step.reached_of_passed hpassed, List.filterMap_append, ← h.log, List.filterMap_map]
    show log ++ x.log = log.filterMap some ++ x.log
    rw [List.filterMap_some]
  · rw [List.findSome?_append, List.findSome?_eq_none_iff.2 hpassed, Option.none_or]
    exact h.error e

theorem Follows.bind {x : Logged α} {steps : List Step} (h : x.Follows steps) {f : α → Logged β}
    {rest : List Step} (hf : ∀ a, (f a).Follows rest) : (x.bind f).Follows (steps ++ rest) := by
  unfold Logged.bind
  cases hresult : x.result with
  | ok a =>
    -- All of `steps` are passed, so what follows is decided by `rest`.
    have hpassed := h.passed hresult
    refine ⟨?_, fun e => ?_⟩
    · rw [Step.reached_of_passed hpassed, List.filterMap_append, ← (hf a).log, h.log,
        Step.reached_eq_self hpassed]
    · rw [List.findSome?_append, List.findSome?_eq_none_iff.2 hpassed, Option.none_or]
      exact (hf a).error e
  | error e =>
    -- The failing leaf is among `steps`, and `rest` is never reached.
    have hfound := (h.error e).1 hresult
    obtain ⟨before, step, after, rfl, hfailing, hbefore⟩ := List.findSome?_eq_some_iff.1 hfound
    have hne : step.failure? ≠ none := by simp [hfailing]
    refine ⟨?_, fun e' => ?_⟩
    · rw [h.log, Step.reached_of_failing hbefore hne, List.append_assoc, List.cons_append,
        Step.reached_of_failing hbefore hne]
    · rw [List.findSome?_append, hfound, Option.some_or]
      simp

end Logged

namespace Value

theorem follows_sound {α : Type} {v : Value} (h : v.failure? = .none) (a : α) :
    (Logged.pure a).Follows [.leaf v] :=
  Logged.follows_leaf fun e => by simp [h]

theorem follows_nulFree {α : Type} {v : Value} (hv : v.failure? = .none) {cs : List Char}
    (h : '\x00' ∉ cs) (f : StoredText → α) :
    (Logged.ofExcept ((Encode.textOf cs).map f)).Follows [.leaf v] := by
  apply Logged.follows_leaf
  intro e
  rw [Result.map_eq_error, hv]
  simp [Encode.textOf_ne_error h]

theorem follows_encode (passing : Passing) (v : Value) : (v.encode passing).Follows v.steps := by
  induction v generalizing passing with
  | char c =>
    apply Logged.follows_leaf
    intro e
    rw [Result.map_eq_error, Encode.charText_eq_error_iff]
    simp [failure?, eq_comm]
  | string own s =>
    apply Logged.follows_leaf
    intro e
    rw [Result.map_eq_error, Encode.textOf_eq_error_iff]
    simp [failure?, eq_comm]
  -- Dates and timestamps are checked for nuls too, but their notation has none.
  | date d => exact follows_nulFree rfl (nul_notMem_dateText d) _
  | timestamp t => exact follows_nulFree rfl (nul_notMem_timestampText t) _
  | timestampUtc t => exact follows_nulFree rfl (nul_notMem_utcText t) _
  | json d =>
    apply Logged.follows_leaf
    intro e
    rw [Result.map_eq_error, Encode.jsonText_eq_error_iff, failure?]
    cases d.text <;> simp [eq_comm]
  | none inner => exact Logged.follows_pure _
  | some v ih => exact (ih passing).map _
  | ref v ih => exact ih passing.behind
  | tuple vs ih =>
    refine Logged.Follows.map ?_ _
    induction vs with
    | nil => exact Logged.follows_pure _
    | cons v rest ihrest =>
      refine (ih v List.mem_cons_self passing).bind fun p => ?_
      exact (ihrest fun w hw => ih w (List.mem_cons_of_mem v hw)).map _
  | converted log target ih => exact (ih .moved).after log
  | _ => exact follows_sound rfl _

end Value

/-- **The first failure decides.** A value has no parameter just when some leaf that is met has
none. Then the error is that of the first such leaf, and the log ends with the conversions before
it, its own among them; otherwise all conversions that are met are in the log. -/
theorem encode_first_failure (passing : Passing) (v : Value) :
    ((∃ e, (v.encode passing).result = .error e) ↔
      ∃ w, .leaf w ∈ v.steps ∧ w.failure? ≠ none) ∧
    (∀ before w after e, v.steps = before ++ .leaf w :: after →
      (∀ u, .leaf u ∈ before → u.failure? = none) → w.failure? = some e →
      (v.encode passing).result = .error e ∧
        (v.encode passing).log = before.filterMap Step.entry?) ∧
    ((∀ w, .leaf w ∈ v.steps → w.failure? = none) →
      (∃ p, (v.encode passing).result = .ok p) ∧
        (v.encode passing).log = v.steps.filterMap Step.entry?) := by
  have h := Value.follows_encode passing v
  refine ⟨⟨?_, ?_⟩, ?_, ?_⟩
  · rintro ⟨e, he⟩
    obtain ⟨step, hstep, hfailing⟩ := List.exists_of_findSome?_eq_some ((h.error e).1 he)
    cases step with
    | entry text => cases hfailing
    | leaf w =>
      have hne : w.failure? ≠ none := by
        intro hnone
        cases hnone.symm.trans hfailing
      exact ⟨w, hstep, hne⟩
  · rintro ⟨w, hw, hne⟩
    cases hfound : v.steps.findSome? Step.failure? with
    | some e => exact ⟨e, (h.error e).2 hfound⟩
    | none => exact absurd (List.findSome?_eq_none_iff.1 hfound (.leaf w) hw) hne
  · intro before w after e hsteps hbefore hw
    have hpassed := Step.failure?_eq_none_iff.2 hbefore
    have hfailing : (Step.leaf w).failure? = some e := hw
    have hfound : v.steps.findSome? Step.failure? = some e := by
      rw [hsteps, List.findSome?_append, List.findSome?_eq_none_iff.2 hpassed, Option.none_or,
        List.findSome?_cons, hfailing]
    refine ⟨(h.error e).2 hfound, ?_⟩
    rw [h.log, hsteps, Step.reached_of_failing hpassed (by simp [hfailing])]
  · intro hall
    have hpassed := Step.failure?_eq_none_iff.2 hall
    constructor
    · cases hresult : (v.encode passing).result with
      | ok p => exact ⟨p, rfl⟩
      | error e =>
        have hfound := (h.error e).1 hresult
        rw [List.findSome?_eq_none_iff.2 hpassed] at hfound
        cases hfound
    · rw [h.log, Step.reached_eq_self hpassed]

end SqlBind
