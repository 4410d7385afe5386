import SqlBind.Proofs.Encode.FirstFailure
import SqlBind.Proofs.Param.Alike

/-!
# Values given away and values lent

There is an encoder for values that are given away, one for values that are lent and one for values
behind a further reference. Only texts that are known to hold no nul are treated differently: one
that is given away is taken over, one that is lent is borrowed.

* `Value.map_onHeap_encode`: the three encoders have the same outcome but for where texts are kept;
  `log_encode`, `result_encode_eq_error` and `exists_alike_encode` are its parts.
* `encode_passing_agrees`: hence nothing that can be asked of the outcome tells which one was used.
-/

namespace SqlBind
set_option autoImplicit false

namespace Encode

theorem bytes_ctextText (passing : Passing) (own : Ownership) (t : CText) :
    (ctextText passing own t).bytes = t.terminated := by
  unfold ctextText
  split <;> rfl

end Encode

namespace Value

open Param Encode

theorem map_onHeap_encodeAll_cons (passing : Passing) (v : Value) (vs : List Value) :
    (encodeAll passing (v :: vs)).map (List.map onHeap) =
      ((v.encode passing).map onHeap).bind fun p =>
        ((encodeAll passing vs).map (List.map onHeap)).map (p :: ·) := by
  rw [encodeAll, Logged.map_bind, Logged.bind_map]
  simp only [Logged.map_map, List.map_cons]

theorem map_onHeap_encodeAll {vs : List Value} (a b : Passing)
    (h : ∀ v ∈ vs, (v.encode a).map onHeap = (v.encode b).map onHeap) :
    (encodeAll a vs).map (List.map onHeap) = (encodeAll b vs).map (List.map onHeap) := by
  induction vs with
  | nil => rfl
  | cons v vs ih =>
    have hrest := ih fun w hw => h w (List.mem_cons_of_mem v hw)
    rw [map_onHeap_encodeAll_cons, map_onHeap_encodeAll_cons, h v List.mem_cons_self, hrest]

theorem map_onHeap_encode_some (passing : Passing) (v : Value) :
    ((some v).encode passing).map onHeap = ((v.encode passing).map onHeap).map .present := by
  rw [encode, Logged.map_map, Logged.map_map]
  rfl

theorem map_onHeap_encode_tuple (passing : Passing) (vs : List Value) :
    ((tuple vs).encode passing).map onHeap =
      ((encodeAll passing vs).map (List.map onHeap)).map .tuple := by
  rw [encode, Logged.map_map, Logged.map_map]
  simp only [onHeap_tuple]

theorem map_onHeap_encode (v : Value) (a b : Passing) :
    (v.encode a).map onHeap = (v.encode b).map onHeap := by
  induction v generalizing a b with
  | ctext own t =>
    have honHeap : ∀ passing, ((ctext own t).encode passing).map onHeap =
        .pure (.text (.heap t.terminated)) := by
      intro passing
      rw [← bytes_ctextText passing own t]
      rfl
    rw [honHeap a, honHeap b]
  | some v ih => rw [map_onHeap_encode_some, map_onHeap_encode_some, ih a b]
  | ref v ih => exact ih a.behind b.behind
  | tuple vs ih =>
    rw [map_onHeap_encode_tuple, map_onHeap_encode_tuple,
      map_onHeap_encodeAll a b fun v hv => ih v hv a b]
  -- What a user value converts to is given away, however the user value is handed over.
  | converted log target => rfl
  | _ => rfl

theorem log_encode (v : Value) (a b : Passing) : (v.encode a).log = (v.encode b).log :=
  (follows_encode a v).log.trans (follows_encode b v).log.symm

theorem result_encode_eq_error {v : Value} {a : Passing} {e : EncodeError} (b : Passing)
    (h : (v.encode a).result = .error e) : (v.encode b).result = .error e := by
  rw [(follows_encode b v).error, ← (follows_encode a v).error]
  exact h

theorem exists_alike_of_map_onHeap {x y : Logged Param} {p : Param}
    (h : (x.map onHeap).result = (y.map onHeap).result) (hp : x.result = .ok p) :
    ∃ q, y.result = .ok q ∧ p.Alike q := by
  have hy : (y.map onHeap).result = .ok p.onHeap := by
    rw [← h, Logged.result_map_eq_ok]
    exact ⟨p, hp, rfl⟩
  obtain ⟨q, hq, hpq⟩ := Logged.result_map_eq_ok.1 hy
  exact ⟨q, hq, hpq.symm⟩

theorem exists_alike_encode {v : Value} {a : Passing} {p : Param} (b : Passing)
    (h : (v.encode a).result = .ok p) : ∃ q, (v.encode b).result = .ok q ∧ p.Alike q :=
  exists_alike_of_map_onHeap (congrArg Logged.result (map_onHeap_encode v a b)) h

end Value

/-- **Giving away and lending agree.** A value that is given away, lent, or lent through a further
reference has the same error, or parameters of which everything that can be asked has the same
answer. The conversions on the way are logged alike, all of them once if there is a parameter. -/
theorem encode_passing_agrees (v : Value) (a b : Passing) :
    (v.encode a).log = (v.encode b).log ∧
    (∀ e, (v.encode a).result = .error e ↔ (v.encode b).result = .error e) ∧
    (∀ p, (v.encode a).result = .ok p →
      (v.encode a).log = v.steps.filterMap Step.entry? ∧
      ∃ q, (v.encode b).result = .ok q ∧
        p.columns = q.columns ∧
        (∀ index, p.data index = q.data index ∧ p.length index = q.length index ∧
          p.format index = q.format index) ∧
        p.sectionRun = q.sectionRun ∧
        p.completeSection = q.completeSection ∧
        p.sectionLength = q.sectionLength ∧
        p.arrays = q.arrays ∧
        p.arraysRun = q.arraysRun ∧
        p.isNull? = q.isNull? ∧
        p.debug = q.debug ∧
        Option.Rel (List.Forall₂ Param.Alike) p.children? q.children?) := by
  refine ⟨Value.log_encode v a b, fun e => ?_, fun p hp => ⟨?_, ?_⟩⟩
  · exact ⟨Value.result_encode_eq_error b, Value.result_encode_eq_error a⟩
  · have h := Value.follows_encode a v
    rw [h.log, Step.reached_eq_self (h.passed hp)]
  · obtain ⟨q, hq, halike⟩ := Value.exists_alike_encode b hp
    have h := halike.agree
    refine ⟨q, hq, h.columns, fun index => ⟨h.data index, h.length index, h.format index⟩, ?_⟩
    exact ⟨h.sectionRun_eq, h.completeSection_eq, h.sectionLength_eq, h.arrays_eq, h.arraysRun_eq,
      halike.isNull?_eq, halike.debug_eq, halike.rel_children?⟩

/-- The parameters need not be equal: a text that is given away is taken over. -/
example (t : CText) :
    ((Value.ctext .owned t).encode .moved).result = .ok (.text (.heap t.terminated)) ∧
      ((Value.ctext .owned t).encode .lent).result = .ok (.text (.borrowed t.terminated)) :=
  ⟨rfl, rfl⟩

end SqlBind
