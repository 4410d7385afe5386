import SqlBind.Proofs.Bind.Length
import SqlBind.Proofs.Encode.Logged
import SqlBind.Proofs.Param.Leaves
import SqlBind.UserTypes.Unchecked

/-!
# Regrouping

Tuples give a value its structure, and nothing of that structure reaches the wire.

* `Value.leaves`: the parts of a value that are not tuples themselves, from left to right.
* `map_leaves_encode`: encoding a value and encoding its leaves log the same, fail alike and give
  the same leaves of parameters.
* `encode_regroup`: tuples of the same leaves cannot be told apart once they are encoded.
-/

namespace SqlBind
set_option autoImplicit false

namespace Value

mutual
/-- The parts of a value that are not tuples themselves, from left to right. A tuple behind a
reference or within an optional value belongs to its part. -/
def leaves : Value → List Value
  | tuple vs => leavesAll vs
  | v => [v]
def leavesAll : List Value → List Value
  | [] => []
  | v :: rest => v.leaves ++ leavesAll rest
end

/-! ## Encoding leaf by leaf -/

theorem encodeAll_append (passing : Passing) (vs ws : List Value) :
    encodeAll passing (vs ++ ws) = (encodeAll passing vs).append (encodeAll passing ws) := by
  induction vs with
  | nil => exact (Logged.map_id _).symm
  | cons v rest ih =>
    simp only [List.cons_append, encodeAll, ih, Logged.append, Logged.map_bind, Logged.map_map,
      Logged.bind_assoc, Logged.bind_map]

theorem encodeAll_singleton (passing : Passing) (v : Value) :
    encodeAll passing [v] = (v.encode passing).map fun p => [p] :=
  Logged.bind_pure (v.encode passing) fun p => [p]

theorem map_leavesAll_append (x y : Logged (List Param)) :
    (x.append y).map Param.leavesAll =
      (x.map Param.leavesAll).append (y.map Param.leavesAll) := by
  simp only [Logged.append, Logged.map_bind, Logged.map_map, Logged.bind_map,
    Param.leavesAll_append]

theorem map_leavesAll_cons (passing : Passing) (v : Value) (rest : List Value) :
    (encodeAll passing (v :: rest)).map Param.leavesAll =
      ((v.encode passing).map Param.leaves).append
        ((encodeAll passing rest).map Param.leavesAll) := by
  simp only [encodeAll, Logged.append, Logged.map_bind, Logged.map_map, Logged.bind_map,
    Param.leavesAll]

theorem map_leaves_encode (passing : Passing) (v : Value) :
    (v.encode passing).map Param.leaves = (encodeAll passing v.leaves).map Param.leavesAll := by
  have single (v : Value) :
      (v.encode passing).map Param.leaves = (encodeAll passing [v]).map Param.leavesAll := by
    simp only [encodeAll_singleton, Logged.map_map, Param.leavesAll, List.append_nil]
  induction v with
  | tuple vs ih =>
    rw [encode, Logged.map_map, leaves]
    show (encodeAll passing vs).map Param.leavesAll = _
    induction vs with
    | nil => rfl
    | cons v rest ihrest =>
      have hfirst := ih v List.mem_cons_self
      have hrest := ihrest fun w hw => ih w (List.mem_cons_of_mem v hw)
      rw [map_leavesAll_cons, hfirst, hrest, leavesAll, encodeAll_append, map_leavesAll_append]
  | _ => exact single _

end Value

/-! ## Tuples of the same leaves -/

theorem encodeAll_eq_of_leavesAll {vs ws : List Value} (passing : Passing)
    (h : Value.leavesAll vs = Value.leavesAll ws) :
    (Value.encodeAll passing vs).map Param.leavesAll =
      (Value.encodeAll passing ws).map Param.leavesAll := by
  have hvs := Value.map_leaves_encode passing (.tuple vs)
  have hws := Value.map_leaves_encode passing (.tuple ws)
  rw [Value.encode, Logged.map_map, Value.leaves] at hvs hws
  rw [← h] at hws
  exact hvs.trans hws.symm

/-- **Regrouping changes nothing.** Tuples of the same leaves are encoded with the same log, and with
the same error if there is one. Otherwise their parameters agree on every index, and the section, its
length and the arrays are the same. If every column has a value, that length is also known from the
elements: without their two counts each, the lengths of their sections add up. -/
theorem encode_regroup {passing : Passing} {vs ws : List Value}
    (h : (Value.tuple vs).leaves = (Value.tuple ws).leaves) :
    ((Value.tuple vs).encode passing).log = ((Value.tuple ws).encode passing).log ∧
    (∀ e, ((Value.tuple vs).encode passing).result = .error e ↔
      ((Value.tuple ws).encode passing).result = .error e) ∧
    ∀ p, ((Value.tuple vs).encode passing).result = .ok p →
      (∃ q, ((Value.tuple ws).encode passing).result = .ok q ∧ p.Agree q ∧
        p.sectionRun = q.sectionRun ∧ p.completeSection = q.completeSection ∧
        p.sectionLength = q.sectionLength ∧ p.arrays = q.arrays ∧ p.arraysRun = q.arraysRun) ∧
      ((∀ index < p.columns, ∃ value, p.sent index = .ok value) →
        ∃ (ps : List Param) (sizes : List Nat),
          List.Forall₂ (fun v q => (v.encode passing).result = .ok q) vs ps ∧
          ps.map Param.sectionLength = sizes.map .ok ∧ (∀ size ∈ sizes, 4 ≤ size) ∧
          p.sectionLength = .ok (4 + total (sizes.map (· - 4)))) := by
  have heq := encodeAll_eq_of_leavesAll passing h
  have hresult : (Value.encodeAll passing vs).result.map Param.leavesAll =
      (Value.encodeAll passing ws).result.map Param.leavesAll := congrArg Logged.result heq
  have hlog := congrArg Logged.log heq
  refine ⟨hlog, ?_, ?_⟩
  · intro e
    show (Value.encodeAll passing vs).result.map Param.tuple = .error e ↔
      (Value.encodeAll passing ws).result.map Param.tuple = .error e
    rw [Result.map_eq_error, Result.map_eq_error, ← Result.map_eq_error, hresult,
      Result.map_eq_error]
  · intro p hp
    obtain ⟨ps, hps, rfl⟩ := Logged.result_map_eq_ok.1 hp
    refine ⟨?_, ?_⟩
    · rw [hps] at hresult
      obtain ⟨qs, hqs, hleaves⟩ := Result.map_eq_ok.1 hresult.symm
      have hagree : (Param.tuple ps).Agree (.tuple qs) := Param.agree_of_leavesAll hleaves.symm
      have hencode : ((Value.tuple ws).encode passing).result = .ok (.tuple qs) :=
        Logged.result_map_eq_ok.2 ⟨qs, hqs, rfl⟩
      exact ⟨.tuple qs, hencode, hagree, hagree.sectionRun_eq, hagree.completeSection_eq,
        hagree.sectionLength_eq, hagree.arrays_eq, hagree.arraysRun_eq⟩
    · intro hsent
      obtain ⟨values, hvalues⟩ := Param.exists_answers.2 hsent
      obtain ⟨sizes, hsizes, hcounts, hlength⟩ := Param.sectionLength_tuple hvalues
      exact ⟨ps, sizes, Value.encodeAll_eq_ok_iff.1 hps, hsizes, hcounts, hlength⟩

/-- A number, a text that is converted with a log entry, and a column from outside. -/
def trio : Value :=
  .tuple [.int16 1, .converted ["a"] (.string .owned "a"), .foreign (UserTypes.rawText none)]

/-- The same leaves in other tuples, some of them empty. -/
def nestedTrio : Value :=
  .tuple [.tuple [.tuple []], .tuple [.tuple [.int16 1, .converted ["a"] (.string .owned "a")],
    .tuple [.foreign (UserTypes.rawText none)]]]

theorem encode_regroup_trio :
    trio.leaves = nestedTrio.leaves ∧
    (trio.encode .moved).log = (nestedTrio.encode .moved).log ∧
    ∃ p q, (trio.encode .moved).result = .ok p ∧ (nestedTrio.encode .moved).result = .ok q ∧
      p.Agree q ∧ p.sectionLength = .ok 25 := by
  have hleaves : trio.leaves = nestedTrio.leaves := rfl
  have h : (trio.encode .moved).result = .ok (.tuple [.binary [0, 1],
      .text (.owned ⟨[97], by decide⟩), .foreign (UserTypes.rawText none)]) := by rfl
  obtain ⟨hlog, -, hok⟩ := encode_regroup hleaves
  obtain ⟨⟨q, hq, hagree, -⟩, -⟩ := hok _ h
  exact ⟨hleaves, hlog, _, q, h, hq, hagree, rfl⟩

end SqlBind
