import Mathlib.Data.List.Forall2
import Mathlib.Logic.Relation
import SqlBind.Proofs.Encode.Passing

/-!
# Conversion

A user value is encoded as what it converts to, so it may as well be replaced by that before it is
encoded, wherever it stands.

* `Value.ConvertsTo v t`: a user value, possibly behind references, and what it converts to.
* `Value.Replaced v w`: somewhere within `v` one user value is replaced by what it converts to.
* `Value.plain v`: all of them are, down to the ends of their chains; `reflTransGen_plain`: one
  replacement after another leads there.
* `Logged.Quieter x y`: the same result, with some log entries of `y` left out.
* `Value.quieter_encode`: one replacement; `Value.quieter_encode_of_reflTransGen`: any number.
* `encode_replaced_agrees`: no replacement changes what comes out.
-/

namespace SqlBind
set_option autoImplicit false

open Relation

/-! ## Types -/

namespace ValueType

/-- A user type, possibly behind references, and what its values convert to. -/
inductive ConvertsTo : ValueType → ValueType → Prop where
  | user (target : ValueType) : ConvertsTo (.converted target) target
  | behind {t target : ValueType} : ConvertsTo t target → ConvertsTo (.ref t) target

/-- Somewhere within the first type one user type is replaced by what its values convert to. -/
inductive Replaced : ValueType → ValueType → Prop where
  | here {t target : ValueType} : t.ConvertsTo target → Replaced t target
  | option {t u : ValueType} : Replaced t u → Replaced (.option t) (.option u)
  | ref {t u : ValueType} : Replaced t u → Replaced (.ref t) (.ref u)
  | element {before after : List ValueType} {t u : ValueType} :
    Replaced t u → Replaced (.tuple (before ++ t :: after)) (.tuple (before ++ u :: after))
  | target {t u : ValueType} : Replaced t u → Replaced (.converted t) (.converted u)

theorem ConvertsTo.shape_eq {t target : ValueType} (h : t.ConvertsTo target) :
    t.shape = target.shape := by
  induction h with
  | user target => rfl
  | behind _ ih => exact ih

theorem Replaced.shape_eq {t u : ValueType} (h : t.Replaced u) : t.shape = u.shape := by
  induction h with
  | here h => exact h.shape_eq
  | option _ ih => exact congrArg Shape.optional ih
  | ref _ ih => exact ih
  | element _ ih =>
    rw [shape, shape, shapes_eq_map, shapes_eq_map]
    simp only [List.map_append, List.map_cons, ih]
  | target _ ih => exact ih

end ValueType

/-! ## Values -/

namespace Value

/-- A user value, possibly behind references, and what it converts to. -/
inductive ConvertsTo : Value → Value → Prop where
  | user (log : List String) (target : Value) : ConvertsTo (.converted log target) target
  | behind {v target : Value} : ConvertsTo v target → ConvertsTo (.ref v) target

/-- Somewhere within the first value one user value is replaced by what it converts to. Of a missing
value there is only the type to replace something in. -/
inductive Replaced : Value → Value → Prop where
  | here {v target : Value} : v.ConvertsTo target → Replaced v target
  | missing {t u : ValueType} : t.Replaced u → Replaced (.none t) (.none u)
  | some {v w : Value} : Replaced v w → Replaced (.some v) (.some w)
  | ref {v w : Value} : Replaced v w → Replaced (.ref v) (.ref w)
  | element {before after : List Value} {v w : Value} :
    Replaced v w → Replaced (.tuple (before ++ v :: after)) (.tuple (before ++ w :: after))
  | target {log : List String} {v w : Value} :
    Replaced v w → Replaced (.converted log v) (.converted log w)

theorem ConvertsTo.type {v target : Value} (h : v.ConvertsTo target) :
    v.type.ConvertsTo target.type := by
  induction h with
  | user log target => exact .user _
  | behind _ ih => exact .behind ih

theorem Replaced.type {v w : Value} (h : v.Replaced w) : v.type.Replaced w.type := by
  induction h with
  | here h => exact .here h.type
  | missing h => exact .option h
  | some _ ih => exact .option ih
  | ref _ ih => exact .ref ih
  | element _ ih =>
    rw [Value.type, Value.type, types_eq_map, types_eq_map]
    simp only [List.map_append, List.map_cons]
    exact .element ih
  | target _ ih => exact .target ih

theorem shape_eq_of_reflTransGen {v w : Value} (h : ReflTransGen Replaced v w) :
    v.type.shape = w.type.shape := by
  induction h with
  | refl => rfl
  | tail _ hstep ih => exact ih.trans hstep.type.shape_eq

/-! ## All replacements at once -/

theorem reflTransGen_elements {vs ws : List Value} (h : List.Forall₂ (ReflTransGen Replaced) vs ws)
    (before : List Value) :
    ReflTransGen Replaced (.tuple (before ++ vs)) (.tuple (before ++ ws)) := by
  induction h generalizing before with
  | nil => exact .refl
  | @cons v w vs ws hfirst _ ih =>
    have hlater := ih (before ++ [w])
    rw [List.append_assoc, List.append_assoc] at hlater
    have hfirst : ReflTransGen Replaced (.tuple (before ++ v :: vs)) (.tuple (before ++ w :: vs)) :=
      hfirst.lift (fun u => Value.tuple (before ++ u :: vs)) (fun _ _ h => h.element) v w
    exact hfirst.trans hlater

mutual
/-- The value with every user value in it replaced by the end of its chain. -/
def plain : Value → Value
  | some v => .some v.plain
  | ref v => .ref v.plain
  | tuple vs => .tuple (plainAll vs)
  | converted _ target => target.plain
  | v => v
def plainAll : List Value → List Value
  | [] => []
  | v :: rest => v.plain :: plainAll rest
end

theorem reflTransGen_plain (v : Value) : ReflTransGen Replaced v v.plain := by
  induction v with
  | some v ih => exact ih.lift Value.some (fun _ _ h => h.some) _ _
  | ref v ih => exact ih.lift Value.ref (fun _ _ h => h.ref) _ _
  | tuple vs ih =>
    refine reflTransGen_elements ?_ []
    induction vs with
    | nil => exact .nil
    | cons v rest ihrest =>
      exact .cons (ih v List.mem_cons_self) (ihrest fun w hw => ih w (List.mem_cons_of_mem v hw))
  | converted log target ih => exact .head (.here (.user log target)) ih
  | _ => exact .refl

end Value

theorem Bindable.convertsTo {α : Type} [Bindable α] (a : α) :
    (Bindable.value a).ConvertsTo (Bindable.conversion a) :=
  .user _ _

/-! ## Results with fewer log entries -/

namespace Logged

variable {α β : Type}

/-- The same result, with some of the log entries left out. -/
structure Quieter (x y : Logged α) : Prop where
  result : x.result = y.result
  log : x.log.Sublist y.log

namespace Quieter

variable {x y z : Logged α}

theorem refl (x : Logged α) : x.Quieter x :=
  ⟨rfl, .refl _⟩

theorem trans (h : x.Quieter y) (h' : y.Quieter z) : x.Quieter z :=
  ⟨h.result.trans h'.result, h.log.trans h'.log⟩

theorem map (h : x.Quieter y) (f : α → β) : (x.map f).Quieter (y.map f) :=
  ⟨congrArg (Except.map f) h.result, h.log⟩

theorem bind (h : x.Quieter y) {f g : α → Logged β} (hfg : ∀ a, (f a).Quieter (g a)) :
    (x.bind f).Quieter (y.bind g) := by
  unfold Logged.bind
  rw [h.result]
  cases y.result with
  | ok a => exact ⟨(hfg a).result, h.log.append (hfg a).log⟩
  | error e => exact ⟨rfl, h.log⟩

theorem after (h : x.Quieter y) (log : List String) : (x.after log).Quieter (y.after log) :=
  ⟨h.result, h.log.append_left log⟩

theorem of_after (log : List String) (x : Logged α) : x.Quieter (x.after log) :=
  ⟨rfl, List.sublist_append_right log x.log⟩

end Quieter

end Logged

/-! ## Encoding -/

namespace Value

open Param

theorem quieter_encode_target {v target : Value} (h : v.ConvertsTo target) (passing : Passing) :
    ((target.encode passing).map onHeap).Quieter ((v.encode passing).map onHeap) := by
  induction h generalizing passing with
  | user log target =>
    -- What a user value converts to is given away.
    rw [map_onHeap_encode target passing .moved]
    exact .of_after log _
  | @behind v target _ ih =>
    rw [map_onHeap_encode target passing passing.behind]
    exact ih passing.behind

theorem quieter_encodeAll_element {passing : Passing} {v w : Value}
    (h : ((w.encode passing).map onHeap).Quieter ((v.encode passing).map onHeap))
    (before after : List Value) :
    ((encodeAll passing (before ++ w :: after)).map (List.map onHeap)).Quieter
      ((encodeAll passing (before ++ v :: after)).map (List.map onHeap)) := by
  induction before with
  | nil =>
    rw [List.nil_append, List.nil_append, map_onHeap_encodeAll_cons, map_onHeap_encodeAll_cons]
    exact h.bind fun p => .refl _
  | cons u before ih =>
    rw [List.cons_append, List.cons_append, map_onHeap_encodeAll_cons, map_onHeap_encodeAll_cons]
    exact (Logged.Quieter.refl _).bind fun p => ih.map (p :: ·)

theorem quieter_encode {v w : Value} (h : v.Replaced w) (passing : Passing) :
    ((w.encode passing).map onHeap).Quieter ((v.encode passing).map onHeap) := by
  induction h generalizing passing with
  | here h => exact quieter_encode_target h passing
  | missing h =>
    rw [encode, encode, h.shape_eq]
    exact .refl _
  | some _ ih =>
    rw [map_onHeap_encode_some, map_onHeap_encode_some]
    exact (ih passing).map Param.present
  | ref _ ih => exact ih passing.behind
  | element _ ih =>
    rw [map_onHeap_encode_tuple, map_onHeap_encode_tuple]
    exact (quieter_encodeAll_element (ih passing) _ _).map Param.tuple
  | @target log v w _ ih => exact (ih .moved).after log

theorem quieter_encode_of_reflTransGen {v w : Value} (h : ReflTransGen Replaced v w)
    (passing : Passing) :
    ((w.encode passing).map onHeap).Quieter ((v.encode passing).map onHeap) := by
  induction h with
  | refl => exact .refl _
  | tail _ hstep ih => exact (quieter_encode hstep passing).trans ih

end Value

/-- **What a user value converts to can stand in its place.** Any number of user values within a
value may be replaced by what they convert to, one step or more of each chain, without any effect
but on the log, from which entries can only go. The shape of the parameter, which is known from the
type, is the same. There is the same error, or parameters of which everything that can be asked has
the same answer. -/
theorem encode_replaced_agrees {v w : Value} (h : ReflTransGen Value.Replaced v w) (a b : Passing) :
    v.type.shape = w.type.shape ∧
    (w.encode b).log.Sublist (v.encode a).log ∧
    (∀ e, (v.encode a).result = .error e ↔ (w.encode b).result = .error e) ∧
    ∀ p, (v.encode a).result = .ok p → ∃ q, (w.encode b).result = .ok q ∧
      p.columns = q.columns ∧
      (∀ index, p.data index = q.data index ∧ p.length index = q.length index ∧
        p.format index = q.format index) ∧
      p.sectionRun = q.sectionRun ∧
      p.completeSection = q.completeSection ∧
      p.sectionLength = q.sectionLength ∧
      p.arrays = q.arrays ∧
      p.arraysRun = q.arraysRun ∧
      p.isNull? = q.isNull? ∧
      p.debug = q.debug := by
  have hquieter := Value.quieter_encode_of_reflTransGen h b
  rw [Value.map_onHeap_encode v b a] at hquieter
  have hresult := hquieter.result.symm
  refine ⟨Value.shape_eq_of_reflTransGen h, hquieter.log, ?_, ?_⟩
  · intro e
    have herror : ((v.encode a).map Param.onHeap).result = .error e ↔
        ((w.encode b).map Param.onHeap).result = .error e := by rw [hresult]
    exact Result.map_eq_error.symm.trans (herror.trans Result.map_eq_error)
  · intro p hp
    obtain ⟨q, hq, halike⟩ := Value.exists_alike_of_map_onHeap hresult hp
    have hagree := halike.agree
    refine ⟨q, hq, hagree.columns, ?_, hagree.sectionRun_eq, hagree.completeSection_eq,
      hagree.sectionLength_eq, hagree.arrays_eq, hagree.arraysRun_eq, halike.isNull?_eq,
      halike.debug_eq⟩
    intro index
    exact ⟨hagree.data index, hagree.length index, hagree.format index⟩

/-- User values side by side, behind a reference, in an optional value, in a wrapper and with a
conversion that is logged: chains of conversions, one to two columns and one to a missing value. -/
def caravan : Value :=
  .tuple [Bindable.value (UserTypes.Pair.mk 3 "a"),
    .tuple [.ref (Bindable.value (UserTypes.Height.mk ⟨7⟩)),
      Bindable.value (UserTypes.Positive.mk (-1))],
    Bindable.value (UserTypes.Maybe.present (Bindable.value (UserTypes.Probe.mk "b"))),
    .some (Bindable.value UserTypes.Level.high)]

/-- The same with built-in types only. -/
def freight : Value :=
  .tuple [.tuple [.int16 3, .string .owned "a"], .tuple [.ref (.int32 7), .none .int64],
    .some (.string .owned "b"), .some (.string .borrowed "high")]

theorem encode_replaced_agrees_caravan :
    ReflTransGen Value.Replaced caravan freight ∧
    (caravan.encode .lent).log = ["b"] ∧ (freight.encode .moved).log = [] ∧
    ∃ p q, (caravan.encode .lent).result = .ok p ∧ (freight.encode .moved).result = .ok q ∧
      p.columns = 6 ∧ q.columns = 6 ∧ p.data 3 = .ok none ∧ q.data 3 = .ok none ∧
      p.completeSection = q.completeSection ∧ p.sectionLength = .ok 52 ∧ p.debug = q.debug := by
  have hpair : Value.Replaced caravan _ :=
    @Value.Replaced.element [] _ _ _ (.here (Bindable.convertsTo (UserTypes.Pair.mk 3 "a")))
  have h : ReflTransGen Value.Replaced caravan freight := .head hpair (Value.reflTransGen_plain _)
  have hp : (caravan.encode .lent).result = .ok (.tuple [
      .tuple [.binary [0, 3], .text (.heap [97, 0])],
      .tuple [.binary [0, 0, 0, 7], .absent (.binary 8)],
      .present (.text (.heap [98, 0])), .present (.text (.heap [104, 105, 103, 104, 0]))]) := by rfl
  obtain ⟨-, hlog, -, hok⟩ := encode_replaced_agrees h .lent .moved
  obtain ⟨q, hq, hcolumns, hdata, -, hsection, hlength, -, -, -, hdebug⟩ := hok _ hp
  exact ⟨h, rfl, rfl, _, q, hp, hq, rfl, hcolumns.symm.trans rfl, rfl, (hdata 3).1.symm.trans rfl,
    hsection, rfl, hdebug⟩

end SqlBind
