import SqlBind.Proofs.Encode.Contract
import SqlBind.Proofs.Param.LeafColumns
import SqlBind.UserTypes.Unchecked

/-!
# Parameters that answer for their columns

To send a column takes its data and its format, and the length of what is binary and not NULL. The
library answers for its own columns, so it is up to the parts that are written outside of it.

* `Param.Responds p`: whatever sending the columns of `p` takes is answered.
* `responds_absent`, `responds_tuple` and their siblings: one for each way to build a parameter.
* `responds_of_outside`: a parameter responds if the parts from outside do.
* `Value.responds_of_encoded`: so does the parameter of a value; `Value.responds_of_isBuiltIn`: that
  of a library value always does.
-/

namespace SqlBind
set_option autoImplicit false

namespace Param

/-- Whatever sending the columns takes is answered. -/
structure Responds (p : Param) : Prop where
  data : ∀ index < p.columns, ∃ value, p.data index = .ok value
  format : ∀ index < p.columns, ∃ format, p.format index = .ok format
  /-- The length is taken of binary data only. -/
  length : ∀ index < p.columns, ∀ bytes, p.data index = .ok (some bytes) →
    p.format index = .ok .binary → ∃ length, p.length index = .ok length

/-! ## Parameters of one column -/

theorem responds_of_columns_eq_one {p : Param} {value : Option Bytes} {format : Format}
    (hcolumns : p.columns = 1) (hdata : p.data 0 = .ok value) (hformat : p.format 0 = .ok format)
    (hlength : value ≠ none → format = .binary → ∃ length, p.length 0 = .ok length) :
    p.Responds := by
  have hzero : ∀ index < p.columns, index = 0 := by omega
  refine ⟨?_, ?_, ?_⟩
  · intro index hindex
    rw [hzero index hindex]
    exact ⟨value, hdata⟩
  · intro index hindex
    rw [hzero index hindex]
    exact ⟨format, hformat⟩
  · intro index hindex bytes hbytes hbinary
    rw [hzero index hindex] at hbytes hbinary ⊢
    cases hdata.symm.trans hbytes
    cases hformat.symm.trans hbinary
    exact hlength (Option.some_ne_none bytes) rfl

theorem responds_null : null.Responds :=
  responds_of_columns_eq_one rfl rfl rfl fun _ _ => ⟨0, rfl⟩

theorem responds_text (t : StoredText) : (text t).Responds :=
  responds_of_columns_eq_one rfl rfl rfl fun _ _ => ⟨0, rfl⟩

theorem responds_binary (bytes : Bytes) : (binary bytes).Responds :=
  responds_of_columns_eq_one rfl rfl rfl fun _ _ => ⟨_, rfl⟩

/-- Of a missing value nothing but the format is taken. -/
theorem responds_absent {inner : Shape} (hformat : ∃ format, inner.format 0 = .ok format) :
    (absent inner).Responds := by
  obtain ⟨format, hformat⟩ := hformat
  exact responds_of_columns_eq_one rfl rfl hformat fun h _ => absurd rfl h

theorem responds_present {inner : Param} (hcolumns : inner.columns = 1) (h : inner.Responds) :
    (present inner).Responds := by
  have hzero : 0 < inner.columns := by omega
  obtain ⟨value, hdata⟩ := h.data 0 hzero
  obtain ⟨format, hformat⟩ := h.format 0 hzero
  refine responds_of_columns_eq_one rfl hdata hformat ?_
  rintro hvalue rfl
  obtain ⟨bytes, rfl⟩ := Option.ne_none_iff_exists'.1 hvalue
  exact h.length 0 hzero bytes hdata hformat

/-! ## Tuples -/

theorem exists_child {ps : List Param} {index : Nat} (h : index < (tuple ps).columns) :
    ∃ p ∈ ps, ∃ inner < p.columns, ∀ {α : Type} {read : Param → Nat → Except Fault α},
      ChildByChild read → read (tuple ps) index = read p inner := by
  induction ps generalizing index with
  | nil => exact absurd h (Nat.not_lt_zero index)
  | cons p rest ih =>
    by_cases hfirst : index < p.columns
    · exact ⟨p, List.mem_cons_self, index, hfirst, fun hread => hread.first hfirst⟩
    · obtain ⟨later, rfl⟩ : ∃ later, index = p.columns + later := ⟨index - p.columns, by omega⟩
      have hlater : later < (tuple rest).columns := by
        rw [columns_tuple_cons] at h
        omega
      obtain ⟨q, hq, inner, hinner, heq⟩ := ih hlater
      exact ⟨q, List.mem_cons_of_mem p hq, inner, hinner,
        fun hread => (hread.later hlater).trans (heq hread)⟩

theorem responds_tuple {ps : List Param} (h : ∀ p ∈ ps, p.Responds) : (tuple ps).Responds where
  data := by
    intro index hindex
    obtain ⟨p, hp, inner, hinner, heq⟩ := exists_child hindex
    rw [heq childByChild_data]
    exact (h p hp).data inner hinner
  format := by
    intro index hindex
    obtain ⟨p, hp, inner, hinner, heq⟩ := exists_child hindex
    rw [heq childByChild_format]
    exact (h p hp).format inner hinner
  length := by
    intro index hindex bytes
    obtain ⟨p, hp, inner, hinner, heq⟩ := exists_child hindex
    rw [heq childByChild_data, heq childByChild_format, heq childByChild_length]
    exact (h p hp).length inner hinner bytes

/-! ## Parts written outside the library -/

/-- **A parameter responds if the parts from outside do.** Of a kind from outside whose value is
missing only the format is taken. -/
theorem responds_of_outside {p : Param} (hp : p.shape.WellFormed)
    (houtside : ∀ param ∈ p.outside, (foreign param).Responds)
    (hkinds : ∀ kind ∈ p.shape.kinds, ∀ index < kind.columns,
      ∃ format, kind.format index = .ok format) : p.Responds := by
  induction p with
  | null => exact responds_null
  | text t => exact responds_text t
  | binary bytes => exact responds_binary bytes
  | absent inner =>
    apply responds_absent
    have hzero : 0 < inner.columns := by rw [hp.1]; exact Nat.one_pos
    exact Shape.exists_answer .format hp.2 hkinds 0 hzero
  | present inner ih => exact responds_present hp.1 (ih hp.2 houtside hkinds)
  | tuple ps ih =>
    apply responds_tuple
    induction ps with
    | nil => exact List.forall_mem_nil _
    | cons p ps ihps =>
      rw [outside, outsideAll, List.forall_mem_append] at houtside
      rw [shape, shapes, Shape.kinds, Shape.kindsAll, List.forall_mem_append] at hkinds
      exact List.forall_mem_cons.2 ⟨ih p List.mem_cons_self hp.1 houtside.1 hkinds.1,
        ihps (fun q hq => ih q (List.mem_cons_of_mem p hq)) hp.2 houtside.2 hkinds.2⟩
  | foreign param => exact houtside param List.mem_cons_self

theorem responds_rawText (value : Option Bytes) :
    (foreign (UserTypes.rawText value)).Responds :=
  ⟨fun _ _ => ⟨_, rfl⟩, fun _ _ => ⟨_, rfl⟩, fun _ _ _ _ _ => ⟨_, rfl⟩⟩

theorem responds_rawBinary (claimed : Int32) (value : Option Bytes) :
    (foreign (UserTypes.rawBinary claimed value)).Responds :=
  ⟨fun _ _ => ⟨_, rfl⟩, fun _ _ => ⟨_, rfl⟩, fun _ _ _ _ _ => ⟨_, rfl⟩⟩

theorem responds_wide (columns : Nat) : (foreign (UserTypes.wide columns)).Responds :=
  ⟨fun _ _ => ⟨_, rfl⟩, fun _ _ => ⟨_, rfl⟩, fun _ _ _ _ _ => ⟨_, rfl⟩⟩

end Param

/-! ## Encoded values -/

namespace Value

mutual
/-- The parameters written outside the library that a value holds. -/
def outside : Value → List Foreign
  | some v => v.outside
  | ref v => v.outside
  | tuple vs => outsideAll vs
  | converted _ target => target.outside
  | foreign param => [param]
  | _ => []
def outsideAll : List Value → List Foreign
  | [] => []
  | v :: rest => v.outside ++ outsideAll rest
end

theorem outside_of_textContent {v : Value} {content : Bytes} (h : v.textContent = .some content) :
    v.outside = [] := by
  cases v with
  | some | ref | tuple | converted | foreign => cases h
  | _ => rfl

theorem outside_of_binaryContent {v : Value} {bytes : Bytes} (h : v.binaryContent = .some bytes) :
    v.outside = [] := by
  cases v with
  | some | ref | tuple | converted | foreign => cases h
  | _ => rfl

theorem outside_of_encoded {passing : Passing} {v : Value} {p : Param} (h : Encoded passing v p) :
    p.outside = v.outside := by
  induction h with
  | null => rfl
  | text hcontent _ => exact (outside_of_textContent hcontent).symm
  | binary hbytes => exact (outside_of_binaryContent hbytes).symm
  | absent inner => rfl
  | present _ ih => exact ih
  | ref _ ih => exact ih
  | nil => rfl
  | @cons passing v vs p ps _ _ ihv ihvs =>
    have hrest : Param.outsideAll ps = outsideAll vs := ihvs
    show p.outside ++ Param.outsideAll ps = v.outside ++ outsideAll vs
    rw [ihv, hrest]
  | converted log _ ih => exact ih
  | foreign param => rfl

/-- **The parameter of a value responds if the parts from outside do.** -/
theorem responds_of_encoded {passing : Passing} {v : Value} {p : Param} (h : Encoded passing v p)
    (hv : v.type.shape.WellFormed) (houtside : ∀ param ∈ v.outside, (Param.foreign param).Responds)
    (hkinds : ∀ kind ∈ v.type.shape.kinds, ∀ index < kind.columns,
      ∃ format, kind.format index = .ok format) : p.Responds := by
  have hshape := shape_of_encoded h
  rw [← hshape] at hv hkinds
  rw [← outside_of_encoded h] at houtside
  exact Param.responds_of_outside hv houtside hkinds

theorem responds_of_isBuiltIn {passing : Passing} {v : Value} {p : Param} (h : Encoded passing v p)
    (hv : v.type.IsBuiltIn) : p.Responds := by
  have hkeeps := keepsContract_of_encoded h hv
  refine ⟨?_, fun index hindex => (hkeeps index hindex).format_eq_ok, ?_⟩
  · intro index hindex
    rcases hkeeps index hindex with ⟨_, _, _, _, hdata⟩ | ⟨_, _, _, _, _, _, hdata⟩
    · exact ⟨_, hdata⟩
    · exact ⟨_, hdata⟩
  · intro index hindex _ _ _
    rcases hkeeps index hindex with ⟨_, _, _, hlength, _⟩ | ⟨_, _, _, _, _, hlength, _⟩
    · exact ⟨_, hlength⟩
    · exact ⟨_, hlength⟩

end Value

end SqlBind
