import SqlBind.Proofs.Bind.Framing
import SqlBind.Proofs.Encode.Contract
import SqlBind.Proofs.Wire.Scalars

/-!
# Decoding

The columns of a section say nothing about how they belong together, but the type does: it says how
many columns each part of a value has and how each of them is read.

* `ValueType.IsReadable`: the types whose values can be read back.
* `ValueType.reader`: reads a value of a type off a row of columns; `ValueType.decode?` reads it off
  a section.
* `Value.restored`: the value that is read back. A present optional value is read back as a missing
  one if its column is NULL, and nothing else changes.
* `decode_encode`: decoding undoes encoding.
-/

namespace SqlBind
set_option autoImplicit false

/-! ## Reading by type -/

namespace ValueType

mutual
/-- The values of the type can be read back: it is built from truth values, characters, integers,
floating-point numbers in binary form, texts and byte strings. -/
def IsReadable : ValueType → Prop
  | null | bool | char | decimal _ | int16 | int32 | int64 | float32 | float64 => True
  | string _ | ctext _ | bytes _ => True
  | option inner => inner.columns = 1 ∧ inner.IsReadable
  | ref inner => inner.IsReadable
  | tuple elements => AllReadable elements
  | converted target => target.IsReadable
  | _ => False
def AllReadable : List ValueType → Prop
  | [] => True
  | t :: rest => t.IsReadable ∧ AllReadable rest
end

theorem allReadable_iff {types : List ValueType} :
    AllReadable types ↔ ∀ t ∈ types, t.IsReadable := by
  induction types with
  | nil => simp [AllReadable]
  | cons t rest ih => simp [AllReadable, ih]

/-- The value that one column stands for: NULL is read as the value that is always missing. -/
def column? : ValueType → Option Bytes → Option Value
  | t, some content => t.scalar? content
  | null, none => some .null
  | _, none => none

/-- Reads a missing value if the next column is NULL. -/
def orMissing (inner : ValueType) (read : Reader (Option Bytes) Value) :
    Reader (Option Bytes) Value := fun row =>
  match row with
  | none :: rest => some (.none inner, rest)
  | _ => read row

mutual
/-- Reads a value of the type off a row of columns. What a conversion logs is not read. -/
def reader : ValueType → Reader (Option Bytes) Value
  | option inner => orMissing inner (.some <$> inner.reader)
  | ref inner => .ref <$> inner.reader
  | tuple elements => .tuple <$> readers elements
  | converted target => .converted [] <$> target.reader
  | t => Reader.next >>= fun value => StateT.lift (t.column? value)
def readers : List ValueType → Reader (Option Bytes) (List Value)
  | [] => pure []
  | t :: rest => do
    let v ← t.reader
    let vs ← readers rest
    return v :: vs
end

theorem isBuiltIn_of_isReadable {t : ValueType} (h : t.IsReadable) : t.IsBuiltIn := by
  induction t with
  | option inner ih => exact ⟨h.1, ih h.2⟩
  | ref inner ih => exact ih h
  | tuple elements ih =>
    rw [IsReadable, allReadable_iff] at h
    rw [IsBuiltIn, allBuiltIn_iff]
    exact fun t ht => ih t ht (h t ht)
  | converted target ih => exact ih h
  | foreign kind => exact h.elim
  | _ => exact True.intro

/-- Reads a value of the type off a section. -/
def decode? (t : ValueType) (bytes : Bytes) : Option Value := do
  let found ← Section.reader.whole bytes
  t.reader.whole found.values

end ValueType

/-! ## What is read back -/

namespace Value

mutual
/-- Some column of the value is NULL; columns from outside are left aside. -/
def hasNull : Value → Bool
  | null => true
  | none _ => true
  | some v => v.hasNull
  | ref v => v.hasNull
  | tuple vs => anyNull vs
  | converted _ target => target.hasNull
  | _ => false
def anyNull : List Value → Bool
  | [] => false
  | v :: rest => v.hasNull || anyNull rest
end

mutual
/-- The value as it is read back: a present value is missing if its column is NULL. The log of a
conversion is no part of the value. -/
def restored : Value → Value
  | some v => if v.hasNull then .none v.type else .some v.restored
  | ref v => .ref v.restored
  | tuple vs => .tuple (restoredAll vs)
  | converted _ target => .converted [] target.restored
  | v => v
def restoredAll : List Value → List Value
  | [] => []
  | v :: rest => v.restored :: restoredAll rest
end

mutual
/-- No present value has a column that is NULL, and no conversion is logged. -/
def IsPlain : Value → Prop
  | some v => v.hasNull = false ∧ v.IsPlain
  | ref v => v.IsPlain
  | tuple vs => AllPlain vs
  | converted log target => log = [] ∧ target.IsPlain
  | _ => True
def AllPlain : List Value → Prop
  | [] => True
  | v :: rest => v.IsPlain ∧ AllPlain rest
end

theorem restoredAll_eq_self {vs : List Value} (h : ∀ v ∈ vs, v.IsPlain → v.restored = v)
    (hvs : AllPlain vs) : restoredAll vs = vs := by
  induction vs with
  | nil => rfl
  | cons v rest ih =>
    have hfirst := h v List.mem_cons_self hvs.1
    have hrest := ih (fun w hw => h w (List.mem_cons_of_mem v hw)) hvs.2
    rw [restoredAll, hfirst, hrest]

theorem restored_eq_self {v : Value} (h : v.IsPlain) : v.restored = v := by
  induction v with
  | some v ih =>
    rw [restored, if_neg (by simp [h.1]), ih h.2]
  | ref v ih => rw [restored, ih h]
  | tuple vs ih => rw [restored, restoredAll_eq_self ih h]
  | converted log target ih => rw [restored, ih h.2, h.1]
  | _ => rfl

theorem hasNull_of_textContent {v : Value} {content : Bytes} (h : v.textContent = .some content) :
    v.hasNull = false := by
  cases v with
  | null | none | some | ref | tuple | converted => cases h
  | _ => rfl

theorem hasNull_of_binaryContent {v : Value} {bytes : Bytes} (h : v.binaryContent = .some bytes) :
    v.hasNull = false := by
  cases v with
  | null | none | some | ref | tuple | converted => cases h
  | _ => rfl

/-! ## Columns -/

theorem reads_column {t : ValueType} {value : Option Bytes} {v : Value}
    (h : t.column? value = .some v) :
    Reads (Reader.next >>= fun value => StateT.lift (t.column? value)) [value] v := by
  intro rest
  show (t.column? value >>= fun v => Option.some (v, rest)) = Option.some (v, rest)
  rw [h]
  rfl

theorem scalar?_of_textContent {v : Value} {content : Bytes} (hv : v.type.IsReadable)
    (h : v.textContent = .some content) : v.type.scalar? content = .some v := by
  cases v with
  | bool b =>
    cases h
    exact congrArg (Option.map bool) (Scalar.bool?_word b)
  | char c =>
    cases h
    exact congrArg (Option.map char) (Scalar.char?_utf8 c)
  | decimal n =>
    cases h
    exact congrArg (Option.map decimal) (Scalar.integer?_ofInt n)
  | string own s =>
    cases h
    exact congrArg (Option.map (string own)) (Scalar.string?_utf8 s)
  | ctext own t =>
    cases h
    exact congrArg (Option.map (ctext own)) (Scalar.ctext?_bytes t)
  | bytes own bs =>
    cases h
    exact congrArg (Option.map (bytes own)) (Scalar.bytes?_digits bs)
  | extended | date | timestamp | timestampUtc | json => exact hv.elim
  | _ => cases h

theorem reads_of_scalar {v : Value} {content : Bytes} (h : v.type.scalar? content = .some v) :
    Reads v.type.reader [.some content] v.restored := by
  cases v with
  | bool | char | decimal | int16 | int32 | int64 | float32 | float64 => exact reads_column h
  | string | ctext | bytes => exact reads_column h
  | _ => cases h

theorem reads_present {v : Value} {value : Option Bytes} (hnull : v.hasNull = value.isNone)
    (h : Reads v.type.reader [value] v.restored) :
    Reads (some v).type.reader [value] (some v).restored := by
  intro rest
  cases value with
  | none =>
    have hmissing : (some v).restored = .none v.type := if_pos hnull
    rw [hmissing]
    rfl
  | some content =>
    have hpresent : (some v).restored = .some v.restored := if_neg (by simp [hnull])
    rw [hpresent]
    exact h.map Value.some rest

theorem exists_answers_of_sent {p : Param} {v : Value} {value : Option Bytes}
    (hcolumns : p.columns = 1) (hsent : p.sent 0 = .ok value) (hnull : v.hasNull = value.isNone)
    (hread : Reads v.type.reader [value] v.restored) :
    ∃ values : List (Option Bytes), p.answers Param.sent = values.map .ok ∧
      v.hasNull = values.any Option.isNone ∧ Reads v.type.reader values v.restored := by
  refine ⟨[value], ?_, ?_, hread⟩
  · rw [Param.answers_of_columns_eq_one Param.sent hcolumns, hsent]
    rfl
  · rw [hnull, List.any_cons, List.any_nil, Bool.or_false]

/-- **Encoded columns are read back.** What is sent for the columns of a value is read back by its
type as the restored value. -/
theorem reads_of_encoded {passing : Passing} {v : Value} {p : Param} (h : Encoded passing v p)
    (hv : v.type.IsReadable) :
    ∃ values : List (Option Bytes), p.answers Param.sent = values.map .ok ∧
      v.hasNull = values.any Option.isNone ∧ Reads v.type.reader values v.restored := by
  induction h with
  | null => exact exists_answers_of_sent rfl rfl rfl (reads_column rfl)
  | text hcontent hholds =>
    exact exists_answers_of_sent rfl (Param.sent_text hholds) (hasNull_of_textContent hcontent)
      (reads_of_scalar (scalar?_of_textContent hv hcontent))
  | binary hbytes =>
    exact exists_answers_of_sent rfl (Param.sent_binary (length_binaryContent hbytes))
      (hasNull_of_binaryContent hbytes) (reads_of_scalar (scalar?_of_binaryContent hbytes))
  | absent inner => exact exists_answers_of_sent rfl rfl rfl fun rest => rfl
  | @present passing v p hp ih =>
    obtain ⟨values, hanswers, hnull, hread⟩ := ih hv.2
    have hcolumns : p.columns = 1 := (columns_of_encoded hp).trans hv.1
    -- A value of one column is read off one column.
    rw [Param.answers_of_columns_eq_one Param.sent hcolumns] at hanswers
    obtain ⟨value, hvalues, hsent⟩ := List.map_eq_singleton_iff.1 hanswers.symm
    subst hvalues
    rw [List.any_cons, List.any_nil, Bool.or_false] at hnull
    exact exists_answers_of_sent rfl ((Param.sent_present p).trans hsent.symm) hnull
      (reads_present hnull hread)
  | ref _ ih =>
    obtain ⟨values, hanswers, hnull, hread⟩ := ih hv
    exact ⟨values, hanswers, hnull, hread.map Value.ref⟩
  | nil => exact ⟨[], rfl, rfl, fun rest => rfl⟩
  | @cons passing v vs p ps _ _ ihv ihvs =>
    obtain ⟨values, hanswers, hnull, hread⟩ := ihv hv.1
    obtain ⟨values', hanswers', hnull', hread'⟩ := ihvs hv.2
    refine ⟨values ++ values', ?_, ?_, ?_⟩
    · rw [Param.answers_tuple_cons Param.childByChild_sent, hanswers, hanswers', List.map_append]
    · rw [List.any_append, ← hnull, ← hnull']
      rfl
    · have hrest : Reads (ValueType.readers (types vs)) values' (restoredAll vs) :=
        Reads.of_map (fun _ _ => Value.tuple.inj) hread'
      have hcons := hrest.map (v.restored :: ·)
      exact (hread.bind hcons).map Value.tuple
  | converted log _ ih =>
    obtain ⟨values, hanswers, hnull, hread⟩ := ih hv
    exact ⟨values, hanswers, hnull, hread.map (Value.converted [])⟩
  | foreign param => exact hv.elim

end Value

theorem decode?_of_encode {passing : Passing} {v : Value} {p : Param} {bytes : Bytes}
    (hv : v.type.IsReadable) (h : (v.encode passing).result = .ok p)
    (hbytes : p.completeSection = .ok bytes) : v.type.decode? bytes = some v.restored := by
  obtain ⟨values, hanswers, -, hread⟩ := Value.reads_of_encoded (Value.encoded_of_encode h) hv
  obtain ⟨formats, values', -, hanswers', hsection⟩ := reads_completeSection hbytes
  -- The values in the section are those that are sent for the columns.
  have hvalues : values' = values := by
    rw [hanswers] at hanswers'
    exact (List.map_injective_iff.2 (fun _ _ => Except.ok.inj) hanswers').symm
  rw [hvalues] at hsection
  rw [ValueType.decode?, hsection.whole]
  exact hread.whole

/-- **Decoding undoes encoding.** A readable value that is encoded has a section just when its
columns can be counted and their values fit. Read by the type of the value, the section gives the
value back, but for present values whose column is NULL: those are missing. So all values of the
type that have this section are restored to the same value. -/
theorem decode_encode {passing : Passing} {v : Value} {p : Param} (hv : v.type.IsReadable)
    (h : (v.encode passing).result = .ok p) :
    ((∃ bytes, p.completeSection = .ok bytes) ↔ p.columns ≤ mostColumns ∧ p.Fits) ∧
    ∀ bytes, p.completeSection = .ok bytes →
      v.type.decode? bytes = some v.restored ∧
      (v.IsPlain → v.type.decode? bytes = some v) ∧
      ∀ (passing' : Passing) (w : Value) (q : Param), w.type = v.type →
        (w.encode passing').result = .ok q → q.completeSection = .ok bytes →
          w.restored = v.restored := by
  have hbuiltIn := ValueType.isBuiltIn_of_isReadable hv
  have hsection := Param.exists_completeSection_iff (Value.format_eq_ok_of_encode hbuiltIn h)
    (Value.sent_eq_ok_of_encode hbuiltIn h)
  refine ⟨hsection, ?_⟩
  intro bytes hbytes
  have hback := decode?_of_encode hv h hbytes
  refine ⟨hback, ?_, ?_⟩
  · intro hplain
    rw [hback, Value.restored_eq_self hplain]
  · intro passing' w q htype hencode hsame
    have hback' := decode?_of_encode (htype ▸ hv) hencode hsame
    rw [htype, hback] at hback'
    exact (Option.some.inj hback').symm

/-- Columns that can be counted do not always have a section to be read back from. -/
theorem not_always_read_back :
    ¬ ∀ (passing : Passing) (v : Value) (p : Param), v.type.IsReadable →
      (v.encode passing).result = .ok p → p.columns ≤ mostColumns →
      ∃ bytes, p.completeSection = .ok bytes ∧ v.type.decode? bytes = some v.restored := by
  intro h
  obtain ⟨bytes, hbytes, -⟩ := h .moved (.ctext .owned longText) (.text (.owned longText))
    True.intro rfl (Param.columns_text_le _)
  have hfault := (Param.completeSection_eq_ok_iff_sectionRun.1 hbytes).1
  rw [fault_longText] at hfault
  cases hfault

/-- Numbers and texts, a value that is there but NULL, and parts without columns. -/
def medley : Value :=
  .tuple [.some (.int16 (-1)), .tuple [], .some .null, .string .owned "",
    .ref (.tuple [.bool true, .none (.tuple [.tuple [], .char])])]

theorem decode_encode_medley :
    ∃ p bytes, (medley.encode .moved).result = .ok p ∧ p.completeSection = .ok bytes ∧
      medley.type.decode? bytes = some (.tuple [.some (.int16 (-1)), .tuple [], .none .null,
        .string .owned "", .ref (.tuple [.bool true, .none (.tuple [.tuple [], .char])])]) := by
  have hreadable : medley.type.IsReadable := by
    simp [medley, Value.type, Value.types, ValueType.IsReadable, ValueType.AllReadable,
      ValueType.columns, ValueType.shape, ValueType.shapes, Shape.columns, Shape.widths]
  have h : (medley.encode .moved).result = .ok
      (.tuple [.present (.binary [255, 255]), .tuple [], .present .null, .text (.owned ⟨[], by simp⟩),
        .tuple [.text (.literal "TRUE"), .absent (.tuple [.tuple [], .text])]]) := by rfl
  have hsection : Param.completeSection
      (.tuple [.present (.binary [255, 255]), .tuple [], .present .null, .text (.owned ⟨[], by simp⟩),
        .tuple [.text (.literal "TRUE"), .absent (.tuple [.tuple [], .text])]]) = .ok
      [0, 5, 0, 1, 0, 0, 0, 0, 0, 0, 0, 0, 0, 5, 0, 0, 0, 2, 255, 255, 255, 255, 255, 255, 0, 0, 0, 0,
        0, 0, 0, 4, 84, 82, 85, 69, 255, 255, 255, 255] := by rfl
  exact ⟨_, _, h, hsection, ((decode_encode hreadable h).2 _ hsection).1⟩

end SqlBind
