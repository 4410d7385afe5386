import SqlBind.Proofs.Encode.Logged
import SqlBind.Proofs.Encode.Text
import SqlBind.Proofs.Induction

/-!
# The parameters of a value

* `Value.textContent`, `Value.binaryContent`: what the column of a scalar value holds.
* `Value.Encoded passing v p`: the rules by which a value has a parameter, one for each way to build
  a value; `encoded_of_encode`: an encoding that succeeds follows them. Proofs about encoded values
  are inductions over these rules.
* `shape_of_encoded`: a parameter has the shape that the type of the value announces.
-/

namespace SqlBind
set_option autoImplicit false

namespace Value

/-- The content of a scalar that is sent as text, without the nul behind it. -/
def textContent : Value → Option Bytes
  | bool b => .some (utf8 (if b then "TRUE" else "FALSE").toList)
  | char c => .some (utf8 [c])
  | decimal n => .some (utf8 (Numeral.ofInt n.val))
  | extended x => .some (utf8 x.text)
  | string _ s => .some (utf8 s.toList)
  | ctext _ t => .some t.bytes
  | bytes _ bs => .some (utf8 ('\\' :: 'x' :: Hex.digits bs))
  | date d => .some (utf8 d.text)
  | timestamp t => .some (utf8 t.text)
  | timestampUtc t => .some (utf8 t.utcText)
  | json d => d.text.toOption.map utf8
  | _ => .none

/-- The bytes of a scalar that is sent in its binary form. -/
def binaryContent : Value → Option Bytes
  | int16 n => .some (Network.int16 n)
  | int32 n => .some (Network.int32 n)
  | int64 n => .some (Network.int64 n)
  | float32 bits => .some (Network.int32 (Network.word32 bits))
  | float64 bits => .some (Network.int64 (Network.word64 bits))
  | _ => .none

/-- The rules by which a value has a parameter. -/
inductive Encoded : Passing → Value → Param → Prop where
  | null {passing : Passing} : Encoded passing null .null
  | text {passing : Passing} {v : Value} {t : StoredText} {content : Bytes} :
    v.textContent = .some content → t.Holds content → Encoded passing v (.text t)
  | binary {passing : Passing} {v : Value} {bytes : Bytes} :
    v.binaryContent = .some bytes → Encoded passing v (.binary bytes)
  | absent {passing : Passing} (inner : ValueType) :
    Encoded passing (none inner) (.absent inner.shape)
  | present {passing : Passing} {v : Value} {p : Param} :
    Encoded passing v p → Encoded passing (some v) (.present p)
  | ref {passing : Passing} {v : Value} {p : Param} :
    Encoded passing.behind v p → Encoded passing (ref v) p
  | nil {passing : Passing} : Encoded passing (tuple []) (.tuple [])
  | cons {passing : Passing} {v : Value} {vs : List Value} {p : Param} {ps : List Param} :
    Encoded passing v p → Encoded passing (tuple vs) (.tuple ps) →
      Encoded passing (tuple (v :: vs)) (.tuple (p :: ps))
  | converted {passing : Passing} (log : List String) {target : Value} {p : Param} :
    Encoded .moved target p → Encoded passing (converted log target) p
  | foreign {passing : Passing} (param : Foreign) : Encoded passing (foreign param) (.foreign param)

/-! ## Encoding follows the rules -/

theorem encoded_tuple {passing : Passing} {vs : List Value} {ps : List Param}
    (h : List.Forall₂ (Encoded passing) vs ps) : Encoded passing (tuple vs) (.tuple ps) := by
  induction h with
  | nil => exact .nil
  | cons hv _ ih => exact .cons hv ih

theorem encoded_of_map {passing : Passing} {v : Value} {p : Param} {content : Bytes}
    {result : Except EncodeError StoredText} (hcontent : v.textContent = .some content)
    (hfrom : ∀ t, result = .ok t → t.ComesFrom content) (h : result.map .text = .ok p) :
    Encoded passing v p := by
  obtain ⟨t, ht, rfl⟩ := Result.map_eq_ok.1 h
  exact .text hcontent (hfrom t ht).holds

theorem encoded_of_encode {passing : Passing} {v : Value} {p : Param}
    (h : (v.encode passing).result = .ok p) : Encoded passing v p := by
  induction v generalizing passing p with
  | null =>
    cases h
    exact .null
  | bool b =>
    cases h
    exact .text rfl (Encode.comesFrom_boolText b).holds
  | char c => exact encoded_of_map rfl (fun _ => Encode.comesFrom_charText) h
  | decimal n =>
    cases h
    exact .text rfl (Encode.comesFrom_integerText n.val).holds
  | int16 n =>
    cases h
    exact .binary rfl
  | int32 n =>
    cases h
    exact .binary rfl
  | int64 n =>
    cases h
    exact .binary rfl
  | float32 bits =>
    cases h
    exact .binary rfl
  | float64 bits =>
    cases h
    exact .binary rfl
  | extended x =>
    cases h
    exact .text rfl (Encode.comesFrom_extendedText x).holds
  | string own s => exact encoded_of_map rfl (fun _ => Encode.comesFrom_textOf) h
  | ctext own t =>
    cases h
    exact .text rfl (Encode.comesFrom_ctextText passing own t).holds
  | bytes own bs =>
    cases h
    exact .text rfl (Encode.comesFrom_byteaText bs).holds
  | date d => exact encoded_of_map rfl (fun _ => Encode.comesFrom_textOf) h
  | timestamp t => exact encoded_of_map rfl (fun _ => Encode.comesFrom_textOf) h
  | timestampUtc t => exact encoded_of_map rfl (fun _ => Encode.comesFrom_textOf) h
  | none inner =>
    cases h
    exact .absent inner
  | some v ih =>
    obtain ⟨q, hq, rfl⟩ := Logged.result_map_eq_ok.1 h
    exact .present (ih hq)
  | ref v ih => exact .ref (ih h)
  | tuple vs ih =>
    obtain ⟨ps, hps, rfl⟩ := Logged.result_map_eq_ok.1 h
    apply encoded_tuple
    rw [encodeAll_eq_ok_iff] at hps
    clear h
    induction hps with
    | nil => exact .nil
    | cons hv _ ihvs =>
      exact .cons (ih _ List.mem_cons_self hv) (ihvs fun w hw => ih w (List.mem_cons_of_mem _ hw))
  | json d =>
    obtain ⟨t, ht, rfl⟩ := Result.map_eq_ok.1 h
    obtain ⟨cs, hcs, hfrom⟩ := Encode.comesFrom_jsonText ht
    exact .text (by rw [textContent, hcs]; rfl) hfrom.holds
  | converted log target ih => exact .converted log (ih h)
  | foreign param =>
    cases h
    exact .foreign param

/-! ## Shapes -/

theorem shape_of_textContent {v : Value} {content : Bytes} (h : v.textContent = .some content) :
    v.type.shape = .text := by
  cases v with
  | bool | char | decimal | extended | string | ctext | bytes | date | timestamp => rfl
  | timestampUtc | json => rfl
  | _ => cases h

theorem shape_of_binaryContent {v : Value} {bytes : Bytes} (h : v.binaryContent = .some bytes) :
    v.type.shape = .binary bytes.length := by
  cases v <;> cases h <;> rfl

theorem shape_of_encoded {passing : Passing} {v : Value} {p : Param} (h : Encoded passing v p) :
    p.shape = v.type.shape := by
  induction h with
  | null => rfl
  | text hcontent _ => exact (shape_of_textContent hcontent).symm
  | binary hbytes => exact (shape_of_binaryContent hbytes).symm
  | absent inner => rfl
  | present _ ih => exact congrArg Shape.optional ih
  | ref _ ih => exact ih
  | nil => rfl
  | @cons passing v vs p ps _ _ ihv ihvs =>
    have hrest : Param.shapes ps = ValueType.shapes (types vs) := Shape.tuple.inj ihvs
    show Shape.tuple (p.shape :: Param.shapes ps) =
      Shape.tuple (v.type.shape :: ValueType.shapes (types vs))
    rw [ihv, hrest]
  | converted log _ ih => exact ih
  | foreign param => rfl

theorem columns_of_encoded {passing : Passing} {v : Value} {p : Param} (h : Encoded passing v p) :
    p.columns = v.type.columns :=
  congrArg Shape.columns (shape_of_encoded h)

end Value

end SqlBind
