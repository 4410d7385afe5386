import Mathlib.Logic.Function.Iterate
import SqlBind.Proofs.Encode.FirstFailure
import SqlBind.Proofs.Encode.Text

/-!
# Where a document cannot be written

A document is written from left to right. Its scalars can be written, but a value may refuse, and
not every document is a key. A key is one place, whatever it is made of.

* `Json.Site`: a place in a document, a value or a key; `Document.sites` lists them in the order of
  writing.
* `Document.IsScalarKey`, `Document.IsKey`: the documents that are keys.
* `Site.failure?`: why a place cannot be written.
* `Document.error?_text`: writing a document ends at the first place that cannot be written.
* `encode_document`: hence the outcome of encoding it.
-/

namespace SqlBind
set_option autoImplicit false

namespace Json

/-- A place in a document. -/
inductive Site where
  /-- A value that is written without looking into it further. -/
  | value (d : Document)
  /-- A map key as a whole. -/
  | key (d : Document)

namespace Document

mutual
/-- The places in a document, in the order in which they are written. -/
def sites : Document → List Site
  | present content => content.sites
  | array items => itemSites items
  | map entries => entrySites entries
  | newtypeVariant _ content => content.sites
  | tupleVariant _ items => itemSites items
  | structVariant _ fields => fieldSites fields
  | wrapped content => content.sites
  | d => [.value d]
def itemSites : List Document → List Site
  | [] => []
  | item :: rest => item.sites ++ itemSites rest
def entrySites : List (Document × Document) → List Site
  | [] => []
  | (k, value) :: rest => .key k :: (value.sites ++ entrySites rest)
def fieldSites : List (String × Document) → List Site
  | [] => []
  | (_, value) :: rest => value.sites ++ fieldSites rest
end

/-- A key comes before its value. -/
example (k v : String) : (map [(.string k, .array [.string v, .unit])]).sites =
    [.key (.string k), .value (.string v), .value .unit] := rfl

/-! ## Keys -/

/-- Strings, characters, names, integers, truth values and finite numbers. -/
inductive IsScalarKey : Document → Prop where
  | string (s : String) : IsScalarKey (string s)
  | char (c : Char) : IsScalarKey (char c)
  | unitVariant (name : String) : IsScalarKey (unitVariant name)
  | integer (n : Int) : IsScalarKey (integer n)
  | bool (b : Bool) : IsScalarKey (bool b)
  | float32 {bits : UInt32} {negative : Bool} {m : Nat} {q : Int} :
    Ieee.binary32.number bits.toNat = .finite negative m q → IsScalarKey (float32 bits)
  | float64 {bits : UInt64} {negative : Bool} {m : Nat} {q : Int} :
    Ieee.binary64.number bits.toNat = .finite negative m q → IsScalarKey (float64 bits)

/-- Such a scalar, also as an optional value that is there or marked to be sent as JSON. -/
inductive IsKey : Document → Prop where
  | scalar {d : Document} : IsScalarKey d → IsKey d
  | present {d : Document} : IsKey d → IsKey (present d)
  | wrapped {d : Document} : IsKey d → IsKey (wrapped d)

/-- Why a document is no key. -/
def keyFailure? : Document → Option Failure
  | present content => content.keyFailure?
  | wrapped content => content.keyFailure?
  | string _ | char _ | unitVariant _ | integer _ | bool _ => none
  | float32 bits => if (number32 bits).isSome then none else some .keyNotFinite
  | float64 bits => if (number64 bits).isSome then none else some .keyNotFinite
  | failing message => some (.refused message)
  | _ => some .keyNotString

variable {d : Document}

theorem error?_key (d : Document) : Result.error? (key d) = d.keyFailure? := by
  induction d with
  | present content ih => exact ih
  | wrapped content ih => exact ih
  | float32 bits =>
    rw [key, keyFailure?]
    cases number32 bits <;> rfl
  | float64 bits =>
    rw [key, keyFailure?]
    cases number64 bits <;> rfl
  | _ => rfl

theorem isSome_token?_iff {style : Ieee.DecimalStyle} {f : Ieee.Interchange} {bits : Nat} :
    (token? style f bits).isSome ↔ ∃ negative m q, f.number bits = .finite negative m q := by
  unfold token?
  cases f.number bits <;> simp

theorem keyFailure?_of_isKey (h : d.IsKey) : d.keyFailure? = none := by
  induction h with
  | scalar h =>
    cases h with
    | float32 hnumber => exact if_pos (isSome_token?_iff.2 ⟨_, _, _, hnumber⟩)
    | float64 hnumber => exact if_pos (isSome_token?_iff.2 ⟨_, _, _, hnumber⟩)
    | _ => rfl
  | present _ ih => exact ih
  | wrapped _ ih => exact ih

theorem isKey_of_keyFailure? (h : d.keyFailure? = none) : d.IsKey := by
  induction d with
  | present content ih => exact .present (ih h)
  | wrapped content ih => exact .wrapped (ih h)
  | string s => exact .scalar (.string s)
  | char c => exact .scalar (.char c)
  | unitVariant name => exact .scalar (.unitVariant name)
  | integer n => exact .scalar (.integer n)
  | bool b => exact .scalar (.bool b)
  | float32 bits =>
    rw [keyFailure?, ite_eq_left_iff] at h
    have hfinite := of_not_not fun hnone => nomatch h hnone
    obtain ⟨negative, m, q, hnumber⟩ := isSome_token?_iff.1 hfinite
    exact .scalar (.float32 hnumber)
  | float64 bits =>
    rw [keyFailure?, ite_eq_left_iff] at h
    have hfinite := of_not_not fun hnone => nomatch h hnone
    obtain ⟨negative, m, q, hnumber⟩ := isSome_token?_iff.1 hfinite
    exact .scalar (.float64 hnumber)
  | _ => cases h

theorem keyFailure?_eq_none_iff : d.keyFailure? = none ↔ d.IsKey :=
  ⟨isKey_of_keyFailure?, keyFailure?_of_isKey⟩

end Document

/-! ## Places that cannot be written -/

namespace Site

/-- Why a place cannot be written: a value refuses, or a document is no key. -/
def failure? : Site → Option Failure
  | value (.failing message) => some (.refused message)
  | value _ => none
  | key d => d.keyFailure?

/-- Whether a place can be written. -/
def Writable : Site → Prop
  | value d => ∀ message, d ≠ .failing message
  | key d => d.IsKey

theorem failure?_eq_none_iff {site : Site} : site.failure? = none ↔ site.Writable := by
  cases site with
  | value d => cases d <;> simp [failure?, Writable]
  | key d => exact Document.keyFailure?_eq_none_iff

theorem forall_writable_iff {sites : List Site} :
    (∀ site ∈ sites, site.Writable) ↔
      (∀ message, .value (.failing message) ∉ sites) ∧ ∀ k, .key k ∈ sites → k.IsKey := by
  constructor
  · intro h
    exact ⟨fun message hmem => h _ hmem message rfl, fun k hk => h _ hk⟩
  · rintro ⟨hvalues, hkeys⟩ site hsite
    cases site with
    | value d =>
      rintro message rfl
      exact hvalues message hsite
    | key d => exact hkeys d hsite

end Site

namespace Document

theorem error?_itemTexts {items : List Document}
    (h : ∀ d ∈ items, Result.error? d.text = d.sites.findSome? Site.failure?) :
    Result.error? (itemTexts items) = (itemSites items).findSome? Site.failure? := by
  induction items with
  | nil => rfl
  | cons item rest ih =>
    obtain ⟨hitem, hrest⟩ := List.forall_mem_cons.1 h
    rw [itemTexts, itemSites, List.findSome?_append, ← hitem, ← ih hrest]
    exact Result.error?_bind fun first => Result.error?_map (first :: ·)

theorem error?_entryTexts {entries : List (Document × Document)}
    (h : ∀ e ∈ entries, Result.error? e.2.text = e.2.sites.findSome? Site.failure?) :
    Result.error? (entryTexts entries) = (entrySites entries).findSome? Site.failure? := by
  induction entries with
  | nil => rfl
  | cons e rest ih =>
    obtain ⟨k, value⟩ := e
    obtain ⟨hvalue, hrest⟩ := List.forall_mem_cons.1 h
    have hsites : (entrySites ((k, value) :: rest)).findSome? Site.failure? =
        (Result.error? (key k)).or
          ((Result.error? value.text).or (Result.error? (entryTexts rest))) := by
      rw [entrySites, ← List.singleton_append, List.findSome?_append, List.findSome?_append,
        List.findSome?_singleton, ← ih hrest, hvalue, error?_key]
      rfl
    rw [hsites, entryTexts]
    refine Result.error?_bind fun keyText => Result.error?_bind fun valueText => ?_
    exact Result.error?_map (entry keyText valueText :: ·)

theorem error?_fieldTexts {fields : List (String × Document)}
    (h : ∀ f ∈ fields, Result.error? f.2.text = f.2.sites.findSome? Site.failure?) :
    Result.error? (fieldTexts fields) = (fieldSites fields).findSome? Site.failure? := by
  induction fields with
  | nil => rfl
  | cons f rest ih =>
    obtain ⟨name, value⟩ := f
    obtain ⟨hvalue, hrest⟩ := List.forall_mem_cons.1 h
    rw [fieldTexts, fieldSites, List.findSome?_append, ← hvalue, ← ih hrest]
    exact Result.error?_bind fun valueText =>
      Result.error?_map (entry (quoted name.toList) valueText :: ·)

/-- **Writing a document ends at the first place that cannot be written.** -/
theorem error?_text (d : Document) :
    Result.error? d.text = d.sites.findSome? Site.failure? := by
  induction d with
  | present content ih => exact ih
  | wrapped content ih => exact ih
  | array items ih => exact (Result.error?_map _).trans (error?_itemTexts ih)
  | map entries ih =>
    exact (Result.error?_map _).trans (error?_entryTexts fun e he => (ih e he).2)
  | newtypeVariant name content ih => exact (Result.error?_map _).trans ih
  | tupleVariant name items ih => exact (Result.error?_map _).trans (error?_itemTexts ih)
  | structVariant name fields ih => exact (Result.error?_map _).trans (error?_fieldTexts ih)
  | _ => rfl

theorem text_iterate_wrapped (wrappers : Nat) (d : Document) :
    (wrapped^[wrappers] d).text = d.text := by
  induction wrappers generalizing d with
  | zero => rfl
  | succ wrappers ih => exact (ih (wrapped d)).trans rfl

theorem sites_iterate_wrapped (wrappers : Nat) (d : Document) :
    (wrapped^[wrappers] d).sites = d.sites := by
  induction wrappers generalizing d with
  | zero => rfl
  | succ wrappers ih => exact (ih (wrapped d)).trans rfl

end Document

end Json

/-! ## Encoding a document -/

open Json

theorem utf8_ge_of_printable {cs : List Char} (h : Printable cs) : ∀ b ∈ utf8 cs, 0x20 ≤ b := by
  intro b hb
  obtain ⟨c, hc, hb⟩ := List.mem_flatMap.1 hb
  rw [UInt8.le_iff_toNat_le]
  by_contra hcontrol
  have hbelow : b.toNat < 0x20 := not_le.1 hcontrol
  have hnat := toNat_eq_of_mem_utf8EncodeChar hb (hbelow.trans (by decide))
  have hprintable := h c hc
  omega

theorem error?_encode_document (d : Document) (passing : Passing) :
    Result.error? ((Value.json d).encode passing).result =
      (d.sites.findSome? Site.failure?).map .json := by
  show Result.error? ((Encode.jsonText d).map Param.text) = _
  rw [Result.error?_map, ← Document.error?_text]
  ext e
  rw [Result.error?_eq_some_iff, Encode.jsonText_eq_error_iff, Option.map_eq_some_iff]
  simp only [Result.error?_eq_some_iff, eq_comm (a := e)]

theorem exists_text_of_encode_document {d : Document} {passing : Passing} {p : Param}
    (h : ((Value.json d).encode passing).result = .ok p) :
    ∃ cs, d.text = .ok cs ∧ p.data 0 = .ok (some (utf8 cs ++ [0])) := by
  obtain ⟨t, ht, rfl⟩ := Result.map_eq_ok.1 h
  obtain ⟨cs, hcs, hfrom⟩ := Encode.comesFrom_jsonText ht
  exact ⟨cs, hcs, congrArg (fun bytes => Except.ok (some bytes)) hfrom.holds.bytes_eq⟩

/-- **A document is encoded unless some place in it cannot be written, and the first such place
decides.** However often a document is marked to be sent as JSON, it has a parameter just when no
value in it refuses and its keys are keys. Then the column is its text, and no byte of that is a
control character, whatever its strings hold. Otherwise the error is that of the first place that
cannot be written, in the order of writing. It is never that of a nul in a text. -/
theorem encode_document (d : Document) (wrappers : Nat) (passing : Passing) :
    ((∃ p, ((Value.json (Document.wrapped^[wrappers] d)).encode passing).result = .ok p) ↔
      (∀ message, .value (.failing message) ∉ d.sites) ∧ ∀ k, .key k ∈ d.sites → k.IsKey) ∧
    (∀ p, ((Value.json (Document.wrapped^[wrappers] d)).encode passing).result = .ok p →
      ∃ cs, d.text = .ok cs ∧ p.data 0 = .ok (some (utf8 cs ++ [0])) ∧
        ∀ b ∈ utf8 cs, 0x20 ≤ b) ∧
    (∀ e, ((Value.json (Document.wrapped^[wrappers] d)).encode passing).result = .error e ↔
      ∃ before site after failure, d.sites = before ++ site :: after ∧
        (∀ s ∈ before, s.Writable) ∧ site.failure? = some failure ∧ e = .json failure) ∧
    ∀ offset, ((Value.json (Document.wrapped^[wrappers] d)).encode passing).result ≠
      .error (.interiorNul offset) := by
  have herror : Result.error? ((Value.json (Document.wrapped^[wrappers] d)).encode passing).result =
      (d.sites.findSome? Site.failure?).map .json := by
    rw [error?_encode_document, Document.sites_iterate_wrapped]
  refine ⟨?_, fun p hp => ?_, fun e => ?_, fun offset hoffset => ?_⟩
  · rw [← Result.error?_eq_none_iff, herror, Option.map_eq_none_iff, List.findSome?_eq_none_iff]
    simp only [Site.failure?_eq_none_iff]
    exact Site.forall_writable_iff
  · obtain ⟨cs, hcs, hdata⟩ := exists_text_of_encode_document hp
    rw [Document.text_iterate_wrapped] at hcs
    exact ⟨cs, hcs, hdata, utf8_ge_of_printable (Document.printable_text hcs)⟩
  · rw [← Result.error?_eq_some_iff, herror, Option.map_eq_some_iff]
    constructor
    · rintro ⟨failure, hfound, rfl⟩
      obtain ⟨before, site, after, hsites, hfailure, hbefore⟩ :=
        List.findSome?_eq_some_iff.1 hfound
      exact ⟨before, site, after, failure, hsites,
        fun s hs => Site.failure?_eq_none_iff.1 (hbefore s hs), hfailure, rfl⟩
    · rintro ⟨before, site, after, failure, hsites, hbefore, hfailure, rfl⟩
      exact ⟨failure, List.findSome?_eq_some_iff.2 ⟨before, site, after, hsites, hfailure,
        fun s hs => Site.failure?_eq_none_iff.2 (hbefore s hs)⟩, rfl⟩
  · rw [← Result.error?_eq_some_iff, herror, Option.map_eq_some_iff] at hoffset
    obtain ⟨failure, -, hfailure⟩ := hoffset
    cases hfailure

/-- An entry whose value refuses, before one whose key is none. -/
def refusedBeforeKey : Document :=
  .map [(.present (.string "x"), .failing "no"), (.unit, .string "\x00")]

/-- Control characters in a key and in its value. -/
def controlText : Document :=
  .map [(.string "\x00", .array [.string "\x00\n", .unit])]

theorem encode_document_refused :
    ((Value.json (Document.wrapped^[2] refusedBeforeKey)).encode .moved).result =
      .error (.json (.refused "no")) ∧
    ∃ p cs, ((Value.json controlText).encode .lent).result = .ok p ∧
      p.data 0 = .ok (some (utf8 cs ++ [0])) ∧ ∀ b ∈ utf8 cs, 0x20 ≤ b := by
  obtain ⟨-, -, herror, -⟩ := encode_document refusedBeforeKey 2 .moved
  obtain ⟨hok, htext, -, -⟩ := encode_document controlText 0 .lent
  have hkey : Site.Writable (.key (.present (.string "x"))) := .present (.scalar (.string "x"))
  refine ⟨(herror _).2 ⟨[.key (.present (.string "x"))], .value (.failing "no"),
    [.key .unit, .value (.string "\x00")], .refused "no", rfl, ?_, rfl, rfl⟩, ?_⟩
  · exact fun s hs => List.mem_singleton.1 hs ▸ hkey
  · have hsites : controlText.sites =
        [.key (.string "\x00"), .value (.string "\x00\n"), .value .unit] := rfl
    obtain ⟨p, hp⟩ := hok.2 (by simp [hsites, Document.IsKey.scalar, Document.IsScalarKey.string])
    obtain ⟨cs, -, hdata, hbytes⟩ := htext p hp
    exact ⟨p, cs, hp, hdata, hbytes⟩

/-- Scalars are not the only keys. -/
theorem not_only_scalar_keys :
    ¬ ∀ (d : Document) (wrappers : Nat) (passing : Passing),
      (∃ p, ((Value.json (Document.wrapped^[wrappers] d)).encode passing).result = .ok p) ↔
        (∀ message, .value (.failing message) ∉ d.sites) ∧
          ∀ k, .key k ∈ d.sites → k.IsScalarKey := by
  intro h
  have hok : ∃ p, ((Value.json (.map [(.present (.string "x"), .unit)])).encode .moved).result =
      .ok p := ⟨_, rfl⟩
  have hkey := ((h (.map [(.present (.string "x"), .unit)]) 0 .moved).1 hok).2
    (.present (.string "x")) List.mem_cons_self
  cases hkey

end SqlBind
