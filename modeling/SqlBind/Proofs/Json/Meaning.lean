import SqlBind.Proofs.Json.Sites
import SqlBind.Proofs.Json.Tokens

/-!
# What the text of a document means

* `Document.meaning`: the JSON meaning of a document.
* `Document.means_text`: the text of a document is read as its meaning.
* `json_reads_back`: so is the column that is made of it, and documents with the same column have
  the same meaning.
-/

namespace SqlBind
set_option autoImplicit false

namespace Json

namespace Document

/-- The meaning of a number token, or null if there is none. -/
def tokenMeaning (token : Option (List Char)) : Meaning :=
  (token.map Meaning.number).getD .null

mutual
/-- The JSON meaning of a document. What is there stands for its content, the number of a NaN or an
infinity for null, and a variant with content for an object with one entry. -/
def meaning : Document → Meaning
  | unit => .null
  | absent => .null
  | present content => content.meaning
  | bool b => .bool b
  | integer n => .number (Numeral.ofInt n)
  | float32 bits => tokenMeaning (number32 bits)
  | float64 bits => tokenMeaning (number64 bits)
  | char c => .string [c]
  | string s => .string s.toList
  | bytes bs => .array (bs.map fun b => .number (Numeral.ofNat b.toNat))
  | array items => .array (itemMeanings items)
  | map entries => .object (entryMeanings entries)
  | unitVariant name => .string name.toList
  | newtypeVariant name content => .object [(name.toList, content.meaning)]
  | tupleVariant name items => .object [(name.toList, .array (itemMeanings items))]
  | structVariant name fields => .object [(name.toList, .object (fieldMeanings fields))]
  | wrapped content => content.meaning
  | failing _ => .null
def itemMeanings : List Document → List Meaning
  | [] => []
  | item :: rest => item.meaning :: itemMeanings rest
def entryMeanings : List (Document × Document) → List (List Char × Meaning)
  | [] => []
  | (k, value) :: rest => (k.name, value.meaning) :: entryMeanings rest
def fieldMeanings : List (String × Document) → List (List Char × Meaning)
  | [] => []
  | (name, value) :: rest => (name.toList, value.meaning) :: fieldMeanings rest
end

theorem itemMeanings_eq (items : List Document) : itemMeanings items = items.map meaning := by
  induction items with
  | nil => rfl
  | cons item rest ih => rw [itemMeanings, ih, List.map_cons]

theorem entryMeanings_eq (entries : List (Document × Document)) :
    entryMeanings entries = entries.map fun e => (e.1.name, e.2.meaning) := by
  induction entries with
  | nil => rfl
  | cons e rest ih => rw [entryMeanings, ih, List.map_cons]

theorem fieldMeanings_eq (fields : List (String × Document)) :
    fieldMeanings fields = fields.map fun f => (f.1.toList, f.2.meaning) := by
  induction fields with
  | nil => rfl
  | cons f rest ih => rw [fieldMeanings, ih, List.map_cons]

/-! ## Texts and meanings -/

section

variable {blank : Char → Bool} (hblank : ∀ c, blank c = true → isBlank c = true)
include hblank

open Parse

theorem means_number {token : List Char} (h : isNumber token = true)
    (hchars : ∀ c ∈ token, numberChar c = true) : Means blank token (.number token) :=
  fun _ _ => stands_number hblank h hchars

theorem means_ofInt (n : Int) : Means blank (Numeral.ofInt n) (.number (Numeral.ofInt n)) :=
  means_number hblank (isNumber_ofInt n) fun _ => coversNumerals_numberChar.of_mem_ofInt

theorem means_ofNat (n : Nat) : Means blank (Numeral.ofNat n) (.number (Numeral.ofNat n)) :=
  means_number hblank (isNumber_ofNat n) fun _ => coversNumerals_numberChar.of_mem_ofNat

theorem means_token {token : Option (List Char)}
    (h : ∀ cs, token = some cs → isNumber cs = true ∧ ∀ c ∈ cs, numberChar c = true) :
    Means blank (token.getD nullText) (tokenMeaning token) := by
  cases token with
  | none => exact fun _ _ => stands_null hblank
  | some cs => exact means_number hblank (h cs rfl).1 (h cs rfl).2

theorem means_variant {name : String} {text : List Char} {m : Meaning} (h : Means blank text m) :
    Means blank (braced [entry (quoted name.toList) text]) (.object [(name.toList, m)]) :=
  means_object hblank (.cons ⟨text, rfl, h⟩ .nil)

theorem means_items {items : List Document} {texts : List (List Char)}
    (h : itemTexts items = .ok texts)
    (hitems : ∀ d ∈ items, ∀ cs, d.text = .ok cs → Means blank cs d.meaning) :
    Means blank (bracketed texts) (.array (itemMeanings items)) := by
  rw [itemMeanings_eq]
  apply means_array hblank
  rw [List.forall₂_map_left_iff]
  exact forall₂_imp_of_mem (itemTexts_eq_ok_iff.1 h) fun d hd text _ htext => hitems d hd text htext

/-- **The text of a document is read as its meaning.** -/
theorem means_text {d : Document} {cs : List Char} (h : d.text = .ok cs) :
    Means blank cs d.meaning := by
  induction d generalizing cs with
  | unit =>
    cases h
    exact fun _ _ => stands_null hblank
  | absent =>
    cases h
    exact fun _ _ => stands_null hblank
  | present content ih => exact ih h
  | bool b =>
    cases h
    exact fun _ _ => stands_bool hblank b
  | integer n =>
    cases h
    exact means_ofInt hblank n
  | float32 bits =>
    cases h
    exact means_token hblank fun cs hcs => ⟨isNumber_number32 hcs, numberChar_of_mem_number32 hcs⟩
  | float64 bits =>
    cases h
    exact means_token hblank fun cs hcs => ⟨isNumber_number64 hcs, numberChar_of_mem_number64 hcs⟩
  | char c =>
    cases h
    exact fun _ _ => stands_string hblank [c]
  | string s =>
    cases h
    exact fun _ _ => stands_string hblank s.toList
  | bytes bs =>
    cases h
    apply means_array hblank
    rw [List.forall₂_map_left_iff, List.forall₂_map_right_iff, List.forall₂_same]
    exact fun b _ => means_ofNat hblank b.toNat
  | array items ih =>
    obtain ⟨texts, htexts, rfl⟩ := Result.map_eq_ok.1 h
    exact means_items hblank htexts fun d hd _ => ih d hd
  | map entries ih =>
    obtain ⟨texts, htexts, rfl⟩ := Result.map_eq_ok.1 h
    rw [meaning, entryMeanings_eq]
    apply means_object hblank
    rw [List.forall₂_map_left_iff]
    refine forall₂_imp_of_mem (entryTexts_eq_ok_iff.1 htexts) ?_
    rintro e he _ - ⟨keyText, valueText, hkey, hvalue, rfl⟩
    -- Whatever kind of key this is, it is written as a string literal.
    obtain rfl := key_eq_quoted hkey
    exact ⟨valueText, rfl, (ih e he).2 hvalue⟩
  | unitVariant name =>
    cases h
    exact fun _ _ => stands_string hblank name.toList
  | newtypeVariant name content ih =>
    obtain ⟨value, hvalue, rfl⟩ := Result.map_eq_ok.1 h
    exact means_variant hblank (ih hvalue)
  | tupleVariant name items ih =>
    obtain ⟨texts, htexts, rfl⟩ := Result.map_eq_ok.1 h
    exact means_variant hblank (means_items hblank htexts fun d hd _ => ih d hd)
  | structVariant name fields ih =>
    obtain ⟨texts, htexts, rfl⟩ := Result.map_eq_ok.1 h
    rw [meaning, fieldMeanings_eq]
    apply means_variant hblank
    apply means_object hblank
    rw [List.forall₂_map_left_iff]
    refine forall₂_imp_of_mem (fieldTexts_eq_ok_iff.1 htexts) ?_
    rintro f hf _ - ⟨valueText, hvalue, rfl⟩
    exact ⟨valueText, rfl, ih f hf hvalue⟩
  | wrapped content ih => exact ih h
  | failing message => cases h

end

theorem tokenMeaning_eq_null_iff {style : Ieee.DecimalStyle} {f : Ieee.Interchange} {bits : Nat} :
    tokenMeaning (token? style f bits) = .null ↔
      ¬∃ negative m q, f.number bits = .finite negative m q := by
  have hnone : ∀ token, tokenMeaning token = .null ↔ ¬token.isSome = true := by
    intro token
    cases token <;> simp [tokenMeaning]
  exact (hnone _).trans isSome_token?_iff.not

/-- A key is a string that is read as it is, or its characters are the text of the value. -/
theorem name_of_isKey {d : Document} (h : d.IsKey) :
    d.meaning = .string d.name ∨ d.text = .ok d.name := by
  induction h with
  | scalar h =>
    cases h with
    | string s => exact .inl rfl
    | char c => exact .inl rfl
    | unitVariant name => exact .inl rfl
    | integer n => exact .inr rfl
    | bool b => exact .inr rfl
    | @float32 bits _ _ _ hnumber =>
      obtain ⟨token, htoken⟩ := Option.isSome_iff_exists.1 (isSome_token?_iff.2 ⟨_, _, _, hnumber⟩)
      have hnumber32 : number32 bits = some token := htoken
      exact .inr (by rw [text, name, hnumber32]; rfl)
    | @float64 bits _ _ _ hnumber =>
      obtain ⟨token, htoken⟩ := Option.isSome_iff_exists.1 (isSome_token?_iff.2 ⟨_, _, _, hnumber⟩)
      have hnumber64 : number64 bits = some token := htoken
      exact .inr (by rw [text, name, hnumber64]; rfl)
  | present _ ih => exact ih
  | wrapped _ ih => exact ih

end Document

/-- The number that a token stands for, if it is an integer. -/
def Meaning.integer? : Meaning → Option Int
  | number token => Numeral.readInt? token
  | _ => none

theorem integer?_integer (n : Int) : (Document.integer n).meaning.integer? = some n :=
  Numeral.readInt?_ofInt n

theorem exists_bytes_meaning (bs : Bytes) :
    ∃ items, (Document.bytes bs).meaning = .array items ∧
      items.map Meaning.integer? = bs.map fun b => some (b.toNat : Int) := by
  refine ⟨_, rfl, ?_⟩
  rw [List.map_map]
  exact List.map_congr_left fun b _ => Numeral.readInt?_ofNat b.toNat

/-- The decimal that a token stands for. -/
def Meaning.decimal? : Meaning → Option Ieee.Reading
  | number token => Json.decimal? token
  | _ => none

/-- A finite number of either format is read back from its token. -/
theorem exists_decimal?_tokenMeaning {style : Ieee.DecimalStyle} {f : Ieee.Interchange}
    (hplus : style.plus = ['+']) (hf : 0 < f.fractionBits)
    (hdigits : 2 ^ (f.fractionBits + 1) ≤ 10 ^ (Ieee.Neighbourhood.mostDigits - 1)) {bits m : Nat}
    {negative : Bool} {q : Int} (h : f.number bits = .finite negative m q)
    (hbits : bits < 2 ^ (f.fractionBits + f.exponentBits + 1)) :
    ∃ r, (Document.tokenMeaning (token? style f bits)).decimal? = some r ∧
      ∀ bits' < 2 ^ (f.fractionBits + f.exponentBits + 1),
        f.RoundsTo r.negative r.magnitude bits' ↔ bits' = bits := by
  have hfinite : f.magnitude bits < f.infinity := by
    rcases lt_trichotomy (f.magnitude bits) f.infinity with hlt | heq | hgt
    · exact hlt
    · rw [Ieee.Interchange.number_of_eq heq] at h
      cases h
    · rw [Ieee.Interchange.number_of_gt hgt] at h
      cases h
  obtain ⟨token, r, htoken, hread, hsign, hnearest⟩ :=
    exists_decimal?_token hplus hf hdigits hfinite
  refine ⟨r, ?_, fun bits' hbits' => ?_⟩
  · rw [htoken]
    exact hread
  · rw [hsign]
    exact Ieee.Interchange.roundsTo_iff_eq hbits hbits' hfinite hnearest

theorem style64_plus : style64.plus = ['+'] := rfl

theorem style32_plus : style32.plus = ['+'] := rfl

theorem exists_decimal?_float64 {bits : UInt64} {negative : Bool} {m : Nat} {q : Int}
    (h : Ieee.binary64.number bits.toNat = .finite negative m q) :
    ∃ r, (Document.float64 bits).meaning.decimal? = some r ∧ ∀ bits' : UInt64,
      Ieee.binary64.RoundsTo r.negative r.magnitude bits'.toNat ↔ bits' = bits := by
  obtain ⟨r, hread, hrounds⟩ :=
    exists_decimal?_tokenMeaning style64_plus (by decide) (by decide) h bits.toNat_lt
  exact ⟨r, hread, fun bits' => (hrounds _ bits'.toNat_lt).trans UInt64.toNat_inj⟩

theorem exists_decimal?_float32 {bits : UInt32} {negative : Bool} {m : Nat} {q : Int}
    (h : Ieee.binary32.number bits.toNat = .finite negative m q) :
    ∃ r, (Document.float32 bits).meaning.decimal? = some r ∧ ∀ bits' : UInt32,
      Ieee.binary32.RoundsTo r.negative r.magnitude bits'.toNat ↔ bits' = bits := by
  obtain ⟨r, hread, hrounds⟩ :=
    exists_decimal?_tokenMeaning style32_plus (by decide) (by decide) h bits.toNat_lt
  exact ⟨r, hread, fun bits' => (hrounds _ bits'.toNat_lt).trans UInt32.toNat_inj⟩

end Json

open Json

theorem exists_meaning_of_encode {d : Document} {passing : Passing} {p : Param}
    (h : ((Value.json d).encode passing).result = .ok p) :
    ∃ bytes, p.data 0 = .ok (some (bytes ++ [0])) ∧ 0 ∉ bytes ∧
      ∀ blank, (∀ c, blank c = true → isBlank c = true) →
        (ofUtf8? bytes).bind (read? blank) = some d.meaning := by
  obtain ⟨cs, hcs, hdata⟩ := exists_text_of_encode_document h
  have hnul : 0 ∉ utf8 cs := mt zero_mem_utf8.1 (Document.printable_text hcs).nul_notMem
  refine ⟨utf8 cs, hdata, hnul, fun blank hblank => ?_⟩
  rw [ofUtf8?_utf8, Option.bind_some]
  exact Parse.read?_of_means (Document.means_text hblank hcs)

/-- **JSON texts read back.** The column of a document that is encoded is a text and a nul, and the
text is one JSON value: a reader finds the meaning of the document in it, also if it skips no
blanks, so there are none to be skipped. Documents with the same column have the same meaning. The
meaning of an integer is that integer and that of bytes the array of their values. The meaning of a
floating-point number is null just where it is a NaN or an infinity, and else a decimal that rounds
to the same pattern, in the format that it had, and to no other. A key other than a string is named
by the text of its value. -/
theorem json_reads_back {d : Document} {passing : Passing} {p : Param}
    (h : ((Value.json d).encode passing).result = .ok p) :
    (∃ bytes, p.data 0 = .ok (some (bytes ++ [0])) ∧ 0 ∉ bytes ∧
      ∀ blank, (∀ c, blank c = true → isBlank c = true) →
        (ofUtf8? bytes).bind (read? blank) = some d.meaning) ∧
    (∀ d' passing' p', ((Value.json d').encode passing').result = .ok p' →
      p'.data 0 = p.data 0 → d'.meaning = d.meaning) ∧
    (∀ n, (Document.integer n).meaning.integer? = some n) ∧
    (∀ bs, ∃ items, (Document.bytes bs).meaning = .array items ∧
      items.map Meaning.integer? = bs.map fun b => some (b.toNat : Int)) ∧
    (∀ bits, (Document.float64 bits).meaning = .null ↔
      ¬∃ negative m q, Ieee.binary64.number bits.toNat = .finite negative m q) ∧
    (∀ bits, (Document.float32 bits).meaning = .null ↔
      ¬∃ negative m q, Ieee.binary32.number bits.toNat = .finite negative m q) ∧
    (∀ bits negative m q, Ieee.binary64.number bits.toNat = .finite negative m q →
      ∃ r, (Document.float64 bits).meaning.decimal? = some r ∧ ∀ bits' : UInt64,
        Ieee.binary64.RoundsTo r.negative r.magnitude bits'.toNat ↔ bits' = bits) ∧
    (∀ bits negative m q, Ieee.binary32.number bits.toNat = .finite negative m q →
      ∃ r, (Document.float32 bits).meaning.decimal? = some r ∧ ∀ bits' : UInt32,
        Ieee.binary32.RoundsTo r.negative r.magnitude bits'.toNat ↔ bits' = bits) ∧
    ∀ k : Document, k.IsKey → k.meaning = .string k.name ∨ k.text = .ok k.name := by
  refine ⟨exists_meaning_of_encode h, ?_, integer?_integer, exists_bytes_meaning,
    fun _ => Document.tokenMeaning_eq_null_iff, fun _ => Document.tokenMeaning_eq_null_iff,
    fun _ _ _ _ => exists_decimal?_float64, fun _ _ _ _ => exists_decimal?_float32,
    fun _ => Document.name_of_isKey⟩
  intro d' passing' p' h' hdata
  obtain ⟨bytes, hbytes, -, hread⟩ := exists_meaning_of_encode h
  obtain ⟨bytes', hbytes', -, hread'⟩ := exists_meaning_of_encode h'
  have hsame : bytes' ++ [0] = bytes ++ [0] := by
    rw [hbytes, hbytes'] at hdata
    exact Option.some.inj (Except.ok.inj hdata)
  have hmeaning := hread' isBlank fun _ hc => hc
  rw [List.append_cancel_right hsame, hread isBlank fun _ hc => hc] at hmeaning
  exact (Option.some.inj hmeaning).symm

/-- A key that is a number, strings that look like JSON and hold characters to be escaped, and the
greatest number of double precision. -/
def lookalikeText : Document :=
  .map [(.integer (-7), .array [.string "\",[\x00\\", .bytes [255, 0], .present .unit]),
    (.string "a", .newtypeVariant "\n" (.wrapped (.char '\x7f'))),
    (.bool true, .float64 0x7FEFFFFFFFFFFFFF)]

theorem json_reads_back_lookalikeText :
    ∃ p bytes r, ((Value.json lookalikeText).encode .moved).result = .ok p ∧
      p.data 0 = .ok (some (bytes ++ [0])) ∧
      (ofUtf8? bytes).bind (read? isBlank) = some (.object [
        (['-', '7'], .array [.string ['"', ',', '[', '\x00', '\\'],
          .array [.number ['2', '5', '5'], .number ['0']], .null]),
        (['a'], .object [(['\n'], .string ['\x7f'])]),
        ("true".toList, .number "1.7976931348623157e+308".toList)]) ∧
      decimal? "1.7976931348623157e+308".toList = some r ∧
      ∀ bits : UInt64, Ieee.binary64.RoundsTo r.negative r.magnitude bits.toNat ↔
        bits = 0x7FEFFFFFFFFFFFFF := by
  have hsites : lookalikeText.sites.findSome? Site.failure? = none := by rfl
  obtain ⟨p, hp⟩ : ∃ p, ((Value.json lookalikeText).encode .moved).result = .ok p := by
    rw [← Result.error?_eq_none_iff, error?_encode_document, hsites]
    rfl
  have htoken : number64 0x7FEFFFFFFFFFFFFF = some "1.7976931348623157e+308".toList := by
    decide +kernel
  have hmeaning : (Document.float64 0x7FEFFFFFFFFFFFFF).meaning =
      .number "1.7976931348623157e+308".toList := by
    rw [Document.meaning, htoken]
    rfl
  obtain ⟨⟨bytes, hdata, -, hread⟩, -, -, -, -, -, hfloat, -⟩ := json_reads_back hp
  have hread := hread isBlank fun _ hc => hc
  obtain ⟨r, hdecimal, hrounds⟩ := hfloat 0x7FEFFFFFFFFFFFFF false (2 ^ 53 - 1) 971 (by decide)
  rw [hmeaning] at hdecimal
  refine ⟨p, bytes, r, hp, hdata, ?_, hdecimal, hrounds⟩
  rw [hread, lookalikeText, Document.meaning, Document.entryMeanings, Document.entryMeanings,
    Document.entryMeanings, Document.entryMeanings, hmeaning]
  rfl

end SqlBind
