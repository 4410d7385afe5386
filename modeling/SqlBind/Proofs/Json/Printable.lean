import SqlBind.Proofs.Json.Texts
import SqlBind.Proofs.Text.Notation

/-!
# JSON text without control characters

Control characters stand in a document only within strings, and there they are escaped.

* `Printable cs`: no character of a text is a control character.
* `Document.printable_text`: the text of a document holds no control character.
-/

namespace SqlBind.Json
set_option autoImplicit false

def Printable (cs : List Char) : Prop :=
  ∀ c ∈ cs, 0x20 ≤ c.toNat

theorem Printable.append {cs ds : List Char} (h : Printable cs) (h' : Printable ds) :
    Printable (cs ++ ds) :=
  List.forall_mem_append.2 ⟨h, h'⟩

theorem Printable.cons {c : Char} {cs : List Char} (hc : 0x20 ≤ c.toNat) (h : Printable cs) :
    Printable (c :: cs) :=
  List.forall_mem_cons.2 ⟨hc, h⟩

theorem printable_singleton {c : Char} (hc : 0x20 ≤ c.toNat) : Printable [c] :=
  .cons hc (List.forall_mem_nil _)

theorem Printable.nul_notMem {cs : List Char} (h : Printable cs) : '\x00' ∉ cs := fun hmem =>
  absurd (h _ hmem) (by decide)

/-! ## Strings -/

theorem printable_unicodeEscape {c : Char} (h : c.toNat < 0x20) : Printable (unicodeEscape c) := by
  have hdigit : ∀ n < 16, 0x20 ≤ (Nat.digitChar n).toNat := by decide
  intro d hd
  simp only [unicodeEscape, List.mem_cons, List.not_mem_nil, or_false] at hd
  rcases hd with rfl | rfl | rfl | rfl | rfl | rfl
  · decide
  · decide
  · decide
  · decide
  · exact hdigit _ (by omega)
  · exact hdigit _ (by omega)

theorem printable_escaped (c : Char) : Printable (escaped c) := by
  have hpair : Printable ['\\', '"'] ∧ Printable ['\\', '\\'] ∧ Printable ['\\', 'b'] ∧
      Printable ['\\', 'f'] ∧ Printable ['\\', 'n'] ∧ Printable ['\\', 'r'] ∧
      Printable ['\\', 't'] := by
    simp [Printable]
  obtain ⟨hquote, hbackslash, hb, hf, hn, hr, ht⟩ := hpair
  unfold escaped
  split_ifs with h1 h2 h3 h4 h5 h6 h7 hcontrol
  · exact hquote
  · exact hbackslash
  · exact hb
  · exact hf
  · exact hn
  · exact hr
  · exact ht
  · exact printable_unicodeEscape hcontrol
  · exact printable_singleton (Nat.not_lt.1 hcontrol)

theorem printable_quoted (cs : List Char) : Printable (quoted cs) := by
  have hescaped : Printable (cs.flatMap escaped) := by
    intro d hd
    obtain ⟨c, -, hc⟩ := List.mem_flatMap.1 hd
    exact printable_escaped c d hc
  have hquote : 0x20 ≤ '"'.toNat := by decide
  exact (hescaped.cons hquote).append (printable_singleton hquote)

/-! ## Numbers -/

theorem coversNumerals_printable : CoversNumerals fun c => 0x20 ≤ c.toNat where
  digit := by
    intro c hc
    have hzero : 48 ≤ c.toNat := (Char.isDigit_iff_toNat.1 hc).1
    omega
  minus := by decide
  point := by decide
  exponent := by decide

theorem of_mem_token {P : Char → Prop} (hP : CoversNumerals P) {style : Ieee.DecimalStyle}
    (hplus : ∀ c ∈ style.plus, P c) {f : Ieee.Interchange} {bits : Nat} {cs : List Char}
    (h : token? style f bits = some cs) : ∀ c ∈ cs, P c := by
  unfold token? at h
  split at h
  · cases h
  · cases h
  · cases h
    exact fun c hc => hP.of_mem_styleText hplus hc

theorem printable_number64 {bits : UInt64} {cs : List Char} (h : number64 bits = some cs) :
    Printable cs := by
  have hplus : ∀ c ∈ style64.plus, 0x20 ≤ c.toNat := printable_singleton (by decide)
  exact of_mem_token coversNumerals_printable hplus h

theorem printable_number32 {bits : UInt32} {cs : List Char} (h : number32 bits = some cs) :
    Printable cs := by
  have hplus : ∀ c ∈ style32.plus, 0x20 ≤ c.toNat := printable_singleton (by decide)
  exact of_mem_token coversNumerals_printable hplus h

theorem printable_ofInt (n : Int) : Printable (Numeral.ofInt n) := fun _ =>
  coversNumerals_printable.of_mem_ofInt

/-! ## Arrays and objects -/

theorem printable_commaSeparated {texts : List (List Char)} (h : ∀ text ∈ texts, Printable text) :
    Printable (commaSeparated texts) := by
  induction texts with
  | nil => exact List.forall_mem_nil _
  | cons text rest ih =>
    obtain ⟨htext, hrest⟩ := List.forall_mem_cons.1 h
    cases rest with
    | nil => exact htext
    | cons next rest => exact htext.append ((ih hrest).cons (by decide))

theorem printable_bracketed {texts : List (List Char)} (h : ∀ text ∈ texts, Printable text) :
    Printable (bracketed texts) :=
  ((printable_commaSeparated h).cons (by decide)).append (printable_singleton (by decide))

theorem printable_braced {texts : List (List Char)} (h : ∀ text ∈ texts, Printable text) :
    Printable (braced texts) :=
  ((printable_commaSeparated h).cons (by decide)).append (printable_singleton (by decide))

theorem printable_entry {keyText valueText : List Char} (hkey : Printable keyText)
    (hvalue : Printable valueText) : Printable (entry keyText valueText) :=
  hkey.append (hvalue.cons (by decide))

theorem printable_variant {name value : List Char} (h : Printable value) :
    Printable (braced [entry (quoted name) value]) := by
  apply printable_braced
  intro text htext
  rw [List.mem_singleton.1 htext]
  exact printable_entry (printable_quoted name) h

/-! ## Documents -/

theorem printable_nullText : Printable nullText := by
  simp [Printable, nullText]

theorem printable_boolText (b : Bool) : Printable (boolText b) := by
  cases b <;> simp [Printable, boolText]

namespace Document

theorem printable_itemTexts {items : List Document} {texts : List (List Char)}
    (h : itemTexts items = .ok texts)
    (hitems : ∀ d ∈ items, ∀ cs, d.text = .ok cs → Printable cs) : ∀ text ∈ texts, Printable text :=
  forall_of_forall₂ (itemTexts_eq_ok_iff.1 h) hitems

/-- **JSON text holds no control character.** -/
theorem printable_text {d : Document} {cs : List Char} (h : d.text = .ok cs) : Printable cs := by
  induction d generalizing cs with
  | unit =>
    cases h
    exact printable_nullText
  | absent =>
    cases h
    exact printable_nullText
  | present content ih => exact ih h
  | bool b =>
    cases h
    exact printable_boolText b
  | integer n =>
    cases h
    exact printable_ofInt n
  | float32 bits =>
    cases h
    cases hnumber : number32 bits with
    | none => exact printable_nullText
    | some token => exact printable_number32 hnumber
  | float64 bits =>
    cases h
    cases hnumber : number64 bits with
    | none => exact printable_nullText
    | some token => exact printable_number64 hnumber
  | char c =>
    cases h
    exact printable_quoted _
  | string s =>
    cases h
    exact printable_quoted _
  | bytes bs =>
    cases h
    apply printable_bracketed
    intro text htext
    obtain ⟨b, -, rfl⟩ := List.mem_map.1 htext
    exact fun _ => coversNumerals_printable.of_mem_ofNat
  | array items ih =>
    obtain ⟨texts, htexts, rfl⟩ := Result.map_eq_ok.1 h
    exact printable_bracketed (printable_itemTexts htexts fun d hd _ => ih d hd)
  | map entries ih =>
    obtain ⟨texts, htexts, rfl⟩ := Result.map_eq_ok.1 h
    apply printable_braced
    refine forall_of_forall₂ (entryTexts_eq_ok_iff.1 htexts) ?_
    rintro e he _ ⟨keyText, valueText, hkey, hvalue, rfl⟩
    -- Whatever kind of key this is, it is written as a string literal.
    obtain rfl := key_eq_quoted hkey
    exact printable_entry (printable_quoted e.1.name) ((ih e he).2 hvalue)
  | unitVariant name =>
    cases h
    exact printable_quoted _
  | newtypeVariant name content ih =>
    obtain ⟨value, hvalue, rfl⟩ := Result.map_eq_ok.1 h
    exact printable_variant (ih hvalue)
  | tupleVariant name items ih =>
    obtain ⟨texts, htexts, rfl⟩ := Result.map_eq_ok.1 h
    exact printable_variant (printable_bracketed (printable_itemTexts htexts fun d hd _ => ih d hd))
  | structVariant name fields ih =>
    obtain ⟨texts, htexts, rfl⟩ := Result.map_eq_ok.1 h
    apply printable_variant
    apply printable_braced
    refine forall_of_forall₂ (fieldTexts_eq_ok_iff.1 htexts) ?_
    rintro f hf _ ⟨valueText, hvalue, rfl⟩
    exact printable_entry (printable_quoted _) (ih f hf hvalue)
  | wrapped content ih => exact ih h
  | failing message => cases h

end Document

end SqlBind.Json
