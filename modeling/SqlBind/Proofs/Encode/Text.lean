import SqlBind.Encode.Value
import SqlBind.Proofs.Text.NulFree

/-!
# What text columns hold

* `StoredText.Route t s`: the ways in which a text comes into a column.
* `StoredText.Holds s content`: the column is the content and one nul after it; `Route.holds`.
* `StoredText.ComesFrom s content`: the content came into the column in one of these ways.
* `comesFrom_textOf` and its siblings: the content of every kind of text column. Some texts are
  checked for nuls when they are encoded; the others cannot hold one.
-/

namespace SqlBind
set_option autoImplicit false

open Encode

namespace StoredText

/-- The ways in which a text without a nul comes into a column. -/
inductive Route (t : CText) : StoredText → Prop where
  /-- It is copied, into the column or to the heap. -/
  | copied : Route t (copy t.bytes)
  /-- It is taken over together with its terminator. -/
  | owned : Route t (owned t)
  /-- Its owner keeps it. -/
  | lent : Route t (lent t)
  /-- It is one of the fixed texts. -/
  | literal {s : String} : utf8 s.toList = t.bytes → Route t (literal s)
  /-- It is searched for a nul first. -/
  | checked {cs : List Char} {s : StoredText} : utf8 cs = t.bytes → textOf cs = .ok s → Route t s

/-- The bytes of the column are this content and one nul after it, which is the only one. -/
structure Holds (t : StoredText) (content : Bytes) : Prop where
  bytes_eq : t.bytes = content ++ [0]
  nul_free : 0 ∉ content

/-- The content is a text that came into the column in one of the ways. -/
def ComesFrom (s : StoredText) (content : Bytes) : Prop :=
  ∃ h : 0 ∉ content, Route ⟨content, h⟩ s

theorem bytes_of_textOf {cs : List Char} {s : StoredText} (h : textOf cs = .ok s) :
    0 ∉ utf8 cs ∧ s.bytes = utf8 cs ++ [0] := by
  by_cases hnul : 0 ∈ utf8 cs
  · rw [textOf, CText.ofBytes_error hnul] at h
    cases h
  · rw [textOf, CText.ofBytes_ok hnul] at h
    cases h
    exact ⟨hnul, bytes_owned _⟩

theorem Route.holds {t : CText} {s : StoredText} (h : Route t s) : s.Holds t.bytes := by
  refine ⟨?_, t.nul_free⟩
  cases h with
  | copied => exact bytes_copy t.bytes
  | owned => exact bytes_owned t
  | lent => exact bytes_lent t
  | literal hs => rw [bytes_literal, hs]
  | checked hcs hs => rw [(bytes_of_textOf hs).2, hcs]

theorem ComesFrom.holds {s : StoredText} {content : Bytes} (h : s.ComesFrom content) :
    s.Holds content :=
  h.2.holds

end StoredText

namespace Encode

theorem comesFrom_copy {cs : List Char} (h : '\x00' ∉ cs) :
    (StoredText.copy (utf8 cs)).ComesFrom (utf8 cs) :=
  ⟨mt zero_mem_utf8.1 h, .copied⟩

theorem comesFrom_literal {s : String} (h : '\x00' ∉ s.toList) :
    (StoredText.literal s).ComesFrom (utf8 s.toList) :=
  ⟨mt zero_mem_utf8.1 h, .literal rfl⟩

theorem exists_textOf {cs : List Char} (h : '\x00' ∉ cs) : ∃ t, textOf cs = .ok t := by
  rw [textOf, CText.ofBytes_ok (mt zero_mem_utf8.1 h)]
  exact ⟨_, rfl⟩

theorem comesFrom_textOf {cs : List Char} {t : StoredText} (h : textOf cs = .ok t) :
    t.ComesFrom (utf8 cs) :=
  ⟨(StoredText.bytes_of_textOf h).1, .checked rfl h⟩

theorem comesFrom_boolText (b : Bool) :
    (boolText b).ComesFrom (utf8 (if b then "TRUE" else "FALSE").toList) := by
  cases b with
  | false => exact comesFrom_literal (by decide)
  | true => exact comesFrom_literal (by decide)

theorem comesFrom_charText {c : Char} {t : StoredText} (h : charText c = .ok t) :
    t.ComesFrom (utf8 [c]) := by
  unfold charText at h
  split at h
  · cases h
  · rename_i hc
    cases h
    apply comesFrom_copy
    simpa using Ne.symm hc

theorem comesFrom_integerText (n : Int) : (integerText n).ComesFrom (utf8 (Numeral.ofInt n)) :=
  comesFrom_copy (nul_notMem_ofInt n)

theorem comesFrom_extendedText (x : Extended) : (extendedText x).ComesFrom (utf8 x.text) := by
  unfold extendedText Extended.text
  rcases x.number with _ | negative | ⟨negative, m, q⟩
  · exact comesFrom_literal (by decide)
  · cases negative with
    | false => exact comesFrom_literal (by decide)
    | true => exact comesFrom_literal (by decide)
  · have hplus : '\x00' ∉ Extended.style.plus := by decide
    exact comesFrom_copy (Ieee.nul_notMem_styleText hplus Ieee.binary64 negative m q)

theorem holds_extendedText (x : Extended) : (extendedText x).Holds (utf8 x.text) :=
  (comesFrom_extendedText x).holds

theorem comesFrom_byteaText (bs : Bytes) :
    (byteaText bs).ComesFrom (utf8 ('\\' :: 'x' :: Hex.digits bs)) := by
  have hnul : '\x00' ∉ '\\' :: 'x' :: Hex.digits bs := by
    simpa using nul_notMem_hexDigits bs
  exact ⟨mt zero_mem_utf8.1 hnul, .owned⟩

theorem comesFrom_ctextText (passing : Passing) (own : Ownership) (t : CText) :
    (ctextText passing own t).ComesFrom t.bytes := by
  refine ⟨t.nul_free, ?_⟩
  unfold ctextText
  split
  · exact .owned
  · exact .lent

theorem comesFrom_jsonText {d : Json.Document} {t : StoredText} (h : jsonText d = .ok t) :
    ∃ cs, d.text = .ok cs ∧ t.ComesFrom (utf8 cs) := by
  unfold jsonText at h
  cases htext : d.text with
  | error failure =>
    rw [htext] at h
    cases h
  | ok cs =>
    rw [htext] at h
    exact ⟨cs, rfl, comesFrom_textOf h⟩

end Encode

end SqlBind
