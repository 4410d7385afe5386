import SqlBind.Proofs.Encode.Encoded
import SqlBind.Proofs.Param.Alike
import SqlBind.Proofs.Param.Contract
import SqlBind.Proofs.Text.Canonical
import SqlBind.Proofs.Text.Storage

/-!
# Columns do not show where their text is

A text comes into a column as a copy, by being taken over, or as a view of what somebody else keeps.
From then on only its bytes matter.

* `StoredText.SameColumn s s'`: the two are the same to everybody who asks the column.
* `Value.exists_route_of_encode`: every text column of a value comes about in one of these
  ways.
* `Encode.integerText_eq_small_iff`: which integers are kept inside the column.
* `storage_invisible`: the way that was taken does not show.
-/

namespace SqlBind
set_option autoImplicit false

open Encode

/-! ## Asking a column -/

namespace StoredText

/-- Whatever a column is asked, it gives the same answer for both of two stored texts, also where
the answer is a fault. -/
structure SameColumn (s s' : StoredText) : Prop where
  data : ∀ index, (Param.text s).data index = (Param.text s').data index
  sent : ∀ index, (Param.text s).sent index = (Param.text s').sent index
  completeSection : (Param.text s).completeSection = (Param.text s').completeSection
  sectionLength : (Param.text s).sectionLength = (Param.text s').sectionLength
  arrays : (Param.text s).arrays = (Param.text s').arrays
  debug : (Param.text s).debug = (Param.text s').debug

theorem SameColumn.of_bytes_eq {s s' : StoredText} (h : s.bytes = s'.bytes) : SameColumn s s' := by
  have halike : (Param.text s).Alike (.text s') := congrArg (fun bs => Param.text (.heap bs)) h
  have hagree := halike.agree
  exact ⟨hagree.data, hagree.sent, hagree.completeSection_eq, hagree.sectionLength_eq,
    hagree.arrays_eq, halike.debug_eq⟩

end StoredText

open StoredText

/-! ## Texts of values -/

namespace Value

theorem exists_comesFrom_of_map {result : Except EncodeError StoredText} {s : StoredText}
    (hfrom : ∀ s, result = .ok s → ∃ content, s.ComesFrom content)
    (h : result.map Param.text = .ok (.text s)) : ∃ content, s.ComesFrom content := by
  obtain ⟨s', hs', heq⟩ := Result.map_eq_ok.1 h
  exact Param.text.inj heq ▸ hfrom s' hs'

theorem exists_comesFrom_of_encode {passing : Passing} {v : Value} {s : StoredText}
    (h : (v.encode passing).result = .ok (.text s)) : ∃ content, s.ComesFrom content := by
  have htextOf {cs : List Char} (s : StoredText) (h : textOf cs = .ok s) :
      ∃ content, s.ComesFrom content := ⟨_, comesFrom_textOf h⟩
  induction v generalizing passing with
  | bool b =>
    cases h
    exact ⟨_, comesFrom_boolText b⟩
  | char c => exact exists_comesFrom_of_map (fun _ h => ⟨_, comesFrom_charText h⟩) h
  | decimal n =>
    cases h
    exact ⟨_, comesFrom_integerText n.val⟩
  | extended x =>
    cases h
    exact ⟨_, comesFrom_extendedText x⟩
  | string own s => exact exists_comesFrom_of_map htextOf h
  | ctext own t =>
    cases h
    exact ⟨_, comesFrom_ctextText passing own t⟩
  | bytes own bs =>
    cases h
    exact ⟨_, comesFrom_byteaText bs⟩
  | date d => exact exists_comesFrom_of_map htextOf h
  | timestamp t => exact exists_comesFrom_of_map htextOf h
  | timestampUtc t => exact exists_comesFrom_of_map htextOf h
  | json d =>
    apply exists_comesFrom_of_map (fun s hs => ?_) h
    obtain ⟨cs, -, hfrom⟩ := comesFrom_jsonText hs
    exact ⟨_, hfrom⟩
  | ref v ih => exact ih h
  | converted log target ih => exact ih h
  -- Optional values and tuples have parameters of their own.
  | some v =>
    obtain ⟨p, -, hp⟩ := Logged.result_map_eq_ok.1 h
    cases hp
  | tuple vs =>
    obtain ⟨ps, -, hps⟩ := Logged.result_map_eq_ok.1 h
    cases hps
  | _ => cases h

theorem exists_route_of_encode {passing : Passing} {v : Value} {s : StoredText}
    (h : (v.encode passing).result = .ok (.text s)) : ∃ t, Route t s := by
  obtain ⟨content, hnul, hroute⟩ := exists_comesFrom_of_encode h
  exact ⟨⟨content, hnul⟩, hroute⟩

end Value

/-! ## Integers -/

namespace Encode

theorem integerText_eq_small_iff (n : Int) :
    (∃ offset buffer, integerText n = .small offset buffer) ↔
      (Numeral.ofInt n).length + 1 ≤ bufferLength := by
  rw [← Numeral.length_utf8_ofInt]
  exact exists_small_iff

end Encode

namespace BoundedInt

theorem least_le_val (n : BoundedInt) : IntKind.int128.least ≤ n.val := by
  have hkind : IntKind.int128.least ≤ n.kind.least := by
    cases n.kind <;> decide
  exact Int.le_trans hkind n.least_le

theorem val_le_greatest (n : BoundedInt) : n.val ≤ IntKind.uint128.greatest := by
  have hkind : n.kind.greatest ≤ IntKind.uint128.greatest := by
    cases n.kind <;> decide
  exact Int.le_trans n.le_greatest hkind

/-- The least integer has the longest numeral. -/
theorem length_ofInt_le (n : BoundedInt) : (Numeral.ofInt n.val).length ≤ 40 := by
  have hleast : -((10 ^ 39 : Nat) : Int) < IntKind.int128.least := by decide
  have hgreatest : IntKind.uint128.greatest < ((10 ^ 40 : Nat) : Int) := by decide
  exact (Numeral.length_ofInt_le_iff (by decide)).2
    ⟨Int.lt_of_lt_of_le hleast n.least_le_val, Int.lt_of_le_of_lt n.val_le_greatest hgreatest⟩

end BoundedInt

theorem Numeral.ofInt_least : ofInt IntKind.int128.least =
    "-170141183460469231731687303715884105728".toList := by
  decide +kernel

/-- **Columns do not show where their text is.** All ways of a text into a column end with the bytes
of the text and one nul, and no answer of the column tells them apart; every text column of a value
came about in one of them. A copy is kept inside the column if it fits its 23 bytes together with
the nul. Then its place is within the buffer, no step leaves the bounds on the way there, and what
the buffer holds before it plays no part. So every integer that is sent as text is its one canonical
numeral with a nul behind it, be it kept inside the column or, beyond 22 characters, on the heap. -/
theorem storage_invisible (t : CText) (n : BoundedInt) (passing : Passing) :
    (Route t (copy t.bytes) ∧ Route t (owned t) ∧ Route t (lent t) ∧
      ∀ cs, utf8 cs = t.bytes → ∃ s, textOf cs = .ok s ∧ Route t s) ∧
    (∀ s, Route t s →
      s.bytes = t.bytes ++ [0] ∧
      (Param.text s).data 0 = .ok (some (t.bytes ++ [0])) ∧
      (Param.text s).sent 0 = .ok (some t.bytes) ∧
      (Param.text s).debug =
        .record "Text" "value" (.atom (Quoted.text (t.bytes ++ [0]))) ∧
      ∀ s', Route t s' → SameColumn s s') ∧
    (∀ v s, (Value.encode passing v).result = .ok (.text s) → ∃ t', Route t' s) ∧
    (∀ limit, (Steps.within limit).copy t.bytes = some (copy t.bytes)) ∧
    ((∃ offset buffer, copy t.bytes = small offset buffer) ↔ t.bytes.length + 1 ≤ 23) ∧
    (¬t.bytes.length + 1 ≤ 23 → copy t.bytes = heap (t.bytes ++ [0])) ∧
    (∀ offset buffer, copy t.bytes = small offset buffer →
      buffer.length = 23 ∧ offset + (t.bytes.length + 1) = 23 ∧ offset < 23 ∧
      ∀ other : Bytes, (∀ i, offset ≤ i → other[i]? = buffer[i]?) →
        SameColumn (small offset other) (copy t.bytes)) ∧
    ∃ cs, (∀ cs', Numeral.IsCanonical cs' ∧ Numeral.readInt? cs' = some n.val ↔ cs' = cs) ∧
      ((Value.decimal n).encode passing).result = .ok (.text (copy (utf8 cs))) ∧
      (copy (utf8 cs)).bytes = utf8 cs ++ [0] ∧
      (Param.text (copy (utf8 cs))).sent 0 = .ok (some (utf8 cs)) ∧
      cs.length ≤ 40 ∧ (n.val = IntKind.int128.least → cs.length = 40) ∧
      ((∃ offset buffer, copy (utf8 cs) = small offset buffer) ↔ cs.length + 1 ≤ 23) ∧
      (cs.length + 1 ≤ 23 ↔ -((10 ^ 21 : Nat) : Int) < n.val ∧ n.val < ((10 ^ 22 : Nat) : Int)) := by
  refine ⟨⟨.copied, .owned, .lent, fun cs hcs => ?_⟩, fun s hs => ?_,
    fun v s => Value.exists_route_of_encode, fun limit => copy_within limit t.bytes, exists_small_iff,
    copy_eq_heap, fun offset buffer hcopy => ?_, ?_⟩
  · have hnul : 0 ∉ utf8 cs := hcs ▸ t.nul_free
    have htext : textOf cs = .ok (owned ⟨utf8 cs, hnul⟩) := by rw [textOf, CText.ofBytes_ok hnul]
    exact ⟨_, htext, .checked hcs htext⟩
  · have hbytes := hs.holds.bytes_eq
    refine ⟨hbytes, Param.data_text hs.holds, Param.sent_text hs.holds, ?_, fun s' hs' => ?_⟩
    · rw [← hbytes]
      rfl
    · exact .of_bytes_eq (hbytes.trans hs'.holds.bytes_eq.symm)
  · have hoffset := offset_add_of_copy hcopy
    refine ⟨length_buffer_of_copy hcopy, hoffset, ?_, fun other hother => ?_⟩
    · exact Nat.lt_of_lt_of_eq (Nat.lt_add_of_pos_right (Nat.succ_pos _)) hoffset
    · rw [hcopy]
      exact .of_bytes_eq (bytes_small_of_getElem?_eq hother)
  · have hholds := (comesFrom_integerText n.val).holds
    refine ⟨Numeral.ofInt n.val, fun cs' => Numeral.isCanonical_and_read_iff, rfl,
      hholds.bytes_eq, Param.sent_text hholds, n.length_ofInt_le, fun hleast => ?_,
      integerText_eq_small_iff n.val, ?_⟩
    · rw [hleast, Numeral.ofInt_least]
      rfl
    · exact Nat.add_le_add_iff_right.trans (Numeral.length_ofInt_le_iff (by decide))

def leastInteger : BoundedInt :=
  ⟨.int128, IntKind.int128.least, Int.le_refl _, by decide⟩

/-- Twenty-two bytes fill the buffer from its start; one more, and the copy is on the heap, as is
the numeral of the least integer. -/
theorem storage_invisible_boundary :
    (∃ buffer, copy (letters 22).bytes = small 0 buffer) ∧
    copy (letters 23).bytes = heap ((letters 23).bytes ++ [0]) ∧
    SameColumn (copy (letters 23).bytes) (lent (letters 23)) ∧
    ∃ cs, cs.length = 40 ∧
      ((Value.decimal leastInteger).encode .lent).result = .ok (.text (copy (utf8 cs))) ∧
      ¬∃ offset buffer, copy (utf8 cs) = small offset buffer := by
  obtain ⟨-, -, -, -, hfits, -, hlayout, -⟩ := storage_invisible (letters 22) leastInteger .lent
  obtain ⟨hroutes, hsame, -, -, -, hspills, -, cs, -, hencode, -, -, -, hleast, hplace, -⟩ :=
    storage_invisible (letters 23) leastInteger .lent
  refine ⟨?_, hspills (by decide), ?_, cs, hleast rfl, hencode, fun hsmall => ?_⟩
  · obtain ⟨offset, buffer, hcopy⟩ := hfits.2 (by decide)
    have hoffset := (hlayout offset buffer hcopy).2.1
    obtain rfl : offset = 0 := Nat.add_eq_right.1 hoffset
    exact ⟨buffer, hcopy⟩
  · exact (hsame _ hroutes.1).2.2.2.2 _ hroutes.2.2.1
  · have hlength := hplace.1 hsmall
    rw [hleast rfl] at hlength
    exact absurd hlength (by decide)

end SqlBind
