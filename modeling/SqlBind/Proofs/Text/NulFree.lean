import SqlBind.Bytes.Hex
import SqlBind.Proofs.Text.Notation
import SqlBind.Text.CText
import SqlBind.Text.Utf8

/-!
# Texts without a nul

The UTF-8 form of a text holds a nul byte just where the text holds the nul character, and none of
the texts that are put together here holds one: decimal numerals, hexadecimal digits, the notations
of floating-point numbers, dates and timestamps.

* `zero_mem_utf8`, `idxOf_zero_utf8`: nul bytes come from nul characters, and the first from the
  first.
* `nul_notMem_ofInt` and its siblings: the kinds of text.
* `letters count`: a text of any length.
-/

namespace SqlBind
set_option autoImplicit false

/-! ## Bytes and characters -/

/-- Only a form of one byte has a byte without the marker bit, and that byte is the character. -/
theorem toNat_eq_of_mem_utf8EncodeChar {b : UInt8} {c : Char} (h : b ∈ String.utf8EncodeChar c)
    (hb : b.toNat < 0x80) : b.toNat = c.toNat := by
  have hval : c.toNat = c.val.toNat := rfl
  rw [String.utf8EncodeChar] at h
  split at h
  · rw [List.mem_singleton.1 h, UInt8.toNat_ofNat']
    omega
  · split at h
    · simp only [List.mem_cons, List.not_mem_nil, or_false] at h
      rcases h with rfl | rfl <;> rw [UInt8.toNat_ofNat'] at hb <;> omega
    · split at h
      · simp only [List.mem_cons, List.not_mem_nil, or_false] at h
        rcases h with rfl | rfl | rfl <;> rw [UInt8.toNat_ofNat'] at hb <;> omega
      · simp only [List.mem_cons, List.not_mem_nil, or_false] at h
        rcases h with rfl | rfl | rfl | rfl <;> rw [UInt8.toNat_ofNat'] at hb <;> omega

theorem zero_mem_utf8EncodeChar {c : Char} : 0 ∈ String.utf8EncodeChar c ↔ c = '\x00' := by
  constructor
  · intro h
    have hnat := toNat_eq_of_mem_utf8EncodeChar h (by decide)
    exact Char.ext (UInt32.toNat_inj.1 hnat.symm)
  · rintro rfl
    decide

theorem zero_mem_utf8 {cs : List Char} : 0 ∈ utf8 cs ↔ '\x00' ∈ cs := by
  simp only [utf8, List.mem_flatMap, zero_mem_utf8EncodeChar]
  constructor
  · rintro ⟨c, hc, rfl⟩
    exact hc
  · intro h
    exact ⟨'\x00', h, rfl⟩

/-- The number of bytes before the first nul of a text. -/
def nulOffset (cs : List Char) : Nat :=
  (utf8 (cs.takeWhile (· != '\x00'))).length

theorem idxOf_zero_utf8 {cs : List Char} (h : '\x00' ∈ cs) : (utf8 cs).idxOf 0 = nulOffset cs := by
  induction cs with
  | nil => cases h
  | cons c cs ih =>
    by_cases hc : c = '\x00'
    · subst hc
      rfl
    · have hmem : '\x00' ∈ cs := (List.mem_cons.1 h).resolve_left (Ne.symm hc)
      have hfirst : (0 : UInt8) ∉ String.utf8EncodeChar c := mt zero_mem_utf8EncodeChar.1 hc
      have hkept : (c :: cs).takeWhile (· != '\x00') = c :: cs.takeWhile (· != '\x00') :=
        List.takeWhile_cons_of_pos (bne_iff_ne.2 hc)
      rw [utf8_cons, List.idxOf_append, if_neg hfirst, ih hmem, nulOffset, nulOffset, hkept,
        utf8_cons, List.length_append, Nat.add_comm]

/-! ## Numbers, dates and times -/

theorem coversNumerals_ne_nul : CoversNumerals (· ≠ '\x00') where
  digit := by
    rintro c hc rfl
    cases hc
  minus := by decide
  point := by decide
  exponent := by decide

theorem nul_notMem_ofInt (n : Int) : '\x00' ∉ Numeral.ofInt n := fun h =>
  coversNumerals_ne_nul.of_mem_ofInt h rfl

theorem nul_notMem_hexDigits (bs : Bytes) : '\x00' ∉ Hex.digits bs := by
  have hdigit : ∀ n < 16, '\x00' ≠ Nat.digitChar n := by decide
  intro hmem
  obtain ⟨b, -, hb⟩ := List.mem_flatMap.1 hmem
  have hhigh : b.toNat / 16 < 16 := by
    have := b.toNat_lt
    omega
  have hlow : b.toNat % 16 < 16 := Nat.mod_lt _ (by decide)
  rw [Hex.pair, List.mem_cons, List.mem_singleton] at hb
  rcases hb with hb | hb
  · exact hdigit _ hhigh hb
  · exact hdigit _ hlow hb

theorem Ieee.nul_notMem_styleText {style : DecimalStyle} (hplus : '\x00' ∉ style.plus)
    (f : Interchange) (negative : Bool) (m : Nat) (q : Int) :
    '\x00' ∉ style.text f negative m q := by
  have hplus' : ∀ c ∈ style.plus, c ≠ '\x00' := by
    rintro c hc rfl
    exact hplus hc
  exact fun h => coversNumerals_ne_nul.of_mem_styleText hplus' h rfl

theorem nul_notMem_dateText (d : Calendar.Date) : '\x00' ∉ d.text := fun h =>
  coversNumerals_ne_nul.of_mem_dateText h rfl

theorem nul_notMem_timestampText (t : Calendar.Timestamp) : '\x00' ∉ t.text := by
  have hdate := nul_notMem_dateText t.date
  have htime : '\x00' ∉ t.time.text := fun h =>
    coversNumerals_ne_nul.of_mem_timeText (by decide) h rfl
  simp [Calendar.Timestamp.text, hdate, htime]

theorem nul_notMem_utcText (t : Calendar.Timestamp) : '\x00' ∉ t.utcText := by
  simp [Calendar.Timestamp.utcText, nul_notMem_timestampText t]

/-- A text of so many letters. -/
def letters (count : Nat) : CText :=
  ⟨List.replicate count 120, fun h => absurd (List.eq_of_mem_replicate h) (by decide)⟩

theorem length_letters (count : Nat) : (letters count).bytes.length = count :=
  List.length_replicate

end SqlBind
