import SqlBind.Proofs.Calendar.Order
import SqlBind.Proofs.Encode.Text
import SqlBind.Proofs.Param.Contract

/-!
# Texts of the calendar types

* `Rendering α`: a calendar type with its values, texts, reader and order; `Rendering.date`,
  `Rendering.timestamp` and `Rendering.utc` are the three that are bound.
* `Rendering.Exact r`: what can be said of the texts of any of them.
* `calendar_exact`: it holds of all three, and how their texts go together.
-/

namespace SqlBind.Calendar
set_option autoImplicit false

/-- A calendar type: the values that are made of it, their texts and a reader of these, and the
number that orders them in time. -/
structure Rendering (α : Type) where
  value : α → Value
  text : α → List Char
  reader : Reader Char α
  year : α → Int
  moment : α → Int

namespace Rendering

def date : Rendering Date where
  value := .date
  text := Date.text
  reader := dateReader
  year := Date.year
  moment := Date.dayNumber

def timestamp : Rendering Timestamp where
  value := .timestamp
  text := Timestamp.text
  reader := timestampReader
  year t := t.date.year
  moment := Timestamp.instant

def utc : Rendering Timestamp where
  value := .timestampUtc
  text := Timestamp.utcText
  reader := utcReader
  year t := t.date.year
  moment := Timestamp.instant

/-- Every value has a text, from which it can be read; different values have different texts, and
without negative years the byte-wise order of the texts is chronological. -/
structure Exact {α : Type} (r : Rendering α) : Prop where
  encodes : ∀ passing a, ∃ p, ((r.value a).encode passing).result = .ok p ∧ p.columns = 1 ∧
    p.format 0 = .ok .text ∧ p.data 0 = .ok (some (utf8 (r.text a) ++ [0]))
  reads : ∀ a, r.reader.whole (r.text a) = some a
  injective : Function.Injective r.text
  ordered : ∀ a b, 0 ≤ r.year a → 0 ≤ r.year b →
    (BytesPrecede (utf8 (r.text a)) (utf8 (r.text b)) ↔ r.moment a < r.moment b)

section

variable {α : Type} {r : Rendering α}

theorem injective_of_reads (h : ∀ a, r.reader.whole (r.text a) = some a) :
    Function.Injective r.text := by
  intro a b heq
  have hread := h a
  rw [heq, h b] at hread
  exact (Option.some.inj hread).symm

theorem encodes_of_textOf {passing : Passing} {a : α} (hnul : '\x00' ∉ r.text a)
    (h : ((r.value a).encode passing).result = (Encode.textOf (r.text a)).map .text) :
    ∃ p, ((r.value a).encode passing).result = .ok p ∧ p.columns = 1 ∧ p.format 0 = .ok .text ∧
      p.data 0 = .ok (some (utf8 (r.text a) ++ [0])) := by
  obtain ⟨t, ht⟩ := Encode.exists_textOf hnul
  rw [h, ht]
  exact ⟨.text t, rfl, rfl, rfl, Param.data_text (Encode.comesFrom_textOf ht).holds⟩

theorem ordered_of_before {before : α → α → Prop} {a b : α}
    (hascii : ∀ a, ∀ c ∈ r.text a, c.toNat < 128)
    (htotal : before a b ∨ a = b ∨ before b a) (hmoment : r.moment a < r.moment b ↔ before a b)
    (hab : before a b → Precedes (r.text a) (r.text b))
    (hba : before b a → Precedes (r.text b) (r.text a)) :
    BytesPrecede (utf8 (r.text a)) (utf8 (r.text b)) ↔ r.moment a < r.moment b := by
  rw [hmoment]
  exact iff_of_trichotomy (fun a b => BytesPrecede (utf8 (r.text a)) (utf8 (r.text b))) htotal
    (fun h => bytesPrecede_utf8 (hascii a) (hascii b) (hab h))
    (fun h => bytesPrecede_utf8 (hascii b) (hascii a) (hba h)) fun _ _ h => h.asymm

end

theorem ascii_timestampText (t : Timestamp) : ∀ c ∈ t.text, c.toNat < 128 := by
  intro c hc
  rcases List.mem_append.1 hc with hc | hc
  · exact coversNumerals_ascii.of_mem_dateText hc
  · rcases List.mem_cons.1 hc with rfl | hc
    · decide
    · exact coversNumerals_ascii.of_mem_timeText (by decide) hc

theorem exact_date : date.Exact where
  encodes := fun _ d => encodes_of_textOf (nul_notMem_dateText d) rfl
  reads := fun d => (reads_dateText d).whole
  injective := injective_of_reads fun d => (reads_dateText d).whole
  ordered := fun d e hd he => ordered_of_before
    (fun _ _ hc => coversNumerals_ascii.of_mem_dateText hc) (d.before_trichotomy e)
    Date.dayNumber_lt_iff (precedes_dateText hd he) (precedes_dateText he hd)

theorem exact_timestamp : timestamp.Exact where
  encodes := fun _ t => encodes_of_textOf (nul_notMem_timestampText t) rfl
  reads := fun t => (readsBefore_timestampText t).whole
  injective := injective_of_reads fun t => (readsBefore_timestampText t).whole
  ordered := by
    intro t u ht hu
    have hprecedes : ∀ {t u : Timestamp}, 0 ≤ t.date.year → 0 ≤ u.date.year → t.Before u →
        Precedes t.text u.text := by
      intro t u ht hu h
      have hempty : ∀ d rest, d.isDigit = true → Precedes [] (d :: rest) := fun _ _ _ => .nil
      simpa using precedes_timestampText hempty ht hu h
    exact ordered_of_before ascii_timestampText (t.before_trichotomy u) Timestamp.instant_lt_iff
      (hprecedes ht hu) (hprecedes hu ht)

theorem exact_utc : utc.Exact where
  encodes := fun _ t => encodes_of_textOf (nul_notMem_utcText t) rfl
  reads := fun t => (reads_utcText t).whole
  injective := injective_of_reads fun t => (reads_utcText t).whole
  ordered := by
    intro t u ht hu
    -- The offset begins with a plus sign, which stands before the digits of a longer fraction.
    have hoffset : ∀ d rest, d.isDigit = true → Precedes ['+', '0', '0'] (d :: rest) :=
      fun _ _ hd => .rel (Nat.lt_of_lt_of_le (by decide) (Numeral.toNat_of_isDigit hd).1)
    have hascii : ∀ t : Timestamp, ∀ c ∈ t.utcText, c.toNat < 128 := by
      intro t c hc
      rcases List.mem_append.1 hc with hc | hc
      · exact ascii_timestampText t c hc
      · simp only [List.mem_cons, List.not_mem_nil, or_false] at hc
        rcases hc with rfl | rfl | rfl <;> decide
    exact ordered_of_before hascii (t.before_trichotomy u) Timestamp.instant_lt_iff
      (precedes_timestampText hoffset ht hu) (precedes_timestampText hoffset hu ht)

end Rendering

/-- **Texts of dates and timestamps.** Every date and every timestamp is encoded, its text reads
back as all of its fields, and without negative years texts are in chronological order. The text of a
timestamp goes on from that of its date, and the one in universal time only adds the offset. A
fraction of a second ends in zero only if it is the single digit zero. -/
theorem calendar_exact :
    Rendering.date.Exact ∧ Rendering.timestamp.Exact ∧ Rendering.utc.Exact ∧
    ∀ t : Timestamp, t.date.text <+: t.text ∧ t.utcText = t.text ++ ['+', '0', '0'] ∧
      ∃ front fraction, t.text = front ++ '.' :: fraction ∧
        (∀ c ∈ fraction, c.isDigit = true) ∧
        (fraction.getLast? = some '0' → fraction = ['0']) := by
  refine ⟨Rendering.exact_date, Rendering.exact_timestamp, Rendering.exact_utc, fun t => ?_⟩
  refine ⟨List.prefix_append _ _, rfl, ?_⟩
  refine ⟨t.date.text ++ ' ' :: (Numeral.padded 2 t.time.hour ++
    ':' :: Numeral.padded 2 t.time.minute ++ ':' :: Numeral.padded 2 t.time.second),
    fractionText t.time.nanosecond, ?_,
    fun _ => isDigit_of_mem_fractionText, fractionText_of_getLast⟩
  simp [Timestamp.text, TimeOfDay.text]

end SqlBind.Calendar
