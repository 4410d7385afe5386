import SqlBind.Calendar.Text
import SqlBind.Proofs.Text.Order
import SqlBind.Proofs.Wire.Reader

/-!
# Reading dates and timestamps

Every field but the last has its width, and a fraction of a second ends where the digits end.

* `dateReader`, `timeReader`, `timestampReader`, `utcReader`: readers of the texts.
* `exists_fraction_zeros`: a fraction with the zeros that are left out is a numeral of nine digits.
* `reads_dateText`, `readsBefore_timestampText`, `reads_utcText`: each reader makes of a text what
  it was written for.
-/

namespace SqlBind.Calendar
set_option autoImplicit false

/-! ## Readers -/

/-- A number of so many digits. -/
def field (width : Nat) : Reader Char Nat :=
  Reader.take width >>= fun digits => Reader.ofOption (Numeral.read? digits)

/-- Four digits, after a minus sign or without one. -/
def yearReader : Reader Char Int := fun row =>
  match row with
  | '-' :: digits => ((fun n : Nat => -(n : Int)) <$> field 4).run digits
  | _ => ((fun n : Nat => (n : Int)) <$> field 4).run row

/-- One to nine digits, scaled to nanoseconds. -/
def fractionReader : Reader Char Nat := fun row =>
  let digits := row.takeWhile Char.isDigit
  if digits.length ≤ 9 then
    (Numeral.read? digits).map fun n =>
      (n * 10 ^ (9 - digits.length), row.dropWhile Char.isDigit)
  else none

def dateReader : Reader Char Date := do
  let year ← yearReader
  Reader.expect '-'
  let month ← field 2
  Reader.expect '-'
  let day ← field 2
  if h : IsDate year month day then return ⟨year, month, day, h⟩ else failure

def timeReader : Reader Char TimeOfDay := do
  let hour ← field 2
  Reader.expect ':'
  let minute ← field 2
  Reader.expect ':'
  let second ← field 2
  Reader.expect '.'
  let nanosecond ← fractionReader
  if h : hour < 24 ∧ minute < 60 ∧ second < 60 ∧ nanosecond < 1000000000 then
    return ⟨hour, minute, second, nanosecond, h.1, h.2.1, h.2.2.1, h.2.2.2⟩
  else failure

def timestampReader : Reader Char Timestamp := do
  let date ← dateReader
  Reader.expect ' '
  let time ← timeReader
  return ⟨date, time⟩

def utcReader : Reader Char Timestamp := do
  let t ← timestampReader
  Reader.expect '+'
  Reader.expect '0'
  Reader.expect '0'
  return t

/-! ## Dates -/

theorem reads_field {width n : Nat} (hwidth : 0 < width) (h : n < 10 ^ width) :
    Reads (field width) (Numeral.padded width n) n := by
  have htake := Reads.take (Numeral.padded width n)
  rw [Numeral.length_padded hwidth h] at htake
  rw [← List.append_nil (Numeral.padded width n)]
  exact htake.bind (Reads.ofOption (Numeral.read?_padded width n))

theorem reads_yearText {year : Int} (h : -9999 ≤ year ∧ year ≤ 9999) :
    Reads yearReader (yearText year) year := by
  have hdigits : Reads (field 4) (Numeral.padded 4 year.natAbs) year.natAbs :=
    reads_field (by decide) (by omega)
  intro rest
  by_cases hneg : year < 0
  · have hvalue : -(year.natAbs : Int) = year := by omega
    have hread := hdigits.map (fun n : Nat => -(n : Int)) rest
    rw [hvalue] at hread
    rw [yearText, if_pos hneg]
    exact hread
  · have hvalue : (year.natAbs : Int) = year := by omega
    have hread := hdigits.map (fun n : Nat => (n : Int)) rest
    rw [hvalue] at hread
    rw [yearText, if_neg hneg]
    -- A digit comes first, and no digit is a minus sign.
    obtain ⟨c, cs, hcs⟩ := List.exists_cons_of_ne_nil (Numeral.padded_ne_nil 4 year.natAbs)
    have hc : c.isDigit = true := by
      apply Numeral.isDigit_of_mem_padded
      rw [hcs]
      exact List.mem_cons_self
    have hminus : c ≠ '-' := by
      rintro rfl
      cases hc
    rw [hcs] at hread ⊢
    show yearReader (c :: (cs ++ rest)) = _
    unfold yearReader
    split
    · rename_i heq
      exact absurd (List.cons.inj heq).1 hminus
    · exact hread

theorem Date.month_le (d : Date) : 1 ≤ d.month ∧ d.month ≤ 12 := by
  obtain ⟨-, -, hday, hlast⟩ := d.isDate
  by_contra hmonth
  have hnone : daysInMonth d.year d.month = 0 := by
    unfold daysInMonth
    split <;> omega
  omega

theorem Date.day_le (d : Date) : d.day ≤ 31 := by
  have hmost : daysInMonth d.year d.month ≤ 31 := by
    unfold daysInMonth
    repeat' split
    all_goals omega
  exact Nat.le_trans d.isDate.2.2.2 hmost

theorem reads_dateText (d : Date) : Reads dateReader d.text d := by
  have hmonth := d.month_le
  have hday := d.day_le
  have hdate : Reads (if h : IsDate d.year d.month d.day
      then (return ⟨d.year, d.month, d.day, h⟩ : Reader Char Date) else failure) [] d := by
    rw [dif_pos d.isDate]
    exact Reads.pure d
  have hshape : d.text = yearText d.year ++ (['-'] ++ (Numeral.padded 2 d.month ++
      (['-'] ++ (Numeral.padded 2 d.day ++ [])))) := by
    simp [Date.text]
  rw [hshape]
  refine (reads_yearText ⟨d.isDate.1, d.isDate.2.1⟩).bind ((Reads.expect '-').bind ?_)
  refine (reads_field (by decide) (by omega)).bind ((Reads.expect '-').bind ?_)
  exact (reads_field (by decide) (by omega)).bind hdate

/-! ## Times of day -/

open Ieee.Neighbourhood

theorem fractionText_eq (nanosecond : Nat) :
    fractionText nanosecond = if withoutTrailingZeros (Numeral.padded 9 nanosecond) = [] then ['0']
      else withoutTrailingZeros (Numeral.padded 9 nanosecond) := by
  unfold fractionText withoutTrailingZeros
  simp only [List.isEmpty_iff]

theorem exists_fraction_zeros (nanosecond : Nat) :
    ∃ z, fractionText nanosecond ++ List.replicate z '0' = Numeral.padded 9 nanosecond := by
  obtain ⟨z, hz⟩ := exists_zeros (Numeral.padded 9 nanosecond)
  rw [fractionText_eq]
  by_cases hempty : withoutTrailingZeros (Numeral.padded 9 nanosecond) = []
  · rw [hempty, List.nil_append] at hz
    cases z with
    | zero => exact absurd hz (Numeral.padded_ne_nil 9 nanosecond)
    | succ z => exact ⟨z, by rw [if_pos hempty, hz, List.replicate_succ, List.singleton_append]⟩
  · exact ⟨z, by rw [if_neg hempty, ← hz]⟩

theorem fractionText_ne_nil (nanosecond : Nat) : fractionText nanosecond ≠ [] := by
  rw [fractionText_eq]
  split
  · exact List.cons_ne_nil _ _
  · assumption

theorem fractionText_of_getLast {nanosecond : Nat}
    (h : (fractionText nanosecond).getLast? = some '0') : fractionText nanosecond = ['0'] := by
  rw [fractionText_eq] at h ⊢
  by_cases hempty : withoutTrailingZeros (Numeral.padded 9 nanosecond) = []
  · rw [if_pos hempty]
  · rw [if_neg hempty, withoutTrailingZeros, List.getLast?_reverse] at h
    have hkept := List.head?_dropWhile_not (· == '0') (Numeral.padded 9 nanosecond).reverse
    rw [h] at hkept
    cases hkept

theorem isDigit_of_mem_fractionText {nanosecond : Nat} {c : Char}
    (hc : c ∈ fractionText nanosecond) : c.isDigit = true := by
  obtain ⟨z, hz⟩ := exists_fraction_zeros nanosecond
  exact Numeral.isDigit_of_mem_padded (hz ▸ List.mem_append_left _ hc)

/-- The fraction as a number of nanoseconds: it is continued by zeros to nine digits. -/
theorem ofDigitChars_fractionText {nanosecond : Nat} (h : nanosecond < 1000000000) :
    (fractionText nanosecond).length ≤ 9 ∧ Nat.ofDigitChars 10 (fractionText nanosecond) 0 *
      10 ^ (9 - (fractionText nanosecond).length) = nanosecond := by
  obtain ⟨z, hz⟩ := exists_fraction_zeros nanosecond
  have hlength := congrArg List.length hz
  rw [List.length_append, List.length_replicate, Numeral.length_padded (by decide) h] at hlength
  have hvalue := Numeral.ofDigitChars_padded 9 nanosecond
  rw [← hz, Nat.ofDigitChars_append, Nat.ofDigitChars_replicate_zero, Nat.mul_comm] at hvalue
  refine ⟨by omega, ?_⟩
  rwa [show 9 - (fractionText nanosecond).length = z by omega]

theorem readsBefore_fractionText {nanosecond : Nat} (h : nanosecond < 1000000000) :
    ReadsBefore (fun c => c.isDigit = false) fractionReader (fractionText nanosecond)
      nanosecond := by
  intro rest hrest
  have hdigits : ∀ c ∈ fractionText nanosecond, c.isDigit = true := fun _ =>
    isDigit_of_mem_fractionText
  obtain ⟨hlength, hvalue⟩ := ofDigitChars_fractionText h
  obtain ⟨htake, hdrop⟩ := takeWhile_append_of_head hdigits hrest
  simp only [StateT.run, fractionReader]
  rw [htake, hdrop, if_pos hlength, Numeral.read?_eq_some (fractionText_ne_nil nanosecond) hdigits,
    Option.map_some, hvalue]

theorem readsBefore_timeText (t : TimeOfDay) :
    ReadsBefore (fun c => c.isDigit = false) timeReader t.text t := by
  have hhour := t.hour_lt
  have hminute := t.minute_lt
  have hsecond := t.second_lt
  have hvalid : t.hour < 24 ∧ t.minute < 60 ∧ t.second < 60 ∧ t.nanosecond < 1000000000 :=
    ⟨hhour, hminute, hsecond, t.nanosecond_lt⟩
  have hshape : t.text = Numeral.padded 2 t.hour ++ ([':'] ++ (Numeral.padded 2 t.minute ++
      ([':'] ++ (Numeral.padded 2 t.second ++ (['.'] ++ fractionText t.nanosecond))))) := by
    simp [TimeOfDay.text]
  rw [hshape]
  refine (reads_field (by decide) (by omega)).bindBefore ((Reads.expect ':').bindBefore ?_)
  refine (reads_field (by decide) (by omega)).bindBefore ((Reads.expect ':').bindBefore ?_)
  refine (reads_field (by decide) (by omega)).bindBefore ((Reads.expect '.').bindBefore ?_)
  exact (readsBefore_fractionText t.nanosecond_lt).bindPure (dif_pos hvalid)

/-! ## Timestamps -/

theorem readsBefore_timestampText (t : Timestamp) :
    ReadsBefore (fun c => c.isDigit = false) timestampReader t.text t := by
  refine (reads_dateText t.date).bindBefore ?_
  rw [← List.singleton_append]
  exact (Reads.expect ' ').bindBefore ((readsBefore_timeText t.time).bindPure rfl)

theorem reads_utcText (t : Timestamp) : Reads utcReader t.utcText t := by
  refine (readsBefore_timestampText t).bind rfl ?_
  exact (Reads.expect '+').bind ((Reads.expect '0').bind ((Reads.expect '0').bind (Reads.pure t)))

end SqlBind.Calendar
