import Mathlib.Order.Monotone.Basic
import SqlBind.Proofs.Calendar.Reading

/-!
# The order of dates and timestamps

Days are counted through years and months, and nanoseconds through days. Field by field this is the
order of the texts, as long as no year is negative: then every field but the fraction has one width,
and a fraction that another one continues stands before it.

* `Date.dayNumber`, `Timestamp.instant`: chronological order is the order of these numbers.
* `Date.Before`, `Timestamp.Before`: the first field that differs decides; `dayNumber_lt_iff` and
  `instant_lt_iff`: that is chronological order.
* `precedes_dateText`, `precedes_timestampText`: and it is the order of the texts.
-/

namespace SqlBind.Calendar
set_option autoImplicit false

/-! ## Counting days -/

/-- The days from the beginning of year 0 to that of a year, up to a constant. -/
def daysBeforeYear (year : Int) : Int :=
  365 * year + (year - 1) / 4 - (year - 1) / 100 + (year - 1) / 400

/-- The days from the beginning of a year to that of a month. -/
def daysBeforeMonth (year : Int) : Nat → Nat
  | 0 => 0
  | month + 1 => daysBeforeMonth year month + daysInMonth year month

/-- Every day has the number after that of the day before. -/
def Date.dayNumber (d : Date) : Int :=
  daysBeforeYear d.year + daysBeforeMonth d.year d.month + d.day

def TimeOfDay.nanosecondOfDay (t : TimeOfDay) : Nat :=
  ((t.hour * 60 + t.minute) * 60 + t.second) * 1000000000 + t.nanosecond

def Timestamp.instant (t : Timestamp) : Int :=
  t.date.dayNumber * 86400000000000 + t.time.nanosecondOfDay

/-- A year ends where the next one begins. -/
theorem daysBeforeYear_succ (year : Int) :
    daysBeforeYear (year + 1) = daysBeforeYear year + daysBeforeMonth year 13 := by
  have hyear : daysBeforeMonth year 13 = if isLeapYear year then 366 else 365 := by
    simp only [daysBeforeMonth, daysInMonth]
    split <;> rfl
  rw [hyear, daysBeforeYear, daysBeforeYear]
  simp only [isLeapYear, Bool.and_eq_true, Bool.or_eq_true, beq_iff_eq, bne_iff_ne]
  split <;> omega

theorem daysBeforeYear_le {year year' : Int} (h : year ≤ year') :
    daysBeforeYear year ≤ daysBeforeYear year' := by
  unfold daysBeforeYear
  omega

theorem daysBeforeMonth_mono (year : Int) : Monotone (daysBeforeMonth year) :=
  monotone_nat_of_le_succ fun _ => Nat.le_add_right _ _

/-! ## Fields in order -/

def Date.Before (d e : Date) : Prop :=
  d.year < e.year ∨ d.year = e.year ∧ (d.month < e.month ∨ d.month = e.month ∧ d.day < e.day)

def TimeOfDay.Before (t u : TimeOfDay) : Prop :=
  t.hour < u.hour ∨ t.hour = u.hour ∧ (t.minute < u.minute ∨ t.minute = u.minute ∧
    (t.second < u.second ∨ t.second = u.second ∧ t.nanosecond < u.nanosecond))

def Timestamp.Before (t u : Timestamp) : Prop :=
  t.date.Before u.date ∨ t.date = u.date ∧ t.time.Before u.time

theorem Date.before_trichotomy (d e : Date) : d.Before e ∨ d = e ∨ e.Before d := by
  obtain ⟨year, month, day, hd⟩ := d
  obtain ⟨year', month', day', he⟩ := e
  simp only [Date.Before, Date.mk.injEq]
  omega

theorem TimeOfDay.before_trichotomy (t u : TimeOfDay) : t.Before u ∨ t = u ∨ u.Before t := by
  obtain ⟨hour, minute, second, nanosecond, _, _, _, _⟩ := t
  obtain ⟨hour', minute', second', nanosecond', _, _, _, _⟩ := u
  simp only [TimeOfDay.Before, TimeOfDay.mk.injEq]
  omega

theorem Timestamp.before_trichotomy (t u : Timestamp) : t.Before u ∨ t = u ∨ u.Before t := by
  obtain ⟨date, time⟩ := t
  obtain ⟨date', time'⟩ := u
  rcases date.before_trichotomy date' with h | rfl | h
  · exact .inl (.inl h)
  · rcases time.before_trichotomy time' with h | rfl | h
    · exact .inl (.inr ⟨rfl, h⟩)
    · exact .inr (.inl rfl)
    · exact .inr (.inr (.inr ⟨rfl, h⟩))
  · exact .inr (.inr (.inl h))

/-- An order that contains another one is that one, where the latter is total and the former has no
two values before each other. -/
theorem iff_of_trichotomy {α : Type} {before : α → α → Prop} (after : α → α → Prop) {a b : α}
    (htotal : before a b ∨ a = b ∨ before b a) (hab : before a b → after a b)
    (hba : before b a → after b a) (hasymm : ∀ a b, after a b → ¬after b a) :
    after a b ↔ before a b := by
  constructor
  · intro h
    rcases htotal with hbefore | rfl | hbefore
    · exact hbefore
    · exact absurd h (hasymm a a h)
    · exact absurd (hba hbefore) (hasymm a b h)
  · exact hab

theorem Date.dayNumber_lt_of_before {d e : Date} (h : d.Before e) : d.dayNumber < e.dayNumber := by
  obtain ⟨-, -, -, hlast⟩ := d.isDate
  obtain ⟨-, -, hfirst, -⟩ := e.isDate
  have hmonth : daysBeforeMonth d.year d.month + d.day ≤ daysBeforeMonth d.year (d.month + 1) :=
    Nat.add_le_add_left hlast _
  unfold dayNumber
  rcases h with hyear | ⟨hyear, hmonths | ⟨hmonths, hday⟩⟩
  -- The earlier year, or the earlier month, ends before the later one begins.
  · have hyears : daysBeforeYear (d.year + 1) ≤ daysBeforeYear e.year :=
      daysBeforeYear_le (by omega)
    have hmonths : daysBeforeMonth d.year (d.month + 1) ≤ daysBeforeMonth d.year 13 :=
      daysBeforeMonth_mono d.year (by have := d.month_le; omega)
    rw [daysBeforeYear_succ] at hyears
    omega
  · have hmonths : daysBeforeMonth d.year (d.month + 1) ≤ daysBeforeMonth d.year e.month :=
      daysBeforeMonth_mono d.year hmonths
    rw [← hyear]
    omega
  · rw [← hyear, ← hmonths]
    omega

theorem Date.dayNumber_lt_iff {d e : Date} : d.dayNumber < e.dayNumber ↔ d.Before e :=
  iff_of_trichotomy (fun d e : Date => d.dayNumber < e.dayNumber) (d.before_trichotomy e)
    dayNumber_lt_of_before dayNumber_lt_of_before fun _ _ => Int.lt_asymm

theorem TimeOfDay.nanosecondOfDay_lt (t : TimeOfDay) : t.nanosecondOfDay < 86400000000000 := by
  obtain ⟨hour, minute, second, nanosecond, _, _, _, _⟩ := t
  simp only [nanosecondOfDay]
  omega

theorem TimeOfDay.nanosecondOfDay_lt_of_before {t u : TimeOfDay} (h : t.Before u) :
    t.nanosecondOfDay < u.nanosecondOfDay := by
  obtain ⟨hour, minute, second, nanosecond, _, _, _, _⟩ := t
  obtain ⟨hour', minute', second', nanosecond', _, _, _, _⟩ := u
  simp only [Before, nanosecondOfDay] at h ⊢
  omega

theorem Timestamp.instant_lt_of_before {t u : Timestamp} (h : t.Before u) :
    t.instant < u.instant := by
  unfold instant
  rcases h with hdate | ⟨hdate, htime⟩
  · have hday := Date.dayNumber_lt_of_before hdate
    have hlast := t.time.nanosecondOfDay_lt
    omega
  · have hlt := TimeOfDay.nanosecondOfDay_lt_of_before htime
    rw [hdate]
    omega

theorem Timestamp.instant_lt_iff {t u : Timestamp} : t.instant < u.instant ↔ t.Before u :=
  iff_of_trichotomy (fun t u : Timestamp => t.instant < u.instant) (t.before_trichotomy u)
    instant_lt_of_before instant_lt_of_before fun _ _ => Int.lt_asymm

/-! ## Texts in order -/

theorem precedes_field {width m n : Nat} {cs ds : List Char} (hwidth : 0 < width)
    (hn : n < 10 ^ width) (h : m < n ∨ m = n ∧ Precedes cs ds) :
    Precedes (Numeral.padded width m ++ cs) (Numeral.padded width n ++ ds) := by
  rcases h with hlt | ⟨rfl, hrest⟩
  · have hlength : (Numeral.padded width m).length = (Numeral.padded width n).length := by
      rw [Numeral.length_padded hwidth hn, Numeral.length_padded hwidth (Nat.lt_trans hlt hn)]
    exact (Numeral.precedes_padded hwidth hlt hn).append hlength cs ds
  · exact hrest.append_left _

theorem Date.text_of_nonneg {d : Date} (h : 0 ≤ d.year) :
    d.text = Numeral.padded 4 d.year.toNat ++ '-' :: (Numeral.padded 2 d.month ++
      '-' :: Numeral.padded 2 d.day) := by
  have hyear : yearText d.year = Numeral.padded 4 d.year.toNat := by
    have habs : d.year.natAbs = d.year.toNat := by omega
    rw [yearText, if_neg (Int.not_lt.2 h), habs]
  simp [Date.text, hyear]

theorem Date.length_text {d : Date} (h : 0 ≤ d.year) : d.text.length = 10 := by
  have hyear := d.isDate.2.1
  have hmonth := d.month_le
  have hday := d.day_le
  rw [text_of_nonneg h]
  simp only [List.length_append, List.length_cons]
  rw [Numeral.length_padded (by decide) (by omega), Numeral.length_padded (by decide) (by omega),
    Numeral.length_padded (by decide) (by omega)]

theorem precedes_dateText {d e : Date} (hd : 0 ≤ d.year) (he : 0 ≤ e.year) (h : d.Before e) :
    Precedes d.text e.text := by
  have hyear := e.isDate.2.1
  have hmonth := e.month_le
  have hday := e.day_le
  rw [Date.text_of_nonneg hd, Date.text_of_nonneg he]
  refine precedes_field (by decide) (by omega) ?_
  rcases h with hlt | ⟨heq, h⟩
  · exact .inl (by omega)
  · refine .inr ⟨by omega, .cons (precedes_field (by decide) (by omega) ?_)⟩
    rcases h with hlt | ⟨heq, hlt⟩
    · exact .inl hlt
    · exact .inr ⟨heq, .cons (Numeral.precedes_padded (by decide) hlt (by omega))⟩

section

variable {back : List Char} (hback : ∀ d rest, d.isDigit = true → Precedes back (d :: rest))
include hback

theorem precedes_fractionText {m n : Nat} (h : m < n) (hn : n < 1000000000) :
    Precedes (fractionText m ++ back) (fractionText n ++ back) := by
  obtain ⟨y, hy⟩ := exists_fraction_zeros m
  obtain ⟨z, hz⟩ := exists_fraction_zeros n
  have hlength : (fractionText m).length + y = (fractionText n).length + z := by
    have hm := congrArg List.length hy
    have hn' := congrArg List.length hz
    rw [List.length_append, List.length_replicate, Numeral.length_padded (by decide) (by omega)]
      at hm hn'
    omega
  have hpadded := Numeral.precedes_padded (by decide : 0 < 9) h hn
  rw [← hy, ← hz] at hpadded
  exact Numeral.precedes_of_zeros (fun _ => isDigit_of_mem_fractionText)
    (fun _ => isDigit_of_mem_fractionText) hback hlength hpadded

theorem precedes_timeText {t u : TimeOfDay} (h : t.Before u) :
    Precedes (t.text ++ back) (u.text ++ back) := by
  have hhour := u.hour_lt
  have hminute := u.minute_lt
  have hsecond := u.second_lt
  have hshape : ∀ t : TimeOfDay, t.text ++ back = Numeral.padded 2 t.hour ++
      ':' :: (Numeral.padded 2 t.minute ++ ':' :: (Numeral.padded 2 t.second ++
        '.' :: (fractionText t.nanosecond ++ back))) := by
    intro t
    simp [TimeOfDay.text]
  rw [hshape, hshape]
  refine precedes_field (by decide) (by omega) ?_
  rcases h with hlt | ⟨heq, h⟩
  · exact .inl hlt
  · refine .inr ⟨heq, .cons (precedes_field (by decide) (by omega) ?_)⟩
    rcases h with hlt | ⟨heq, h⟩
    · exact .inl hlt
    · refine .inr ⟨heq, .cons (precedes_field (by decide) (by omega) ?_)⟩
      rcases h with hlt | ⟨heq, hlt⟩
      · exact .inl hlt
      · exact .inr ⟨heq, .cons (precedes_fractionText hback hlt u.nanosecond_lt)⟩

theorem precedes_timestampText {t u : Timestamp} (ht : 0 ≤ t.date.year) (hu : 0 ≤ u.date.year)
    (h : t.Before u) : Precedes (t.text ++ back) (u.text ++ back) := by
  simp only [Timestamp.text, List.append_assoc]
  rcases h with hdate | ⟨hdate, htime⟩
  · have hlength : t.date.text.length = u.date.text.length :=
      (Date.length_text ht).trans (Date.length_text hu).symm
    exact (precedes_dateText ht hu hdate).append hlength _ _
  · rw [hdate]
    exact Precedes.append_left (.cons (precedes_timeText hback htime)) _

end

end SqlBind.Calendar
