import SqlBind.Calendar.Date
import SqlBind.Text.Numeral

/-!
# Text of dates and timestamps

* `Date.text`: `2024-02-29`.
* `fractionText`: the digits of a fraction of a second, without zeros at the end.
* `Timestamp.text`: `2024-02-29 13:05:09.25`.
* `Timestamp.utcText`: the same with `+00` after it.
-/

namespace SqlBind.Calendar
set_option autoImplicit false

/-- The year in four digits, after a minus sign if it is negative. -/
def yearText (year : Int) : List Char :=
  if year < 0 then '-' :: Numeral.padded 4 year.natAbs else Numeral.padded 4 year.natAbs

/-- Year, month and day with hyphens between them. -/
def Date.text (d : Date) : List Char :=
  yearText d.year ++ '-' :: Numeral.padded 2 d.month ++ '-' :: Numeral.padded 2 d.day

/-- The nine digits of a number of nanoseconds without the zeros at their end; one digit is kept. -/
def fractionText (nanosecond : Nat) : List Char :=
  let digits := ((Numeral.padded 9 nanosecond).reverse.dropWhile (· == '0')).reverse
  if digits.isEmpty then ['0'] else digits

/-- Hours, minutes and seconds with colons between them, a point, and the fraction. -/
def TimeOfDay.text (t : TimeOfDay) : List Char :=
  Numeral.padded 2 t.hour ++ ':' :: Numeral.padded 2 t.minute ++ ':' :: Numeral.padded 2 t.second ++
    '.' :: fractionText t.nanosecond

/-- Date, blank, time of day. -/
def Timestamp.text (t : Timestamp) : List Char :=
  t.date.text ++ ' ' :: t.time.text

/-- The timestamp with the offset of universal time after it. -/
def Timestamp.utcText (t : Timestamp) : List Char :=
  t.text ++ ['+', '0', '0']

end SqlBind.Calendar
