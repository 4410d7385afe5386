/-!
# Calendar dates and times of day

* `Date`: a day of the proleptic Gregorian calendar, with a year from -9999 to 9999.
* `TimeOfDay`: a time of day, to the nanosecond.
* `Timestamp`: a day and a time of day.
-/

namespace SqlBind.Calendar
set_option autoImplicit false

/-- Every fourth year is a leap year, but only every fourth century. Years before year 1 count
through zero. -/
def isLeapYear (year : Int) : Bool :=
  year % 4 == 0 && (year % 100 != 0 || year % 400 == 0)

/-- The number of days in a month; no month outside 1 to 12 has any. -/
def daysInMonth (year : Int) : Nat → Nat
  | 2 => if isLeapYear year then 29 else 28
  | 4 | 6 | 9 | 11 => 30
  | 1 | 3 | 5 | 7 | 8 | 10 | 12 => 31
  | _ => 0

/-- Whether three numbers are the year, month and day of a date. -/
abbrev IsDate (year : Int) (month day : Nat) : Prop :=
  -9999 ≤ year ∧ year ≤ 9999 ∧ 1 ≤ day ∧ day ≤ daysInMonth year month

/-- A day of the proleptic Gregorian calendar. -/
structure Date where
  year : Int
  month : Nat
  day : Nat
  isDate : IsDate year month day

structure TimeOfDay where
  hour : Nat
  minute : Nat
  second : Nat
  nanosecond : Nat
  hour_lt : hour < 24
  minute_lt : minute < 60
  second_lt : second < 60
  nanosecond_lt : nanosecond < 1000000000

structure Timestamp where
  date : Date
  time : TimeOfDay

end SqlBind.Calendar
