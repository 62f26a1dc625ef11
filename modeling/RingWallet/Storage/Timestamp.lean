import RingWallet.Numeral

/-!
# Unix times as text

A Unix time counts the seconds since the start of 1970. Its text gives the date of the Gregorian
calendar and the time of day, in the time zone of the count.
-/

set_option autoImplicit false

namespace RingWallet.Timestamp

/-- A day of the calendar. -/
structure Date where
  year : Nat
  month : Nat
  day : Nat
deriving DecidableEq

/-- The date of a day that is counted from the first of March of the year zero. Years are taken to
start in March, so that the leap day is the last one of its year. -/
def dateOfShifted (days : Nat) : Date :=
  let era := days / 146097
  let dayOfEra := days % 146097
  let yearOfEra := (dayOfEra - dayOfEra / 1460 + dayOfEra / 36524 - dayOfEra / 146096) / 365
  let dayOfYear := dayOfEra - (365 * yearOfEra + yearOfEra / 4 - yearOfEra / 100)
  let shiftedMonth := (5 * dayOfYear + 2) / 153
  let day := dayOfYear - (153 * shiftedMonth + 2) / 5 + 1
  let month := if shiftedMonth < 10 then shiftedMonth + 3 else shiftedMonth - 9
  ⟨yearOfEra + era * 400 + (if month ≤ 2 then 1 else 0), month, day⟩

/-- The date of a day that is counted from the start of 1970. -/
def dateOf (days : Nat) : Date := dateOfShifted (days + 719468)

/-- A decimal number with at least `width` digits. -/
def digits (width n : Nat) : String := String.ofList (paddedDigits 10 width n)

/-- The year: four digits, and a plus sign before a longer one. -/
def yearText (year : Nat) : String :=
  if year < 10000 then digits 4 year else "+" ++ digits 5 year

/-- The text of a Unix time, such as `1970-01-01T00:00:00+00:00`. -/
def text (seconds : Nat) : String :=
  let date := dateOf (seconds / 86400)
  let time := seconds % 86400
  s!"{yearText date.year}-{digits 2 date.month}-{digits 2 date.day}T" ++
    s!"{digits 2 (time / 3600)}:{digits 2 (time / 60 % 60)}:{digits 2 (time % 60)}+00:00"

end RingWallet.Timestamp
