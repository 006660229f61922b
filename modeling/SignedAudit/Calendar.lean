namespace SignedAudit

/-! # The proleptic Gregorian calendar

Days are numbered from 1970-01-01, which is day 0. `Date.dayNumber` counts the days of the years and
months before a date; `Date.ofDayNumber` finds the year by an estimate that is off by at most one, and
then walks through the twelve months. -/

namespace Calendar

/-- Leap years: every fourth, of the centuries only every fourth. -/
def isLeap (year : Int) : Bool := year % 4 == 0 && (year % 100 != 0 || year % 400 == 0)

/-- The lengths of the twelve months of a year. -/
def monthLengths (year : Int) : List Nat :=
  [31, if isLeap year then 29 else 28, 31, 30, 31, 30, 31, 31, 30, 31, 30, 31]

/-- The days of some months of the given lengths. -/
def daysIn : (lengths : List Nat) → Nat
  | [] => 0
  | length :: rest => length + daysIn rest

@[simp] theorem daysIn_nil : daysIn [] = 0 := rfl

@[simp] theorem daysIn_cons (length : Nat) (rest : List Nat) :
    daysIn (length :: rest) = length + daysIn rest := rfl

/-- The days from day 0 to the first of January of a year. -/
def daysBeforeYear (year : Int) : Int :=
  365 * (year - 1970) + ((year - 1) / 4 - (year - 1) / 100 + (year - 1) / 400 - 477)

/-- The year that holds a day: an estimate by the mean length of a year, and one step either way. -/
def yearOfDay (day : Int) : Int :=
  let estimate := 1970 + day * 400 / 146097
  if day < daysBeforeYear estimate then estimate - 1
  else if daysBeforeYear (estimate + 1) ≤ day then estimate + 1
  else estimate

/-- The month, counted from `month`, and the day of the month, counted from 1, that a number of days
leads to when the months have the given lengths. -/
def walkMonths : (lengths : List Nat) → (month days : Nat) → Nat × Nat
  | [], month, days => (month, days + 1)
  | length :: rest, month, days =>
    if days < length then (month, days + 1) else walkMonths rest (month + 1) (days - length)

end Calendar

/-- A year, a month counted from 1 and a day of the month counted from 1. Not every such triple is a
day of the calendar, see `Date.isValid`. -/
structure Date where
  year : Int
  month : Nat
  day : Nat
  deriving DecidableEq, Repr

namespace Date

open Calendar

/-- Does the calendar have this day? -/
def isValid (d : Date) : Bool :=
  1 ≤ d.month && 1 ≤ d.day && d.day ≤ (monthLengths d.year).getD (d.month - 1) 0

/-- The number of a day of the calendar. -/
def dayNumber (d : Date) : Int :=
  daysBeforeYear d.year + daysIn ((monthLengths d.year).take (d.month - 1)) + (d.day - 1 : Int)

/-- The day of a number. -/
def ofDayNumber (day : Int) : Date :=
  let year := yearOfDay day
  let (month, dayOfMonth) := walkMonths (monthLengths year) 1 (day - daysBeforeYear year).toNat
  ⟨year, month, dayOfMonth⟩

end Date

end SignedAudit
