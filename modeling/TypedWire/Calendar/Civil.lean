import TypedWire.Calendar.Basic

/-!
# Years, months and days

The year is taken to start in March, so that the leap day is its last one, and four hundred years
are one period of 146097 days.

- `Civil`: a year, a month and a day of the month.
- `Civil.ofDays`, `Civil.toDays`: to and from the count of days since 1970-01-01.
- `Date.ofCivil?`: the day with the given year, month and day, if the calendar has it.
-/

namespace TypedWire

/-- A day by year, month and day of the month. -/
structure Civil where
  year : Int
  month : Nat
  day : Nat
  deriving DecidableEq

namespace Civil

/-- Days from 0000-03-01 to 1970-01-01. -/
def epochOffset : Int := 719468

/-- Days in four hundred years. -/
def daysPerPeriod : Nat := 146097

/-- The day with the given count. -/
def ofDays (days : Int) : Civil :=
  let shifted := days + epochOffset
  let period := shifted / daysPerPeriod
  let dayOfPeriod := (shifted % daysPerPeriod).toNat
  let yearOfPeriod :=
    (dayOfPeriod - dayOfPeriod / 1460 + dayOfPeriod / 36524 - dayOfPeriod / 146096) / 365
  let dayOfYear := dayOfPeriod - (365 * yearOfPeriod + yearOfPeriod / 4 - yearOfPeriod / 100)
  let marchMonth := (5 * dayOfYear + 2) / 153
  let month := if marchMonth < 10 then marchMonth + 3 else marchMonth - 9
  { year := period * 400 + yearOfPeriod + (if month ≤ 2 then 1 else 0)
    month
    day := dayOfYear - (153 * marchMonth + 2) / 5 + 1 }

/-- The count of a day. -/
def toDays (c : Civil) : Int :=
  let year := if c.month ≤ 2 then c.year - 1 else c.year
  let period := year / 400
  let yearOfPeriod := (year % 400).toNat
  let marchMonth := if c.month ≤ 2 then c.month + 9 else c.month - 3
  let dayOfYear := (153 * marchMonth + 2) / 5 + c.day - 1
  let dayOfPeriod := 365 * yearOfPeriod + yearOfPeriod / 4 - yearOfPeriod / 100 + dayOfYear
  period * daysPerPeriod + dayOfPeriod - epochOffset

/-- Whether a year has a leap day. -/
def isLeapYear (year : Int) : Bool :=
  year % 4 == 0 && (year % 100 != 0 || year % 400 == 0)

/-- The count of days in a month. -/
def monthLength (year : Int) (month : Nat) : Nat :=
  if month = 2 then (if isLeapYear year then 29 else 28)
  else if month = 4 ∨ month = 6 ∨ month = 9 ∨ month = 11 then 30
  else 31

/-- Whether the month has the day and the year the month. -/
def isDay (c : Civil) : Bool :=
  1 ≤ c.month && c.month ≤ 12 && 1 ≤ c.day && c.day ≤ monthLength c.year c.month

end Civil

/-- The year, month and day of a date. -/
def Date.toCivil (d : Date) : Civil := .ofDays d.days

/-- The date with the given year, month and day, if the calendar has it. -/
def Date.ofCivil? (c : Civil) : Option Date :=
  if c.isDay then Date.ofDays? c.toDays else none

end TypedWire
