import TypedWire.Integer

/-!
# Dates, times and durations

The calendar is the Gregorian one, extended without end in both directions and cut off at the years
`-262143` and `262142`. A leap second is the second before it with a nanosecond count of a thousand
million or more. A time that is made from its parts has a leap second at the end of a minute only,
but any second of a time can have the nanoseconds of one.

- `Date`, `TimeOfDay`, `Moment`: a day, a time on a day, and the two together; each with the proof
  that it is in the calendar.
- `Duration`: a signed count of nanoseconds.
- `Date.ofDays?`, `TimeOfDay.of?`, `Moment.ofUnix?`: from counts, where they are in the calendar.
- `Moment.minusSeconds?`: at another second, with the nanoseconds kept.
-/

namespace TypedWire

/-- The first day, `-262143-01-01`, counted from 1970-01-01. -/
def firstDay : Int := -96465292

/-- The last day, `+262142-12-31`, counted from 1970-01-01. -/
def lastDay : Int := 95026236

/-- Seconds in a day without leap second. -/
def secondsPerDay : Nat := 86400

/-- Nanoseconds in a second. -/
def nanosPerSecond : Nat := 1000000000

/-- A day, counted from 1970-01-01. -/
structure Date where
  days : Int
  inCalendar : firstDay ≤ days ∧ days ≤ lastDay
  deriving DecidableEq

/-- A time on a day, in any second of which a leap second can be. -/
structure TimeOfDay where
  seconds : Nat
  nanos : Nat
  onDay : seconds < secondsPerDay
  inSecond : nanos < 2 * nanosPerSecond
  deriving DecidableEq

/-- A time on some day. -/
structure Moment where
  date : Date
  time : TimeOfDay
  deriving DecidableEq

/-- A span of time, in nanoseconds. -/
structure Duration where
  nanos : Int
  deriving DecidableEq

/-- The day with the given count, if the calendar has it. -/
def Date.ofDays? (days : Int) : Option Date :=
  if h : firstDay ≤ days ∧ days ≤ lastDay then some ⟨days, h⟩ else none

/-- The day from which days are counted. -/
def Date.epoch : Date := ⟨0, by decide⟩

/-- A leap second only stands at the end of a minute. -/
def LeapLast (seconds nanos : Nat) : Prop :=
  nanosPerSecond ≤ nanos → seconds % 60 = 59
  deriving Decidable

namespace TimeOfDay

/-- The time with the given second of the day and nanoseconds, if there is one that has a leap
second at the end of a minute at most. -/
def of? (seconds nanos : Nat) : Option TimeOfDay :=
  if h : seconds < secondsPerDay ∧ nanos < 2 * nanosPerSecond ∧ LeapLast seconds nanos then
    some ⟨seconds, nanos, h.1, h.2.1⟩
  else none

/-- The start of a day. -/
def midnight : TimeOfDay := ⟨0, 0, by decide, by decide⟩

end TimeOfDay

namespace Moment

/-- The moment from which seconds are counted. -/
def epoch : Moment := ⟨.epoch, .midnight⟩

/-- The seconds from 1970-01-01 to a moment. -/
def unixSeconds (m : Moment) : Int :=
  m.date.days * secondsPerDay + m.time.seconds

/-- The moment with the given second, counted from 1970-01-01, and nanoseconds. -/
def ofUnix? (seconds : Int) (nanos : Nat) : Option Moment := do
  let date ← Date.ofDays? (seconds / secondsPerDay)
  let time ← TimeOfDay.of? (seconds % secondsPerDay).toNat nanos
  return ⟨date, time⟩

/-- The moment at an offset, in seconds, before this one on the clock, with the same nanoseconds. -/
def minusSeconds? (m : Moment) (offset : Int) : Option Moment := do
  let seconds := m.unixSeconds - offset
  let date ← Date.ofDays? (seconds / secondsPerDay)
  have honDay : (seconds % secondsPerDay).toNat < secondsPerDay := by
    unfold secondsPerDay
    omega
  return ⟨date, { m.time with seconds := (seconds % secondsPerDay).toNat, onDay := honDay }⟩

end Moment

/-! ## Counts of microseconds -/

/-- Microseconds in a second. -/
def microsPerSecond : Nat := 1000000

/-- Whole microseconds of a duration, the rest cut off towards zero, if 64 bits hold them. -/
def Duration.toMicros? (d : Duration) : Option Int64 :=
  int64? (d.nanos.tdiv 1000)

/-- The duration of a count of microseconds. -/
def Duration.ofMicros (micros : Int) : Duration := ⟨micros * 1000⟩

end TypedWire
