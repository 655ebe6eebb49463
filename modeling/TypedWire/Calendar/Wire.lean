import TypedWire.Calendar.Basic

/-!
# Dates and times as the wire counts them

The wire counts from 2000-01-01: microseconds to a moment, days to a date. Times of day are counted
in microseconds from midnight.

- `Moment.ofMicros?`, `Moment.toMicros?`.
- `Date.ofWireDays?`, `Date.toWireDays?`.
- `TimeOfDay.ofMicros?`, `TimeOfDay.toMicros`.
- `Duration.ofWireMicros?`: only counts whose nanoseconds 64 bits hold are durations.
-/

namespace TypedWire

/-- Days from 1970-01-01 to 2000-01-01. -/
def wireEpochDays : Int := 10957

/-- Seconds from 1970-01-01 to 2000-01-01. -/
def wireEpochSeconds : Int := 946684800

namespace Moment

/-- The moment a count of microseconds after 2000-01-01, if the calendar has it. -/
def ofMicros? (micros : Int64) : Option Moment :=
  ofUnix? (wireEpochSeconds + micros.toInt / microsPerSecond)
    (micros.toInt % microsPerSecond * 1000).toNat

/-- The whole microseconds from 2000-01-01 to a moment, if 64 bits hold them. -/
def toMicros? (m : Moment) : Option Int64 :=
  int64? ((m.unixSeconds - wireEpochSeconds) * microsPerSecond + (m.time.nanos / 1000 : Nat))

end Moment

namespace Date

/-- The date a count of days after 2000-01-01, if the calendar has it. -/
def ofWireDays? (days : Int32) : Option Date :=
  ofDays? (wireEpochDays + days.toInt)

/-- The days from 2000-01-01 to a date, if 32 bits hold them. -/
def toWireDays? (d : Date) : Option Int32 :=
  int32? (d.days - wireEpochDays)

end Date

namespace TimeOfDay

/-- The time a count of microseconds after midnight, if the day has it. -/
def ofMicros? (micros : Int64) : Option TimeOfDay :=
  let seconds := micros.toInt / microsPerSecond
  if seconds < 0 then none
  else of? seconds.toNat (micros.toInt % microsPerSecond * 1000).toNat

/-- The whole microseconds from midnight to a time. -/
def toMicros (t : TimeOfDay) : Int64 :=
  Int64.ofInt (t.seconds * microsPerSecond + t.nanos / 1000)

end TimeOfDay

/-- The duration of a count of microseconds whose nanoseconds 64 bits hold. -/
def Duration.ofWireMicros? (micros : Int64) : Option Duration :=
  (int64? (micros.toInt * 1000)).map fun nanos => ⟨nanos.toInt⟩

end TypedWire
