import TypedWire.Calendar.Civil
import TypedWire.Text.Scan

/-!
# Dates and times from text

- `Date.ofText?`: `YYYY-MM-DD`, with blanks allowed around the parts.
- `TimeOfDay.ofText?`: `HH:MM:SS` with an optional fraction.
- `Moment.ofLocalText?`: a date and a time joined by `T`.
- `Moment.ofZonedText?`: a moment with a zone, in fixed columns; the zone is taken away.
-/

namespace TypedWire

namespace Scan

/-- The digits after a point as nanoseconds; those after the ninth are passed over. -/
def fractionDigits : Scan Nat := do
  let ds ← digits 1 9
  modify (·.dropWhile Char.isDigit)
  return digitsValue (ds ++ List.replicate (9 - ds.length) '0')

/-- A fraction of a second, if there is one, as nanoseconds. -/
def fraction : Scan (Option Nat)
  | '.' :: cs => (some <$> fractionDigits) cs
  | cs => some (none, cs)

/-- A number of one or two digits, perhaps after blanks. -/
def short : Scan Nat := do
  blanks
  number 1 2

/-- A year, perhaps after blanks: up to four digits, or a sign and any count of them. -/
def year : Scan Int := do
  blanks
  match (← get) with
  | '-' :: cs =>
    set cs
    return -(← unbounded)
  | '+' :: cs =>
    set cs
    unbounded
  | _ => number 1 4

end Scan

/-- The time with the given hour, minute, second and fraction; second 60 is a leap second. -/
def TimeOfDay.ofClock? (hour minute second fraction : Nat) : Option TimeOfDay :=
  if hour < 24 ∧ minute < 60 ∧ second ≤ 60 then
    let (second, leap) := if second = 60 then (59, nanosPerSecond) else (second, 0)
    TimeOfDay.of? (hour * 3600 + minute * 60 + second) (leap + fraction)
  else none

namespace Scan

/-- Hour, minute, second and fraction, each number perhaps after blanks. -/
def clock : Scan TimeOfDay := do
  let hour ← short
  char ':'
  let minute ← short
  char ':'
  let second ← short
  let fraction ← fraction
  ofOption (TimeOfDay.ofClock? hour minute second (fraction.getD 0))

/-- A date with blanks allowed around its parts. -/
def looseDate : Scan Date := do
  let year ← year
  blanks
  char '-'
  let month ← short
  blanks
  char '-'
  let day ← short
  blanks
  ofOption (Date.ofCivil? ⟨year, month, day⟩)

/-- A date and a time joined by `T`. -/
def localMoment : Scan Moment := do
  let year ← year
  char '-'
  let month ← short
  char '-'
  let day ← short
  char 'T'
  let time ← clock
  let date ← ofOption (Date.ofCivil? ⟨year, month, day⟩)
  return ⟨date, time⟩

/-- The greatest distance of a zone from universal time, in minutes. -/
def maxOffsetMinutes : Nat := 23 * 60 + 59

/-- A zone, as seconds: `Z`, or a sign, hours and minutes. -/
def zone : Scan Int := do
  let sign ← oneOf ['Z', 'z', '+', '-', '\u2212']
  if sign = 'Z' ∨ sign = 'z' then return 0
  let hours ← number 2 2
  char ':'
  let minutes ← number 2 2
  if 60 ≤ minutes ∨ maxOffsetMinutes < hours * 60 + minutes then failure
  let seconds : Int := ((hours * 60 + minutes) * 60 : Nat)
  return if sign = '+' then seconds else -seconds

/-- A moment with a zone, in fixed columns. -/
def zonedMoment : Scan Moment := do
  let year ← number 4 4
  char '-'
  let month ← number 2 2
  char '-'
  let day ← number 2 2
  let _ ← oneOf ['T', 't', ' ']
  let hour ← number 2 2
  char ':'
  let minute ← number 2 2
  char ':'
  let second ← number 2 2
  let fraction ← fraction
  let offset ← zone
  let date ← ofOption (Date.ofCivil? ⟨year, month, day⟩)
  let time ← ofOption (TimeOfDay.ofClock? hour minute second (fraction.getD 0))
  ofOption ((⟨date, time⟩ : Moment).minusSeconds? offset)

end Scan

/-- Reads a date. -/
def Date.ofText? : String → Option Date := Scan.looseDate.all

/-- Reads a time. -/
def TimeOfDay.ofText? : String → Option TimeOfDay := Scan.clock.all

/-- Reads a moment without a zone. -/
def Moment.ofLocalText? : String → Option Moment := Scan.localMoment.all

/-- Reads a moment with a zone and gives it in universal time. -/
def Moment.ofZonedText? : String → Option Moment := Scan.zonedMoment.all

end TypedWire
