import TypedWire.Calendar.Civil

/-!
# Dates and times as text

- `Date.toText`: `YYYY-MM-DD`; years outside `0000` to `9999` carry a sign.
- `TimeOfDay.toText`: `HH:MM:SS`, with a fraction of three, six or nine digits if it is not zero.
- `Moment.toLocalText`, `Moment.toUtcText`: the two joined by `T`, without and with `Z`.
-/

namespace TypedWire

/-- A number with zeros before it up to a width. -/
def zeroPadded (width n : Nat) : String :=
  let digits := toString n
  String.ofList (List.replicate (width - digits.length) '0') ++ digits

/-- A year: four digits, and a sign before four or more if four unsigned ones do not hold it. -/
def yearText (year : Int) : String :=
  if 0 ≤ year ∧ year ≤ 9999 then zeroPadded 4 year.toNat
  else (if year < 0 then "-" else "+") ++ zeroPadded 4 year.natAbs

/-- The fraction of a second: as many thousandths as it needs, none if it is zero. -/
def fractionText (nanos : Nat) : String :=
  if nanos = 0 then ""
  else if nanos % 1000000 = 0 then "." ++ zeroPadded 3 (nanos / 1000000)
  else if nanos % 1000 = 0 then "." ++ zeroPadded 6 (nanos / 1000)
  else "." ++ zeroPadded 9 nanos

/-- A date as `YYYY-MM-DD`. -/
def Date.toText (d : Date) : String :=
  let c := d.toCivil
  yearText c.year ++ "-" ++ zeroPadded 2 c.month ++ "-" ++ zeroPadded 2 c.day

/-- A time as `HH:MM:SS` and a fraction; a leap second is the second number 60. -/
def TimeOfDay.toText (t : TimeOfDay) : String :=
  let second := t.seconds % 60 + t.nanos / nanosPerSecond
  zeroPadded 2 (t.seconds / 3600) ++ ":" ++ zeroPadded 2 (t.seconds / 60 % 60) ++ ":" ++
    zeroPadded 2 second ++ fractionText (t.nanos % nanosPerSecond)

/-- A moment without a zone. -/
def Moment.toLocalText (m : Moment) : String :=
  m.date.toText ++ "T" ++ m.time.toText

/-- A moment in universal time. -/
def Moment.toUtcText (m : Moment) : String :=
  m.toLocalText ++ "Z"

end TypedWire
