import TypedWire.Text.Blank

/-!
# Scanning texts

- `Scan α`: takes characters from the front of a text and gives an `α`, or fails.
- `Scan.char`, `Scan.word`, `Scan.oneOf`, `Scan.takeWhile`: the least scans.
- `Scan.digits`, `Scan.number`: runs of decimal digits.
- `Scan.many`, `Scan.separated`: repetition; it ends where the repeated scan fails.
- `Scan.all`: a scan that has to use up a text.
-/

namespace TypedWire

/-- Takes characters from the front of a text and gives an `α`, or fails. -/
abbrev Scan := StateT (List Char) Option

namespace Scan

variable {α β : Type}

/-- Some character with a property. -/
def charWhere (ok : Char → Bool) : Scan Char
  | c :: cs => if ok c then some (c, cs) else none
  | [] => none

/-- The given character. -/
def char (c : Char) : Scan Unit := do
  let _ ← charWhere (· == c)

/-- Some character of a list. -/
def oneOf (options : List Char) : Scan Char :=
  charWhere options.contains

/-- The given characters. -/
def word : List Char → Scan Unit
  | [] => pure ()
  | c :: cs => do
    char c
    word cs

/-- The characters up to the first without a property. -/
def takeWhile (ok : Char → Bool) : Scan (List Char) := fun cs =>
  some (cs.takeWhile ok, cs.dropWhile ok)

/-- The characters up to the first without a property, at least one. -/
def takeWhile1 (ok : Char → Bool) : Scan (List Char) := do
  let c ← charWhere ok
  let cs ← takeWhile ok
  return c :: cs

/-- Passes over blanks. -/
def blanks : Scan Unit := fun cs => some ((), Text.dropBlanks cs)

/-- Nothing, at the end of the text only. -/
def atEnd : Scan Unit
  | [] => some ((), [])
  | _ => none

/-- What a scan gives, or nothing if it fails. -/
def maybe (p : Scan α) : Scan (Option α) := fun cs =>
  match p cs with
  | some (a, rest) => some (some a, rest)
  | none => some (none, cs)

/-- What a scan gives, again and again until it fails or takes nothing. -/
def many (p : Scan α) : Scan (List α) := fun cs =>
  match p cs with
  | none => some ([], cs)
  | some (a, rest) =>
    if rest.length < cs.length then (many p rest).map fun (as, left) => (a :: as, left)
    else some ([], cs)
termination_by cs => cs.length

/-- What a scan gives, again and again with a separator between each two. -/
def separated (p : Scan α) (separator : Scan β) : Scan (List α) := do
  let first ← p
  let others ← many do
    let _ ← separator
    p
  return first :: others

/-- What is there, or else a failure. -/
def ofOption : Option α → Scan α
  | some a => pure a
  | none => failure

/-- A scan that has to use up a text. -/
def all (p : Scan α) (s : String) : Option α :=
  match p s.toList with
  | some (a, []) => some a
  | _ => none

/-! ## Digits -/

/-- The number that decimal digits spell. -/
def digitsValue (digits : List Char) : Nat :=
  digits.foldl (fun n d => n * 10 + (d.toNat - 48)) 0

/-- At least `least` digits and at most `most`, as they stand. -/
def digits (least most : Nat) : Scan (List Char) := fun cs =>
  let digits := (cs.take most).takeWhile Char.isDigit
  if digits.length < least then none else some (digits, cs.drop digits.length)

/-- A number of `least` to `most` digits. -/
def number (least most : Nat) : Scan Nat :=
  digitsValue <$> digits least most

/-- A number of one digit or more. -/
def unbounded : Scan Nat :=
  digitsValue <$> takeWhile1 Char.isDigit

end Scan

end TypedWire
