import TypedWire.Binary.Shortest
import TypedWire.Json.Basic

/-!
# Writing JSON

- `Json.compact`: without any space.
- `Json.pretty`: one item or entry a line, two spaces a level.
- `JsonFloat`: how the shortest decimal of a float is spelled.
-/

namespace TypedWire

/-- How floats are spelled: the decimal exponents of the leading digit that are written in
positional form. -/
structure JsonFloat where
  leastPositional : Int
  greatestPositional : Int

namespace JsonFloat

/-- Positional from `1e-5` up to but not including `1e16`. -/
def standard : JsonFloat := ⟨-5, 15⟩

/-- The digits of a decimal without trailing zeros. -/
def significantDigits (d : Binary.Decimal) : List Char :=
  ((Nat.toDigits 10 d.digits).reverse.dropWhile (· == '0')).reverse

/-- Digits with the point after the first `whole` of them, at least one digit on either side. -/
def positional (digits : List Char) (leading : Int) : List Char :=
  if leading < 0 then
    '0' :: '.' :: List.replicate (-leading - 1).toNat '0' ++ digits
  else
    let whole := leading.toNat + 1
    if digits.length ≤ whole then
      digits ++ List.replicate (whole - digits.length) '0' ++ ['.', '0']
    else digits.take whole ++ '.' :: digits.drop whole

/-- One digit before the point, the others after it, and the exponent with its sign. -/
def scientific (digits : List Char) (leading : Int) : List Char :=
  let mantissa := match digits with
    | first :: rest@(_ :: _) => first :: '.' :: rest
    | digits => digits
  let sign := if leading < 0 then '-' else '+'
  mantissa ++ 'e' :: sign :: Nat.toDigits 10 leading.natAbs

/-- A decimal other than zero. -/
def spell (style : JsonFloat) (d : Binary.Decimal) : List Char :=
  let digits := significantDigits d
  let leading := d.exponent + Binary.digitCount d.digits - 1
  if style.leastPositional ≤ leading ∧ leading ≤ style.greatestPositional then
    positional digits leading
  else scientific digits leading

end JsonFloat

/-- The text of a double; one that is no number is null. -/
def JsonNumber.floatText (bits : UInt64) : String :=
  match Binary.double.unpack bits.toNat with
  | .finite negative significand exponent =>
    let sign := if negative then "-" else ""
    if significand = 0 then sign ++ "0.0"
    else sign ++ String.ofList
      (JsonFloat.standard.spell (Binary.double.shortest significand exponent))
  | _ => "null"

/-- The text of a number. -/
def JsonNumber.text : JsonNumber → String
  | .int n => toString n
  | .float bits => floatText bits

namespace Json

/-- One character inside a string. -/
def escape (c : Char) : String :=
  if c = '"' then "\\\""
  else if c = '\\' then "\\\\"
  else if c = '\x08' then "\\b"
  else if c = '\x0c' then "\\f"
  else if c = '\n' then "\\n"
  else if c = '\r' then "\\r"
  else if c = '\t' then "\\t"
  else if c.toNat < 0x20 then
    "\\u00" ++ String.ofList [Nat.digitChar (c.toNat / 16), Nat.digitChar (c.toNat % 16)]
  else String.singleton c

/-- The text of a string. -/
def quote (s : String) : String :=
  "\"" ++ String.join (s.toList.map escape) ++ "\""

/-! ## Without spaces -/

mutual

/-- The text of a value without any space. -/
def compact : Json → String
  | .null => "null"
  | .bool b => if b then "true" else "false"
  | .number n => n.text
  | .string s => quote s
  | .array items => "[" ++ ",".intercalate (compactItems items) ++ "]"
  | .object entries => "\x7b" ++ ",".intercalate (compactEntries entries) ++ "\x7d"

/-- The texts of the items of an array. -/
def compactItems : List Json → List String
  | [] => []
  | v :: items => compact v :: compactItems items

/-- The texts of the entries of an object. -/
def compactEntries : List (String × Json) → List String
  | [] => []
  | (k, v) :: entries => (quote k ++ ":" ++ compact v) :: compactEntries entries

end

/-! ## One item a line -/

/-- Two spaces a level. -/
def indent (depth : Nat) : String :=
  String.ofList (List.replicate (2 * depth) ' ')

/-- Texts between two brackets, one a line. -/
def bracket (opening closing : String) (depth : Nat) (parts : List String) : String :=
  if parts.isEmpty then opening ++ closing
  else
    let inner := indent (depth + 1)
    opening ++ "\n" ++ inner ++ (",\n" ++ inner).intercalate parts ++ "\n" ++ indent depth ++
      closing

mutual

/-- The text of a value that stands at a level, one item a line. -/
def prettyAt (depth : Nat) : Json → String
  | .array items => bracket "[" "]" depth (prettyItems (depth + 1) items)
  | .object entries => bracket "\x7b" "\x7d" depth (prettyEntries (depth + 1) entries)
  | .null => "null"
  | .bool b => if b then "true" else "false"
  | .number n => n.text
  | .string s => quote s

/-- The texts of the items of an array. -/
def prettyItems (depth : Nat) : List Json → List String
  | [] => []
  | v :: items => prettyAt depth v :: prettyItems depth items

/-- The texts of the entries of an object. -/
def prettyEntries (depth : Nat) : List (String × Json) → List String
  | [] => []
  | (k, v) :: entries => (quote k ++ ": " ++ prettyAt depth v) :: prettyEntries depth entries

end

/-- The text of a value, one item a line. -/
def pretty (j : Json) : String := prettyAt 0 j

end Json

end TypedWire
