import TypedWire.Binary.Format
import TypedWire.Calendar.Civil
import TypedWire.Text.Scan
import TypedWire.Toml.Basic

/-!
# The parts of a TOML document

- `Toml.Scan.key`: a dotted key.
- `Toml.Scan.string`, `Toml.Scan.number`, `Toml.Scan.datetime`: the scalar values.
- `Toml.Scan.value`: a value that nests no deeper than a given depth.
- `Toml.Scan.lineEnd`: what may stand behind a value or a header.
-/

namespace TypedWire.Toml.Scan

open TypedWire.Scan

/-! ## Space, comments and line ends -/

/-- Whether a character may stand in a comment. -/
def isCommentChar (c : Char) : Bool :=
  c == '\t' || (0x20 ≤ c.toNat && c.toNat ≠ 0x7f)

/-- Spaces and tabs. -/
def spaces : Scan Unit := do
  let _ ← takeWhile fun c => c == ' ' || c == '\t'

/-- The end of a line. -/
def newline : Scan Unit :=
  char '\n' <|> word ['\r', '\n']

/-- A comment up to the end of its line. -/
def comment : Scan Unit := do
  char '#'
  let _ ← takeWhile isCommentChar

/-- Spaces, a comment and the end of the line or of the document. -/
def lineEnd : Scan Unit := do
  spaces
  let _ ← maybe comment
  newline <|> atEnd

/-- Spaces, comments and line ends, as between the items of an array. -/
def gap : Scan Unit := do
  let _ ← many do
    let _ ← takeWhile1 (fun c => c == ' ' || c == '\t')
      <|> (do newline; return [])
      <|> (do comment; newline; return [])
  return ()

/-! ## Strings -/

/-- Whether a character may stand for itself in a string that `quote` ends. -/
def isPlain (quote c : Char) : Bool :=
  isCommentChar c && c ≠ quote

/-- The value of a hexadecimal digit. -/
def hexDigit : Scan Nat := do
  let c ← charWhere fun c =>
    c.isDigit || ('a' ≤ c && c ≤ 'f') || ('A' ≤ c && c ≤ 'F')
  return if c.isDigit then c.toNat - 48 else (c.toNat - 55) % 32

/-- The character whose code point the given count of digits spells. -/
def codePoint : Nat → Nat → Scan Char
  | 0, n => if h : n.isValidChar then return Char.ofNatAux n h else failure
  | digits + 1, n => do
    let d ← hexDigit
    codePoint digits (n * 16 + d)

/-- What follows the backslash of an escape. -/
def escaped : Scan Char := do
  let c ← oneOf ['b', 't', 'n', 'f', 'r', '"', '\\', 'u', 'U']
  if c = 'b' then return '\x08'
  else if c = 't' then return '\t'
  else if c = 'n' then return '\n'
  else if c = 'f' then return '\x0c'
  else if c = 'r' then return '\r'
  else if c = 'u' then codePoint 4 0
  else if c = 'U' then codePoint 8 0
  else return c

/-- An escape. -/
def escape : Scan Char := do
  char '\\'
  escaped

/-- A string in double quotes. -/
def basicString : Scan String := do
  char '"'
  let cs ← many (escape <|> charWhere fun c => isPlain '"' c && c ≠ '\\')
  char '"'
  return String.ofList cs

/-- A string in single quotes, where a backslash is nothing special. -/
def literalString : Scan String := do
  char '\''
  let cs ← takeWhile (isPlain '\'')
  char '\''
  return String.ofList cs

/-- A line end inside a string of several lines. -/
def innerNewline : Scan (List Char) := do
  newline
  return ['\n']

/-- A backslash at the end of a line, which joins what follows the space after it. -/
def lineJoin : Scan (List Char) := do
  char '\\'
  spaces
  newline
  let _ ← many (do let _ ← oneOf [' ', '\t'] <|> (do newline; return '\n'))
  return []

/-- One or two quotes that do not end a string of several lines. -/
def innerQuotes (quote : Char) : Scan (List Char) := fun cs =>
  let run := cs.takeWhile (· == quote)
  if run.length = 1 ∨ run.length = 2 then some (run, cs.drop run.length) else none

/-- The three quotes that end a string of several lines, after up to two that belong to it. -/
def closingQuotes (quote : Char) : Scan (List Char) := fun cs =>
  let run := (cs.takeWhile (· == quote)).take 5
  if 3 ≤ run.length then some (run.drop 3, cs.drop run.length) else none

/-- A string of several lines, by the scan of its parts. -/
def multiline (quote : Char) (part : Scan (List Char)) : Scan String := do
  word [quote, quote, quote]
  let _ ← maybe newline
  let parts ← many (part <|> innerNewline <|> innerQuotes quote)
  let last ← closingQuotes quote
  return String.ofList (parts.flatten ++ last)

/-- A string of several lines in double quotes. -/
def multilineBasic : Scan String :=
  multiline '"' (lineJoin <|> (do return [← escape])
    <|> (do return [← charWhere fun c => isPlain '"' c && c ≠ '\\']))

/-- A string of several lines in single quotes. -/
def multilineLiteral : Scan String :=
  multiline '\'' do return [← charWhere (isPlain '\'')]

/-- A string in any of its four forms. -/
def string : Scan String :=
  multilineBasic <|> multilineLiteral <|> basicString <|> literalString

/-! ## Keys -/

/-- A part of a key. -/
def simpleKey : Scan String :=
  basicString <|> literalString <|> do
    let cs ← takeWhile1 fun c => c.isAlphanum || c == '_' || c == '-'
    return String.ofList cs

/-- The greatest depth of keys and of values. -/
def maxDepth : Nat := 79

/-- A key: its parts but the last, and the last. -/
def key : Scan (List String × String) := do
  let parts ← separated (do spaces; let k ← simpleKey; spaces; return k) (char '.')
  if maxDepth < parts.length then failure
  match parts.getLast? with
  | some last => return (parts.dropLast, last)
  | none => failure

/-! ## Numbers -/

/-- Digits with single underscores between them. -/
def digitRun (isDigit : Char → Bool) : Scan (List Char) := do
  let first ← charWhere isDigit
  let rest ← many do
    let _ ← maybe (char '_')
    charWhere isDigit
  return first :: rest

/-- A sign, if there is one: whether it is a minus. -/
def sign : Scan Bool := do
  let c ← maybe (oneOf ['+', '-'])
  return c = some '-'

/-- The digits of an integer, without zeros before them. -/
def decimalDigits : Scan (List Char) := fun cs =>
  match digitRun Char.isDigit cs with
  | some (ds@('0' :: _ :: _), _) => if ds.isEmpty then none else some (['0'], cs.drop 1)
  | r => r

/-- An integer that 64 bits hold. -/
def integerOf (n : Int) : Scan Value :=
  if (int64? n).isSome then return .integer n else failure

/-- The number that digits spell to a base. -/
def valueIn (base : Nat) (digits : List Char) : Nat :=
  digits.foldl (fun n c =>
    n * base + if c.isDigit then c.toNat - 48 else (c.toNat - 55) % 32) 0

/-- An integer to a base other than ten. -/
def basedInteger (mark : Char) (base : Nat) (isDigit : Char → Bool) : Scan Value := do
  word ['0', mark]
  let digits ← digitRun isDigit
  integerOf (valueIn base digits)

/-- An integer. -/
def integer : Scan Value :=
  basedInteger 'x' 16 (fun c => c.isDigit || ('a' ≤ c && c ≤ 'f') || ('A' ≤ c && c ≤ 'F'))
    <|> basedInteger 'o' 8 (fun c => '0' ≤ c && c ≤ '7')
    <|> basedInteger 'b' 2 (fun c => c == '0' || c == '1')
    <|> do
      let negative ← sign
      let digits ← decimalDigits
      let n : Int := digitsValue digits
      integerOf (if negative then -n else n)

/-- The exponent of a float. -/
def exponent : Scan Int := do
  let _ ← oneOf ['e', 'E']
  let negative ← sign
  let digits ← digitRun Char.isDigit
  let n : Int := digitsValue digits
  return if negative then -n else n

/-- The fraction of a float. -/
def fraction : Scan (List Char) := do
  char '.'
  digitRun Char.isDigit

/-- A float with digits. Below all finite ones it is minus infinity, above it is refused. -/
def decimalFloat : Scan Value := do
  let negative ← sign
  let whole ← decimalDigits
  let fraction ← maybe fraction
  let exponent ← maybe exponent
  if fraction.isNone ∧ exponent.isNone then failure
  let digits := fraction.getD []
  match Binary.ofDecimal? negative (digitsValue (whole ++ digits))
      (exponent.getD 0 - digits.length) with
  | some bits => return .float bits
  | none =>
    if negative then
      return .float (UInt64.ofNat (Binary.double.withSign true Binary.double.infinity))
    else failure

/-- Infinity and what is no number. -/
def specialFloat : Scan Value := do
  let negative ← sign
  let special ← (do word ['i', 'n', 'f']; return Binary.double.infinity)
    <|> (do word ['n', 'a', 'n']; return Binary.double.noNumber)
  return .float (UInt64.ofNat (Binary.double.withSign negative special))

/-! ## Dates and times -/

/-- Two digits that spell a number in a range. -/
def field (least most : Nat) : Scan Unit := do
  let n ← TypedWire.Scan.number 2 2
  if n < least ∨ most < n then failure

/-- A date. -/
def date : Scan Unit := do
  let year ← TypedWire.Scan.number 4 4
  char '-'
  let month ← TypedWire.Scan.number 2 2
  char '-'
  let day ← TypedWire.Scan.number 2 2
  if !(Civil.isDay ⟨year, month, day⟩) then failure

/-- A time of day. -/
def time : Scan Unit := do
  field 0 23
  char ':'
  field 0 59
  char ':'
  field 0 60
  let _ ← maybe do
    char '.'
    takeWhile1 Char.isDigit

/-- A distance from universal time. -/
def offset : Scan Unit := do
  let c ← oneOf ['Z', 'z', '+', '-']
  if c = '+' ∨ c = '-' then
    field 0 23
    char ':'
    field 0 59

/-- A date, a time, or both with or without an offset, as their text. -/
def datetime : Scan Value := fun cs =>
  let whole : Scan Unit := (do
    date
    let _ ← maybe do
      let _ ← oneOf ['T', 't', ' ']
      time
      maybe offset) <|> time
  match whole cs with
  | some (_, rest) => some (.datetime (String.ofList (cs.take (cs.length - rest.length))), rest)
  | none => none

/-! ## Values -/

/-- A value without parts. -/
def scalar : Scan Value :=
  (do return .string (← string))
    <|> (do word ['t', 'r', 'u', 'e']; return .boolean true)
    <|> (do word ['f', 'a', 'l', 's', 'e']; return .boolean false)
    <|> datetime <|> decimalFloat <|> specialFloat <|> integer

/-- An array, by the scan of its items. -/
def array (item : Scan Value) : Scan Value := do
  char '['
  gap
  let items ← maybe (separated (do let v ← item; gap; return v) (do char ','; gap))
  if items.isSome then
    let _ ← maybe (char ',')
  gap
  char ']'
  return .array (items.getD [])

/-- A table in one line, by the scan of its values. -/
def inlineTable (item : Scan Value) : Scan Value := do
  char '\x7b'
  spaces
  let entries ← maybe (separated (do
    let (path, last) ← key
    char '='
    spaces
    let v ← item
    spaces
    return (path, last, v)) (char ','))
  spaces
  char '\x7d'
  let table ← ofOption ((entries.getD []).foldlM
    (fun table (path, last, v) => insert? path last v table) [])
  return .table (entriesToValue table)

/-- A value that nests no deeper than a given depth. -/
def value : Nat → Scan Value
  | 0 => scalar
  | depth + 1 => array (value depth) <|> inlineTable (value depth) <|> scalar

end TypedWire.Toml.Scan
