import TypedWire.Text.Visible

/-!
# Quoted texts

How a message shows a text or a character that came from outside: between quotes, with a backslash
before the quote and the backslash, short escapes for NUL, tab, line feed and carriage return, and
the code point of every other character that does not show on its own.

- `Quoted.text`: a text between double quotes.
- `Quoted.char`: a character between single quotes.
-/

namespace TypedWire.Quoted

/-- One character inside a quoted form whose quote is `quote`. -/
def escape (quote c : Char) : String :=
  if c = '\x00' then "\\0"
  else if c = '\t' then "\\t"
  else if c = '\r' then "\\r"
  else if c = '\n' then "\\n"
  else if c = '\\' || c = quote then "\\" ++ String.singleton c
  else if isVisible c then String.singleton c
  else "\\u\x7b" ++ String.ofList (Nat.toDigits 16 c.toNat) ++ "\x7d"

/-- A text between double quotes. -/
def text (s : String) : String :=
  "\"" ++ String.join (s.toList.map (escape '"')) ++ "\""

/-- A character between single quotes. -/
def char (c : Char) : String :=
  "'" ++ escape '\'' c ++ "'"

end TypedWire.Quoted
