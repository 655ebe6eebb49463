import TypedWire.Json.Number

/-!
# JSON tokens

A text is cut into tokens one character at a time, by a machine that remembers the token it is
inside of.

- `JsonToken`: brackets, separators and scalars.
- `JsonToken.Inside`: the token that the machine is inside of; `JsonToken.step` takes a character.
- `JsonToken.ofText?`: the tokens of a text.
-/

namespace TypedWire

/-! ## Tokens -/

/-- A token. -/
inductive JsonToken where
  | beginArray
  | endArray
  | beginObject
  | endObject
  | comma
  | colon
  | scalar (v : Json)

namespace JsonToken

/-- What the machine is inside of. Characters that were seen are kept in reverse. -/
inductive Inside where
  | nothing
  | word (seen : List Char)
  | number (seen : List Char)
  | string (seen : List Char)
  /-- After a backslash. -/
  | escape (seen : List Char)
  /-- Inside the four digits of a code unit, after the first half of a pair or not. -/
  | unit (seen : List Char) (half : Option Nat) (digits : List Char)
  /-- After the first half of a pair. -/
  | half (seen : List Char) (first : Nat)
  /-- After the first half of a pair and a backslash. -/
  | halfEscape (seen : List Char) (first : Nat)

/-- The token that a word is. -/
def word? : List Char → Option JsonToken
  | ['n', 'u', 'l', 'l'] => some (.scalar .null)
  | ['t', 'r', 'u', 'e'] => some (.scalar (.bool true))
  | ['f', 'a', 'l', 's', 'e'] => some (.scalar (.bool false))
  | _ => none

/-- The tokens that end with what the machine is inside of. -/
def close? : Inside → Option (List JsonToken)
  | .nothing => some []
  | .word seen => (word? seen.reverse).map ([·])
  | .number seen => (JsonNumber.parse? seen.reverse).map fun n => [.scalar (.number n)]
  | _ => none

/-- The character of a short escape. -/
def shortEscape? (c : Char) : Option Char :=
  if c = '"' ∨ c = '\\' ∨ c = '/' then some c
  else if c = 'b' then some '\x08'
  else if c = 'f' then some '\x0c'
  else if c = 'n' then some '\n'
  else if c = 'r' then some '\r'
  else if c = 't' then some '\t'
  else none

/-- The value of a hexadecimal digit. -/
def hexDigit? (c : Char) : Option Nat :=
  if c.isDigit then some (c.toNat - 48)
  else if 'a' ≤ c ∧ c ≤ 'f' then some (c.toNat - 87)
  else if 'A' ≤ c ∧ c ≤ 'F' then some (c.toNat - 55)
  else none

/-- The number that hexadecimal digits spell. -/
def hexValue? (digits : List Char) : Option Nat :=
  digits.foldlM (fun n c => (hexDigit? c).map (n * 16 + ·)) 0

/-- What a complete code unit leads to: a character, the first half of a pair, or a failure. -/
def codeUnit? (seen : List Char) (half : Option Nat) (u : Nat) : Option Inside :=
  match half with
  | some first =>
    if 0xdc00 ≤ u ∧ u < 0xe000 then
      some (.string (Char.ofNat (0x10000 + (first - 0xd800) * 0x400 + (u - 0xdc00)) :: seen))
    else none
  | none =>
    if 0xdc00 ≤ u ∧ u < 0xe000 then none
    else if 0xd800 ≤ u ∧ u < 0xdc00 then some (.half seen u)
    else some (.string (Char.ofNat u :: seen))

/-- A character between tokens. -/
def start? (c : Char) : Option (Inside × List JsonToken) :=
  if c = ' ' ∨ c = '\t' ∨ c = '\n' ∨ c = '\r' then some (.nothing, [])
  else if c = '[' then some (.nothing, [.beginArray])
  else if c = ']' then some (.nothing, [.endArray])
  else if c = '\x7b' then some (.nothing, [.beginObject])
  else if c = '\x7d' then some (.nothing, [.endObject])
  else if c = ',' then some (.nothing, [.comma])
  else if c = ':' then some (.nothing, [.colon])
  else if c = '"' then some (.string [], [])
  else if c = '-' ∨ c.isDigit then some (.number [c], [])
  else if c.isAlpha then some (.word [c], [])
  else none

/-- A character after a word or a number that it is no part of. -/
def restart? (inside : Inside) (c : Char) : Option (Inside × List JsonToken) := do
  let ended ← close? inside
  let (inside, begun) ← start? c
  return (inside, ended ++ begun)

/-- Takes a character; gives the tokens that it completes. -/
def step (c : Char) : Inside → Option (Inside × List JsonToken)
  | .nothing => start? c
  | .word seen => if c.isAlpha then some (.word (c :: seen), []) else restart? (.word seen) c
  | .number seen =>
    if c.isDigit ∨ c = '.' ∨ c = 'e' ∨ c = 'E' ∨ c = '+' ∨ c = '-' then
      some (.number (c :: seen), [])
    else restart? (.number seen) c
  | .string seen =>
    if c = '"' then some (.nothing, [.scalar (.string (String.ofList seen.reverse))])
    else if c = '\\' then some (.escape seen, [])
    else if c.toNat < 0x20 then none
    else some (.string (c :: seen), [])
  | .escape seen =>
    if c = 'u' then some (.unit seen none [], [])
    else (shortEscape? c).map fun d => (.string (d :: seen), [])
  | .unit seen half digits =>
    if digits.length < 3 then some (.unit seen half (digits ++ [c]), [])
    else do
      let u ← hexValue? (digits ++ [c])
      let inside ← codeUnit? seen half u
      return (inside, [])
  | .half seen first => if c = '\\' then some (.halfEscape seen first, []) else none
  | .halfEscape seen first => if c = 'u' then some (.unit seen (some first) [], []) else none

/-- The tokens of a text that starts inside of something. -/
def scan? (inside : Inside) : List Char → Option (List JsonToken)
  | [] => close? inside
  | c :: cs => do
    let (inside, ended) ← step c inside
    let tokens ← scan? inside cs
    return ended ++ tokens

/-- The tokens of a text. -/
def ofText? (s : String) : Option (List JsonToken) :=
  scan? .nothing s.toList

end JsonToken

end TypedWire
