import TypedWire.Toml.Scan

/-!
# Reading TOML

A document is a list of lines, some of which put a value under a key and some of which open a table.

- `Toml.Line`: what a line does; `Toml.Line.scan` reads one.
- `Toml.Reading`: the entries so far and the table that is open.
- `Toml.parse?`: the entries of a document.
-/

namespace TypedWire.Toml

open TypedWire.Scan

/-- What a line does. -/
inductive Line where
  | blank
  | entry (path : List String) (key : String) (v : Value)
  | table (path : List String) (key : String)
  | element (path : List String) (key : String)

/-- The entries so far and the path of the table that is open. -/
structure Reading where
  entries : Entries
  table : List String

namespace Line

/-- A header. -/
def header : Scan Line :=
  (do
    word ['[', '[']
    let (path, key) ← Scan.key
    word [']', ']']
    return .element path key)
  <|> (do
    char '['
    let (path, key) ← Scan.key
    char ']'
    return .table path key)

/-- A key and its value. -/
def entryLine : Scan Line := do
  let (path, key) ← Scan.key
  char '='
  Scan.spaces
  let v ← Scan.value Scan.maxDepth
  return .entry path key v

/-- A line with its end. At the end of the document there is none. -/
def scan : Scan Line := do
  Scan.spaces
  let line ← header <|> entryLine <|> pure .blank
  Scan.lineEnd
  return line

/-- Carries out a line. -/
def run? (r : Reading) : Line → Option Reading
  | .blank => some r
  | .entry path key v =>
    (insertAt? r.table path key v r.entries).map fun entries => { r with entries }
  | .table path key =>
    (openTable? path key r.entries).map fun entries => ⟨entries, path ++ [key]⟩
  | .element path key =>
    (openElement? path key r.entries).map fun entries => ⟨entries, path ++ [key]⟩

end Line

/-- The text without the mark that may stand at its start. -/
def withoutMark (s : String) : String :=
  match s.toList with
  | '\ufeff' :: cs => String.ofList cs
  | _ => s

/-- The entries of a document, as values under their keys. -/
def parse? (s : String) : Option (List (String × Value)) := do
  let lines ← (many Line.scan).all (withoutMark s)
  let reading ← lines.foldlM Line.run? ⟨[], []⟩
  return entriesToValue reading.entries

end TypedWire.Toml
