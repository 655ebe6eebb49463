/-!
# TOML documents

- `Toml.Value`: a value; the entries of a table stand in the order in which they came.
- `Toml.Item`: what stands under a key while a document is read. A table remembers how it came to
  be, since that decides what may still be added to it.
- `Toml.insert?`: puts a value under a dotted key.
- `Toml.openTable?`, `Toml.openElement?`: what the headers `[key]` and `[[key]]` do.
-/

namespace TypedWire.Toml

/-- A value. Floats are the bits of a double, dates and times their text. -/
inductive Value where
  | string (s : String)
  | integer (n : Int)
  | float (bits : UInt64)
  | boolean (b : Bool)
  | datetime (text : String)
  | array (items : List Value)
  | table (entries : List (String × Value))

/-- How a table came to be. -/
inductive Origin where
  /-- By its own header, or as the element of an array of tables, or as the document itself. -/
  | header
  /-- By the header of a table inside it. -/
  | implicit
  /-- By a dotted key. -/
  | dotted
  deriving DecidableEq

/-- What stands under a key while a document is read. -/
inductive Item where
  /-- A value, to which nothing can be added. -/
  | value (v : Value)
  | table (origin : Origin) (entries : List (String × Item))
  /-- An array of tables, the last first. -/
  | tables (elements : List (List (String × Item)))

/-- The keys of a table in the order in which they came. -/
abbrev Entries := List (String × Item)

/-- Replaces what stands under a key, or adds the key at the end. -/
def alter? (key : String) (f : Option Item → Option Item) : Entries → Option Entries
  | [] => (f none).map fun item => [(key, item)]
  | (k, item) :: entries =>
    if k = key then (f (some item)).map fun item => (k, item) :: entries
    else (alter? key f entries).map ((k, item) :: ·)

/-- Changes the table at the end of a path. Tables that are missing on the way are made, with the
given origin; of an array of tables the last element is meant. A dotted key does not lead through a
table that has a header. -/
def atPath? (made : Origin) (f : Origin → Entries → Option Entries) :
    List String → Origin → Entries → Option Entries
  | [], origin, entries => f origin entries
  | key :: path, _, entries =>
    alter? key (fun
      | none => (atPath? made f path made []).map (.table made)
      | some (.value _) => none
      | some (.table origin inner) =>
        if made = .dotted ∧ origin = .header then none
        else (atPath? made f path origin inner).map (.table origin)
      | some (.tables []) => none
      | some (.tables (last :: before)) =>
        (atPath? made f path .header last).map fun last => .tables (last :: before)) entries

/-- Puts a value under a dotted key, whose last part must be new. The table that takes the value has
to be made by such keys only, or be the one that the key starts from. -/
def insert? (path : List String) (key : String) (v : Value) (entries : Entries) :
    Option Entries :=
  atPath? .dotted (fun origin inner =>
    if (origin = .dotted) = path.isEmpty then none
    else alter? key (fun
      | none => some (.value v)
      | some _ => none) inner) path .header entries

/-- Opens the table under a key: a new one, or one known only through the tables inside it. -/
def openTable? (path : List String) (key : String) (entries : Entries) : Option Entries :=
  atPath? .implicit (fun _ inner => alter? key (fun
    | none => some (.table .header [])
    | some (.table .implicit inner) => some (.table .header inner)
    | some _ => none) inner) path .header entries

/-- Opens a new element of the array of tables under a key. -/
def openElement? (path : List String) (key : String) (entries : Entries) : Option Entries :=
  atPath? .implicit (fun _ inner => alter? key (fun
    | none => some (.tables [[]])
    | some (.tables elements) => some (.tables ([] :: elements))
    | some _ => none) inner) path .header entries

/-- Puts a value under a dotted key of the table that the last header opened. -/
def insertAt? (table path : List String) (key : String) (v : Value) (entries : Entries) :
    Option Entries :=
  atPath? .implicit (fun _ inner => insert? path key v inner) table .header entries

mutual

/-- A finished item as a value. -/
def Item.toValue : Item → Value
  | .value v => v
  | .table _ entries => .table (entriesToValue entries)
  | .tables elements => .array (elementsToValue elements).reverse

/-- Finished entries as those of a value. -/
def entriesToValue : Entries → List (String × Value)
  | [] => []
  | (key, item) :: entries => (key, item.toValue) :: entriesToValue entries

/-- Finished elements as values. -/
def elementsToValue : List Entries → List Value
  | [] => []
  | entries :: elements => .table (entriesToValue entries) :: elementsToValue elements

end

end TypedWire.Toml
