import TypedWire.Binary.Format
import TypedWire.Integer

/-!
# JSON values

- `JsonNumber`: an integer, or a finite float as the bits of a double.
- `Json`: a JSON value; the entries of an object are kept in the order of their keys, one per key.
- `Json.insert`, `Json.lookup?`: entries by key.
- `Json.asInt?` and its like: a value seen as one of a kind.
-/

namespace TypedWire

/-- A JSON number. -/
inductive JsonNumber where
  | int (n : Int)
  | float (bits : UInt64)
  deriving DecidableEq

/-- A JSON value. -/
inductive Json where
  | null
  | bool (b : Bool)
  | number (n : JsonNumber)
  | string (s : String)
  | array (items : List Json)
  | object (entries : List (String × Json))

namespace Json

/-- The integer `n`. -/
def int (n : Int) : Json := .number (.int n)

/-- Puts a value under a key, in the place that the order of keys gives it. -/
def insert (key : String) (value : Json) : List (String × Json) → List (String × Json)
  | [] => [(key, value)]
  | (k, v) :: entries =>
    if key < k then (key, value) :: (k, v) :: entries
    else if key = k then (key, value) :: entries
    else (k, v) :: insert key value entries

/-- The value under a key. -/
def lookup? (key : String) : List (String × Json) → Option Json
  | [] => none
  | (k, v) :: entries => if k = key then some v else lookup? key entries

/-- The object with the given entries; of two with one key the later counts. -/
def ofEntries (entries : List (String × Json)) : Json :=
  .object (entries.foldl (fun done (k, v) => insert k v done) [])

/-- The value as an integer of 64 bits. -/
def asInt? : Json → Option Int64
  | .number (.int n) => int64? n
  | _ => none

/-- The value as a double; an integer becomes the nearest one. -/
def asFloat? : Json → Option UInt64
  | .number (.int n) => some (Binary.ofInt n)
  | .number (.float bits) => some bits
  | _ => none

/-- The value as a truth value. -/
def asBool? : Json → Option Bool
  | .bool b => some b
  | _ => none

/-- The value as a text. -/
def asString? : Json → Option String
  | .string s => some s
  | _ => none

/-- The items of an array. -/
def asArray? : Json → Option (List Json)
  | .array items => some items
  | _ => none

/-- The entries of an object. -/
def asObject? : Json → Option (List (String × Json))
  | .object entries => some entries
  | _ => none

/-- Whether the value is null. -/
def isNull : Json → Bool
  | .null => true
  | _ => false

/-- What is put under a key is found there. -/
theorem lookup?_insert_self (key : String) (value : Json) (entries : List (String × Json)) :
    lookup? key (insert key value entries) = some value := by
  induction entries with
  | nil => simp [insert, lookup?]
  | cons entry entries ih =>
    obtain ⟨k, v⟩ := entry
    simp only [insert]
    split
    · simp [lookup?]
    · split
      · simp [lookup?]
      · rename_i hne
        simp [lookup?, Ne.symm hne, ih]

/-- Putting a value under a key leaves the other keys alone. -/
theorem lookup?_insert_of_ne {key other : String} (h : key ≠ other) (value : Json)
    (entries : List (String × Json)) :
    lookup? other (insert key value entries) = lookup? other entries := by
  induction entries with
  | nil => simp [insert, lookup?, h]
  | cons entry entries ih =>
    obtain ⟨k, v⟩ := entry
    simp only [insert]
    split
    · simp [lookup?, h]
    · split
      · rename_i heq
        subst heq
        simp [lookup?, h]
      · simp [lookup?, ih]

end Json

end TypedWire
