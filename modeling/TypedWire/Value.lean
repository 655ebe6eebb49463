import TypedWire.Scalar

/-!
# Values

- `Range`: a range over an ordered type; a missing bound is infinite.
- `Value`: a decoded value, or one to encode.
- `Record`: the slots of a record by position; `Record.slot?` and `Record.setSlot?` reach a slot
  through nested records along a `StoragePath`.
-/

namespace TypedWire

/-- A range over an ordered type. A missing bound is infinite. -/
structure Range (α : Type) where
  lower : Option α
  upper : Option α
  incLower : Bool
  incUpper : Bool
  empty : Bool

namespace Range

/-- The range from `lower`, which belongs to it, up to `upper`, which does not. -/
def halfOpen {α : Type} (lower upper : Option α) : Range α :=
  ⟨lower, upper, lower.isSome, false, false⟩

/-- The range that holds nothing. -/
def nothing {α : Type} : Range α := ⟨none, none, false, false, true⟩

end Range

/-- A decoded value, or one to encode. -/
inductive Value where
  /-- No value is present. -/
  | null
  | scalar (s : Scalar)
  | array (items : List Value)
  | set (items : List Value)
  | tuple (items : List Value)
  /-- A record, by the values of its slots in the order of its members. -/
  | record (slots : List Value)
  | range (r : Range Value)
  | multirange (ranges : List (Range Value))

namespace Value

/-- The name of a value's kind, for messages. -/
def kindName : Value → String
  | .null => "null"
  | .scalar s => s.type.shortName
  | .array _ => "array"
  | .set _ => "set"
  | .tuple _ => "tuple"
  | .record _ => "record"
  | .range _ => "range"
  | .multirange _ => "multirange"

/-- Whether no value is present. -/
def isNull : Value → Bool
  | .null => true
  | _ => false

end Value

/-- The positions that lead from a record, through records in its slots, to a slot. -/
abbrev StoragePath := List Nat

/-- The text of a path: its positions, with points between them. -/
def StoragePath.text (path : StoragePath) : String :=
  "[" ++ ".".intercalate (path.map toString) ++ "]"

/-- The slots of a record. -/
abbrev Record := List Value

namespace Record

/-- The value in the slot that a path leads to. -/
def slot? (rec : Record) : StoragePath → Option Value
  | [] => none
  | [i] => rec[i]?
  | i :: path =>
    match rec[i]? with
    | some (.record inner) => slot? inner path
    | _ => none

/-- The record with another value in the slot that a path leads to, if it leads to one. -/
def setSlot? (rec : Record) (value : Value) : StoragePath → Option Record
  | [] => none
  | [i] => if i < rec.length then some (rec.set i value) else none
  | i :: path =>
    match rec[i]? with
    | some (.record inner) => (setSlot? inner value path).map fun inner => rec.set i (.record inner)
    | _ => none

end Record

end TypedWire
