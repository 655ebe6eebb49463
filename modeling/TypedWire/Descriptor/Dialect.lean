import TypedWire.Descriptor.Basic
import TypedWire.Text.Blank

/-!
# Dialects

Descriptors are sent in one of two dialects, which share most of their tags.

- `Dialect`: the two; `Dialect.parse` reads the name of one.
- `Tag`: what the first byte of a node says; `Tag.ofByte?` and `Tag.kind` depend on the dialect.
- `isAnnotationTag`: the tags of nodes that are no types.
- `Cardinality`: whether a field is always present.
-/

namespace TypedWire

/-- The ways to send descriptors. -/
inductive Dialect where
  /-- Bare nodes. -/
  | v1
  /-- Nodes with a length, names and ancestors, and some kinds more. -/
  | v2
  deriving DecidableEq

namespace Dialect

/-- The name of a dialect. -/
def name : Dialect → String
  | .v1 => "v1"
  | .v2 => "v2"

/-- An ASCII capital as a small letter; any other character as it is. -/
def lowerAscii (s : String) : String :=
  String.ofList (s.toList.map Char.toLower)

/-- Reads the name of a dialect, in any case and with blanks around it. -/
def parse (s : String) : Except String Dialect :=
  let word := lowerAscii (Text.trim s)
  if word = "1" ∨ word = "v1" then .ok .v1
  else if word = "2" ∨ word = "v2" then .ok .v2
  else .error ("unknown dialect `" ++ word ++ "` (expected v1 or v2)")

end Dialect

/-- What the first byte of a node says. -/
inductive Tag where
  | set
  | shape
  | baseScalar
  | scalar
  | tuple
  | namedTuple
  | array
  | enum
  | inputShape
  | range
  | objectType
  | compound
  | multirange
  | sqlRecord
  deriving DecidableEq

namespace Tag

/-- Every tag in the order of its byte, from zero. -/
def all : List Tag :=
  [.set, .shape, .baseScalar, .scalar, .tuple, .namedTuple, .array, .enum, .inputShape, .range,
    .objectType, .compound, .multirange, .sqlRecord]

/-- How many of the tags a dialect has. -/
def count : Dialect → Nat
  | .v1 => 10
  | .v2 => 14

/-- The tag that a byte is in a dialect. -/
def ofByte? (dialect : Dialect) (b : UInt8) : Option Tag :=
  (all.take (count dialect))[b.toNat]?

/-- The kind of the types that a tag introduces. -/
def kind (dialect : Dialect) : Tag → Kind
  | .set => .set
  | .shape =>
    match dialect with
    | .v1 => .object
    | .v2 => .objectShape
  | .baseScalar => .baseScalar
  | .scalar => .scalar
  | .tuple => .tuple
  | .namedTuple => .namedTuple
  | .array => .array
  | .enum => .enum
  | .inputShape => .inputShape
  | .range => .range
  | .objectType => .object
  | .compound => .compound
  | .multirange => .multirange
  | .sqlRecord => .sqlRecord

end Tag

/-- Whether a tag marks an annotation: a node that is passed over but can be counted. -/
def isAnnotationTag (tag : UInt8) : Bool := 0x80 ≤ tag

/-- Whether a field whose cardinality is the given byte is always present; nothing for a byte that
is no cardinality of a field. -/
def Cardinality.required? (card : UInt8) : Option Bool :=
  if card = 0x6f ∨ card = 0x6d then some false
  else if card = 0x41 ∨ card = 0x4d then some true
  else none

/-- The field with the identifier of an object's type, which no record takes. -/
def typeIdField : String := "__tid__"

end TypedWire
