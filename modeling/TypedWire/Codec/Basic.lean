import TypedWire.Descriptor.Basic
import TypedWire.Value

/-!
# Codecs

A codec says how the values of one type lie on the wire and where the parts of a record are stored.

- `Target`: where a field of the wire goes.
- `BoundField`: a field of the wire with its target.
- `RecordLayout`: the three ways to lay out records.
- `Codec`: a codec; `Codec.id` is the identifier of its type.
-/

namespace TypedWire

/-- Where a field of the wire goes. -/
inductive Target (γ : Type) where
  /-- It is passed over. -/
  | skip
  /-- It goes to a slot. -/
  | slot (path : StoragePath) (codec : γ)

/-- A field of the wire with its target. -/
structure BoundField (γ : Type) where
  name : String
  required : Bool
  flags : FieldFlags
  target : Target γ

/-- How a record lies on the wire. -/
inductive RecordLayout where
  /-- A named tuple: every field, all of them present. -/
  | named
  /-- An object that is a result: every field, absent ones marked. -/
  | output
  /-- An object that is an argument: the present fields, each with its position. -/
  | input
  deriving DecidableEq

/-- How the values of a type lie on the wire. -/
inductive Codec where
  | scalar (id : Uuid) (type : ScalarType)
  | array (id : Uuid) (element : Codec)
  | set (id : Uuid) (element : Codec)
  | tuple (id : Uuid) (elements : List Codec)
  /-- A record; `template` is its fresh storage. -/
  | record (id : Uuid) (layout : RecordLayout) (fields : List (BoundField Codec))
      (template : Record)
  | range (id : Uuid) (element : Codec)
  | multirange (id : Uuid) (element : Codec)

namespace Codec

/-- The identifier of the type. -/
def id : Codec → Uuid
  | .scalar id _ | .array id _ | .set id _ | .tuple id _ | .record id .. | .range id _
  | .multirange id _ => id

/-- Whether the type is a scalar. -/
def isScalar : Codec → Bool
  | .scalar .. => true
  | _ => false

end Codec

end TypedWire
