import TypedWire.Uuid

/-!
# Type descriptors

A descriptor is a tree that says how the values of a type are laid out on the wire.

- `Kind`: the kinds of types; `Kind.name` names them.
- `FieldFlags`, `Field`: an edge to the type of a part.
- `Descriptor`: a node; `Descriptor.outline` prints the tree, a node a line.
-/

namespace TypedWire

/-- The kinds of types. -/
inductive Kind where
  | set
  /-- An object shape in the first dialect, an object type without values in the second. -/
  | object
  | baseScalar
  | scalar
  | tuple
  | namedTuple
  | array
  | enum
  | inputShape
  | range
  | objectShape
  | compound
  | multirange
  | sqlRecord
  deriving DecidableEq

/-- The name of a kind. -/
def Kind.name : Kind → String
  | .set => "set"
  | .object => "object"
  | .baseScalar => "base scalar"
  | .scalar => "scalar"
  | .tuple => "tuple"
  | .namedTuple => "named tuple"
  | .array => "array"
  | .enum => "enum"
  | .inputShape => "input shape"
  | .range => "range"
  | .objectShape => "object shape"
  | .compound => "compound"
  | .multirange => "multirange"
  | .sqlRecord => "sql record"

/-- What a peer says about a field of an object. -/
structure FieldFlags where
  bits : UInt32
  deriving DecidableEq

namespace FieldFlags

def isImplicit (f : FieldFlags) : Bool := f.bits &&& 1 != 0

def isLinkProperty (f : FieldFlags) : Bool := f.bits &&& 2 != 0

def isLink (f : FieldFlags) : Bool := f.bits &&& 4 != 0

end FieldFlags

/-- How a compound type joins its components. -/
inductive CompoundOp where
  | union
  | intersection
  deriving DecidableEq

/-- An edge to the type of a part. -/
structure Field (δ : Type) where
  /-- The name of a field, the position in a tuple, nothing for the only part of a type. -/
  name : Option String
  desc : δ
  /-- Whether the part is always present. -/
  required : Bool
  /-- Whether the part is a component of a union. -/
  union : Bool
  flags : FieldFlags

namespace Field

variable {δ : Type}

/-- The edge to the only part of a type. -/
def element (desc : δ) : Field δ := ⟨none, desc, true, false, ⟨0⟩⟩

/-- The edge to a part with a name. -/
def named (name : String) (desc : δ) (required : Bool) : Field δ :=
  ⟨some name, desc, required, false, ⟨0⟩⟩

end Field

/-- A type. -/
structure Descriptor where
  kind : Kind
  /-- The same for equal types. -/
  id : Uuid
  /-- The parts, in the order of the wire. -/
  fields : List (Field Descriptor)
  /-- The name in the schema, in the second dialect. -/
  name : Option String
  /-- Whether the schema defines the type, in the second dialect. -/
  schemaDefined : Bool
  /-- The types that this one derives from, nearest first, in the second dialect. -/
  ancestors : List Descriptor
  op : Option CompoundOp

namespace Descriptor

/-- A type with parts and nothing else. -/
def ofFields (kind : Kind) (id : Uuid) (fields : List (Field Descriptor)) : Descriptor :=
  ⟨kind, id, fields, none, false, [], none⟩

/-- The identifier of the empty tuple. -/
def emptyTupleId : Uuid := .nil

/-- The type of no arguments and of no result. -/
def emptyTuple : Descriptor := ofFields .tuple emptyTupleId []

/-- Whether a type is the empty tuple. -/
def isEmptyTuple (d : Descriptor) : Bool :=
  d.kind = .tuple && d.id = emptyTupleId && d.fields.isEmpty

/-- The type of the part at a position. -/
def child? (d : Descriptor) (i : Nat) : Option Descriptor :=
  d.fields[i]?.map Field.desc

/-! ## The outline -/

/-- What stands before a node for the edge to it: its name, with a mark if it may be absent. -/
def edgeText (name : Option String) (required : Bool) : String :=
  match name with
  | some name => name ++ (if required then "" else "?") ++ ": "
  | none => ""

/-- What a node's own line says. -/
def headText (kind : Kind) (id : Uuid) (name : Option String) : String :=
  kind.name ++ " " ++ id.toText ++
    match name with
    | some name => " (" ++ name ++ ")"
    | none => ""

mutual

/-- The lines of a tree at a depth, the first of them after an edge. -/
def outlineAt (depth : Nat) (edge : String) : Descriptor → String
  | ⟨kind, id, fields, name, _, _, _⟩ =>
    String.ofList (List.replicate (2 * depth) ' ') ++ edge ++ headText kind id name ++ "\n" ++
      outlineFields (depth + 1) fields

/-- The lines of some parts at a depth. -/
def outlineFields (depth : Nat) : List (Field Descriptor) → String
  | [] => ""
  | ⟨name, desc, required, _, _⟩ :: fields =>
    outlineAt depth (edgeText name required) desc ++ outlineFields depth fields

end

/-- The tree, a node a line, two spaces a level. -/
def outline (d : Descriptor) : String := outlineAt 0 "" d

end Descriptor

end TypedWire
