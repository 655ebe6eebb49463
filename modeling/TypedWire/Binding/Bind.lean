import TypedWire.Binding.ScalarBase
import TypedWire.Codec.Basic
import TypedWire.Descriptor.Dialect
import TypedWire.Shape

/-!
# Binding a type to a shape

A type and a shape are walked together. Every mismatch is found here, before any value is decoded,
and every field of a record is resolved to the slot that takes it. The walk keeps the path from the
root, for its failures: a component is pushed before the walk goes down to a part and popped behind
it.

- `Binder α`: a step of the walk, which may look at the path and change it.
- `Binder.build`: the codec of a type for a shape.
- `Descriptor.bind`: the codec of a type of which there is always one value, or at most one.
-/

namespace TypedWire

namespace Descriptor

/-- The layout of the records of a kind. -/
def recordLayout : Kind → RecordLayout
  | .namedTuple | .sqlRecord => .named
  | .inputShape => .input
  | _ => .output

/-- The only part of a range type has to be a built-in scalar type, or a type on top of one, that
ranges are made of. -/
def checkRangeElement (element : Descriptor) : Except BindError Unit := do
  let type ← element.scalarBase
  if element.kind = .enum ∨ !type.isRangeElement then
    throw (.unsupportedRangeType ("range<" ++ type.name ++ ">"))

end Descriptor

/-- A step of the walk. The path stays what it has become, whether the step fails or not. -/
abbrev Binder := ExceptT BindError (StateM (List String))

namespace Binder

/-- The path from the root. -/
def path : Binder (List String) := get

def push (component : String) : Binder Unit :=
  modify fun path : List String => path ++ [component]

def pop : Binder Unit :=
  modify fun path : List String => path.dropLast

/-- A step that does not look at the path. -/
def lift {α : Type} (outcome : Except BindError α) : Binder α := MonadExcept.ofExcept outcome

/-- A shape of another kind than the type. -/
def mismatch {α : Type} (expected : String) (found : Shape) : Binder α := do
  throw (.shapeMismatch (← path) expected found.text)

mutual

/-- The codec of a type for a shape. -/
def build : Descriptor → Shape → Binder Codec
  | d@⟨kind, id, fields, name, _, _, _⟩, shape =>
    match kind with
    | .baseScalar | .scalar | .enum => do
      let type ← lift d.scalarBase
      match shape with
      | .scalar t => if t = type then return .scalar id type else mismatch type.name shape
      | _ => mismatch type.name shape
    | .array =>
      match shape with
      | .array inner => .array id <$> buildArray kind fields inner
      | _ => mismatch "array" shape
    | .set =>
      match shape with
      | .set inner => .set id <$> buildArray kind fields inner
      | .array inner => .array id <$> buildArray kind fields inner
      | _ => mismatch "set" shape
    | .tuple =>
      match shape with
      | .tuple items =>
        if items.length = fields.length then .tuple id <$> buildItems 0 fields items
        else mismatch s!"tuple of {fields.length}" shape
      | _ => mismatch s!"tuple of {fields.length}" shape
    | .object | .namedTuple | .sqlRecord | .objectShape | .inputShape =>
      if kind = .object ∧ name.isSome then throw (.notBindable kind)
      else
        match shape with
        | .record record members => do
          let layout := Descriptor.recordLayout kind
          let bound ← buildFields layout record members fields
          return .record id layout bound (Shape.defaultRecord members)
        | _ => mismatch kind.name shape
    | .range =>
      match shape with
      | .range inner => .range id <$> buildRange kind fields inner
      | _ => mismatch "range" shape
    | .multirange =>
      match shape with
      | .multirange inner => .multirange id <$> buildRange kind fields inner
      | _ => mismatch "multirange" shape
    | .compound => throw (.notBindable kind)

/-- The codec of the elements of an array or a set. -/
def buildArray (kind : Kind) : List (Field Descriptor) → Shape → Binder Codec
  | [], _ => throw (.notBindable kind)
  | ⟨_, element, _, _, _⟩ :: _, shape => do
    push "[]"
    let codec ← build element shape
    pop
    return codec

/-- The codec of the bounds of a range. -/
def buildRange (kind : Kind) : List (Field Descriptor) → Shape → Binder Codec
  | [], _ => throw (.notBindable kind)
  | ⟨_, element, _, _, _⟩ :: _, shape => do
    lift (Descriptor.checkRangeElement element)
    build element shape

/-- The codecs of the items of a tuple, the first of them at a position. -/
def buildItems (index : Nat) : List (Field Descriptor) → List Shape → Binder (List Codec)
  | ⟨_, item, _, _, _⟩ :: fields, shape :: shapes => do
    push (toString index)
    let codec ← build item shape.required
    pop
    if !codec.isScalar then throw (.nonScalarTupleElement (← path) index)
    let codecs ← buildItems (index + 1) fields shapes
    return codec :: codecs
  | _, _ => return []

/-- The targets of the fields of a record. The fields of a named tuple are always present. -/
def buildFields (layout : RecordLayout) (record : String) (members : List (Member Shape)) :
    List (Field Descriptor) → Binder (List (BoundField Codec))
  | [] => return []
  | ⟨name, desc, required, _, flags⟩ :: fields => do
    let name := name.getD ""
    let required := layout = .named || required
    let flags := if layout = .named then ⟨0⟩ else flags
    if name = typeIdField then
      let rest ← buildFields layout record members fields
      return ⟨name, required, flags, .skip⟩ :: rest
    else
      match Shape.resolve? members name with
      | none => throw (.missingMember name record)
      | some (slot, shape) =>
        push name
        if !required && !shape.isOptional then
          let failure := .cardinality (← path) shape.text
          pop
          throw failure
        let codec ← build desc shape.required
        pop
        let rest ← buildFields layout record members fields
        return ⟨name, required, flags, .slot slot codec⟩ :: rest

end

end Binder

/-- The codec of a type of which there is always one value, or at most one. -/
def Descriptor.bind (d : Descriptor) (required : Bool) (shape : Shape) : Except BindError Codec :=
  if !required && !shape.isOptional then .error (.cardinality [] shape.text)
  else ((Binder.build d shape.required).run []).1

end TypedWire
