import TypedWire.Binding.ScalarBase
import TypedWire.Descriptor.Dialect
import TypedWire.Shape

/-!
# The shape that a type suggests

- `Descriptor.infer`: the shape of a type's values; members of records are named like the fields of
  the wire, and the identifier of an object's type is no member.
- `Descriptor.shapeFor`: the same, optional if a value may be absent.
-/

namespace TypedWire.Descriptor

/-- The name of the record shape that a type suggests. -/
def recordName (d : Descriptor) : String :=
  d.name.getD (d.kind.name ++ " " ++ d.id.toText)

mutual

/-- The shape that a type suggests for its values. -/
def infer : Descriptor → Except BindError Shape
  | d@⟨kind, _, fields, name, _, _, _⟩ =>
    match kind with
    | .baseScalar | .scalar | .enum => .scalar <$> d.scalarBase
    | .array => .array <$> inferElement kind fields
    | .set => .set <$> inferElement kind fields
    | .range => .range <$> inferElement kind fields
    | .multirange => .multirange <$> inferElement kind fields
    | .tuple => .tuple <$> inferItems fields
    | .object =>
      if name.isSome then .error (.notBindable kind)
      else .record d.recordName <$> inferMembers fields
    | .namedTuple | .sqlRecord | .objectShape | .inputShape =>
      .record d.recordName <$> inferMembers fields
    | .compound => .error (.notBindable kind)

/-- The shape of the only part of a type. -/
def inferElement (kind : Kind) : List (Field Descriptor) → Except BindError Shape
  | [] => .error (.notBindable kind)
  | ⟨_, desc, _, _, _⟩ :: _ => infer desc

/-- The shapes of the items of a tuple. -/
def inferItems : List (Field Descriptor) → Except BindError (List Shape)
  | [] => .ok []
  | ⟨_, desc, _, _, _⟩ :: fields => do
    let shape ← infer desc
    let shapes ← inferItems fields
    return shape :: shapes

/-- The members for the fields of a record. -/
def inferMembers : List (Field Descriptor) → Except BindError (List (Member Shape))
  | [] => .ok []
  | ⟨name, desc, required, _, _⟩ :: fields =>
    if name.getD "" = typeIdField then inferMembers fields
    else do
      let shape ← infer desc
      let members ← inferMembers fields
      return ⟨name.getD "", none, if required then shape else .optional shape, false⟩ :: members

end

/-- The shape for values of a type of which there is always one, or at most one. -/
def shapeFor (d : Descriptor) (required : Bool) : Except BindError Shape := do
  let shape ← d.infer
  return if required then shape else .optional shape

end TypedWire.Descriptor
