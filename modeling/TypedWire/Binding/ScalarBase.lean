import TypedWire.Binding.Error
import TypedWire.Scalar

/-!
# The scalar type behind a type

A scalar type of a schema stands on a built-in one: its only part in the first dialect, the last of
its ancestors in the second. Values of enumerations are texts.

- `Descriptor.scalarBase`: the built-in scalar type behind a type.
-/

namespace TypedWire.Descriptor

mutual

/-- The built-in scalar type behind a type. -/
def scalarBase : Descriptor → Except BindError ScalarType
  | ⟨kind, id, fields, _, _, ancestors, _⟩ =>
    match ScalarType.ofId? id with
    | some type => .ok type
    | none =>
      match kind with
      | .scalar =>
        match fields with
        | ⟨_, base, _, _, _⟩ :: _ => scalarBase base
        | [] => lastBase id ancestors
      | .enum => .ok .str
      | _ => .error (.unsupportedScalar id)

/-- The built-in scalar type behind the last of the ancestors of the type `id`. -/
def lastBase (id : Uuid) : List Descriptor → Except BindError ScalarType
  | [] => .error (.unsupportedScalar id)
  | [base] => scalarBase base
  | _ :: ancestors => lastBase id ancestors

end

end TypedWire.Descriptor
