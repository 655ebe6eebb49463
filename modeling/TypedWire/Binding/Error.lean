import TypedWire.Descriptor.Basic

/-!
# Failures of binding

- `BindError`: why a type does not fit a shape. A path names the fields, elements and tuple
  positions from the root to where they do not fit.
- `BindError.message`: the wording.
-/

namespace TypedWire

/-- Why a type does not fit a shape. -/
inductive BindError where
  /-- No built-in scalar type is behind a type. -/
  | unsupportedScalar (id : Uuid)
  /-- The shape is of another kind than the type. -/
  | shapeMismatch (path : List String) (expected found : String)
  /-- No member of a record takes a field. -/
  | missingMember (field record : String)
  /-- A field may be absent and the member that takes it may not. -/
  | cardinality (path : List String) (found : String)
  /-- An item of a tuple is no scalar. -/
  | nonScalarTupleElement (path : List String) (index : Nat)
  /-- There are no ranges over a type. -/
  | unsupportedRangeType (range : String)
  /-- A type has no values. -/
  | notBindable (kind : Kind)
  deriving DecidableEq

namespace BindError

/-- The text of a path. -/
def pathText (path : List String) : String :=
  if path.isEmpty then "<root>" else ".".intercalate path

/-- The wording of a failure. -/
def message : BindError → String
  | .unsupportedScalar id => "unsupported scalar type " ++ id.toText
  | .shapeMismatch path expected found =>
    "at `" ++ pathText path ++ "`: expected " ++ expected ++ ", target is " ++ found
  | .missingMember field record =>
    "record `" ++ record ++ "` has no member for field `" ++ field ++ "`"
  | .cardinality path found =>
    "at `" ++ pathText path ++ "`: field is optional but target " ++ found ++ " is not"
  | .nonScalarTupleElement path index =>
    "at `" ++ pathText path ++ "`: tuple element " ++ toString index ++ " is not a scalar"
  | .unsupportedRangeType range => "ranges over " ++ range ++ " are not supported"
  | .notBindable kind => kind.name ++ " descriptors cannot be bound to a value"

end BindError

end TypedWire
