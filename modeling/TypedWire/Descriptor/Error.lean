import TypedWire.Uuid
import TypedWire.Wire.Error

/-!
# Failures of reading descriptors

- `ParseError`: why bytes are no descriptor stream, or not the announced one.
- `ParseError.message`: the wording.
-/

namespace TypedWire

/-- Why bytes are no descriptor stream. -/
inductive ParseError where
  /-- The stream ends early, or a node has bytes left. -/
  | malformed (cause : DecodeError)
  /-- The dialect has no such tag. -/
  | unknownTag (tag : UInt8)
  /-- A byte is no cardinality of a field. -/
  | invalidCardinality (card : UInt8)
  /-- A reference is not to an earlier type. -/
  | invalidReference (index : UInt16) (available : Nat)
  /-- An array has no dimension. -/
  | invalidDimensions (count : UInt16)
  /-- A byte is no operator of compound types. -/
  | invalidCompoundOp (op : UInt8)
  /-- The stream holds annotations only. -/
  | missingRoot
  /-- The root has another identifier than the one that was announced. -/
  | idMismatch (expected found : Uuid)
  deriving DecidableEq

/-- A byte as two hexadecimal digits. -/
def hexByte (b : UInt8) : String :=
  "0x" ++ Hex.encode [b]

/-- The wording of a failure. -/
def ParseError.message : ParseError → String
  | .malformed cause => "malformed descriptor: " ++ cause.message
  | .unknownTag tag => "unknown descriptor tag " ++ hexByte tag
  | .invalidCardinality card => "invalid cardinality byte " ++ hexByte card
  | .invalidReference index available =>
    s!"descriptor reference {index} out of range ({available} parsed)"
  | .invalidDimensions count => s!"array descriptor with {count} dimensions"
  | .invalidCompoundOp op => s!"invalid compound operator {op}"
  | .missingRoot => "descriptor stream has no type node"
  | .idMismatch expected found =>
    "descriptor announced as " ++ expected.toText ++ " but its root is " ++ found.toText

end TypedWire
