/-!
# Failures of reading and writing values

- `DecodeError`: the bytes are not what the reader of a value expects. After one of these the
  position in the stream means nothing.
- `EncodeError`: a value cannot be written.
- `DecodeError.message`, `EncodeError.message`: their wording.
-/

namespace TypedWire

/-- Why bytes do not read as a value. -/
inductive DecodeError where
  /-- A read needs more bytes than remain. -/
  | overread (needed remaining : Nat)
  /-- A value or message ends before its bytes do. -/
  | trailingBytes (remaining : Nat)
  /-- A payload of fixed size has another size. -/
  | invalidLength (what : String) (expected found : Nat)
  /-- A container announces a count other than its type's. -/
  | elementCount (expected found : Nat)
  /-- An array has a dimension count other than 0 and 1. -/
  | invalidDimensions (count : UInt32)
  /-- Array bounds give a negative element count. -/
  | invalidBounds (upper lower : Int32)
  /-- A required element is marked absent. -/
  | missingRequired (what : String)
  /-- A sparse record names a field that its type does not have. -/
  | invalidIndex (index : UInt32)
  /-- A text is not UTF-8. -/
  | invalidUtf8
  /-- A JSON payload announces an unknown format. -/
  | invalidJsonFormat (format : UInt8)
  /-- A JSON payload is not JSON. -/
  | invalidJson
  /-- A date or time is outside the calendar. -/
  | outOfRange (what : String)
  /-- The storage to decode into does not fit the codec. -/
  | storageMismatch (expected : String)
  deriving DecidableEq

/-- The wording of a failed read. -/
def DecodeError.message : DecodeError → String
  | .overread needed remaining =>
    s!"buffer overread: needed {needed} bytes, {remaining} remaining"
  | .trailingBytes remaining => s!"{remaining} unread bytes at message boundary"
  | .invalidLength what expected found =>
    s!"invalid length for {what}: expected {expected}, found {found}"
  | .elementCount expected found =>
    s!"element count mismatch: expected {expected}, found {found}"
  | .invalidDimensions count => s!"unsupported array dimension count: {count}"
  | .invalidBounds upper lower => s!"invalid array bounds: upper {upper}, lower {lower}"
  | .missingRequired what => s!"required field `{what}` is missing"
  | .invalidIndex index => s!"input shape element index {index} out of range"
  | .invalidUtf8 => "invalid UTF-8 in string payload"
  | .invalidJsonFormat format => s!"unsupported JSON format: {format}"
  | .invalidJson => "invalid JSON payload"
  | .outOfRange what => s!"{what} out of range"
  | .storageMismatch expected => s!"target storage mismatch: expected {expected}"

/-- Why a value cannot be written. -/
inductive EncodeError where
  /-- The value is of another kind than the codec writes. -/
  | valueMismatch (expected found : String)
  /-- The value has another number of parts than the codec writes. -/
  | elementCount (expected found : Nat)
  /-- A required part is absent. -/
  | missingRequired (what : String)
  /-- A length does not fit in its prefix. -/
  | tooLong (length : Nat)
  /-- A region is closed that is not the innermost open one. -/
  | unbalancedRegion
  /-- A date or time is outside what the wire can say. -/
  | outOfRange (what : String)
  deriving DecidableEq

/-- The wording of a failed write. -/
def EncodeError.message : EncodeError → String
  | .valueMismatch expected found => s!"cannot encode {found} as {expected}"
  | .elementCount expected found =>
    s!"element count mismatch: expected {expected}, found {found}"
  | .missingRequired what => s!"required value `{what}` is missing"
  | .tooLong length => s!"region of {length} bytes exceeds the u32 length prefix"
  | .unbalancedRegion => "unbalanced length-prefixed region"
  | .outOfRange what => s!"{what} out of range"

end TypedWire
