import TypedWire.Binding.Infer
import TypedWire.Cache
import TypedWire.Codec.Decode
import TypedWire.Codec.Encode
import TypedWire.Inspect.Failure
import TypedWire.Json.Parse
import TypedWire.Json.Print
import TypedWire.Render.ToJson

/-!
# The inspection commands

Descriptors and payloads come as hexadecimal text, as copied from a trace.

- `bytesOfTrace`: the bytes that such a text spells.
- `describe`: the outline of a descriptor.
- `decode`: a payload as JSON; `encode`: JSON as a payload.

The shape of a value is the one that its descriptor suggests. `decode` and `encode` work in a
`Session`, whose cache they keep also when they fail.
-/

namespace TypedWire.Inspect

/-- The bytes that hexadecimal text spells, with blanks anywhere and a mark `0x` before it. -/
def bytesOfTrace (text : String) : Except Failure Bytes :=
  let digits := match (Text.withoutBlanks text).toList with
    | '0' :: 'x' :: rest => rest
    | all => all
  during "invalid hex input" .hex (Hex.decode (String.ofList digits))

/-- The descriptor that a text spells. -/
def descriptorOfTrace (dialect : Dialect) (text : String) : Except Failure Descriptor := do
  let bytes ← bytesOfTrace text
  during "parsing descriptor" .descriptor (Descriptor.parse dialect bytes)

/-- The outline of the descriptor that a text spells. -/
def describe (dialect : Dialect) (descriptor : String) : Except Failure String :=
  Descriptor.outline <$> descriptorOfTrace dialect descriptor

/-- A command that may fail and uses a cache, which outlives a failure. -/
abbrev Session := ExceptT Failure (StateM Cache)

/-- What a text spells as a codec, with the shape of its values. -/
def codecOfTrace (dialect : Dialect) (descriptor : String) : Session (Codec × Shape) := do
  let d ← descriptorOfTrace dialect descriptor
  let shape ← during "inferring shape" .binding (d.shapeFor true)
  let made ← modifyGet fun cache => cache.bind d true shape
  let codec ← during "binding codec" .binding made
  return (codec, shape)

/-- The value that a payload holds, and no more. -/
def payloadValue (codec : Codec) (bytes : Bytes) : Except Failure Value :=
  during "decoding value" .decoding (Prod.fst <$> codec.decode.toEnd bytes)

/-- The payload that holds a value. -/
def valuePayload (codec : Codec) (v : Value) : Except Failure Bytes := do
  let w ← during "encoding value" .encoding (codec.encode v Writer.empty)
  w.intoBytes.mapError fun e => .ofCause (.encoding e)

/-- The JSON that a text holds. -/
def jsonOfText (text : String) : Except Failure Json :=
  match Json.parse? text with
  | some j => .ok j
  | none => .error ⟨["invalid JSON input"], .notJson⟩

/-- The payload that a text spells, as JSON in one line or in several. -/
def decode (dialect : Dialect) (pretty : Bool) (descriptor payload : String) : Session String := do
  let (codec, shape) ← codecOfTrace dialect descriptor
  let bytes ← bytesOfTrace payload
  let v ← payloadValue codec bytes
  let j := shape.render v
  return if pretty then j.pretty else j.compact

/-- The payload for a JSON text, as hexadecimal text. -/
def encode (dialect : Dialect) (descriptor json : String) : Session String := do
  let (codec, shape) ← codecOfTrace dialect descriptor
  let j ← jsonOfText json
  let v ← (shape.fromJson j).mapError Failure.ofFromJson
  Hex.encode <$> valuePayload codec v

end TypedWire.Inspect
