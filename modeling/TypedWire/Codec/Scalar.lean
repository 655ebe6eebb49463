import TypedWire.Calendar.Wire
import TypedWire.Json.Parse
import TypedWire.Json.Print
import TypedWire.Scalar
import TypedWire.Wire.Reader

/-!
# Scalars on the wire

A payload holds one scalar and nothing else; its length is known from around it.

| type | payload |
|---|---|
| `uuid` | sixteen bytes |
| `str`, `bytes` | the text in UTF-8, the bytes |
| `int16`, `int32`, `int64` | two, four, eight bytes |
| `float32`, `float64` | the bits, four or eight bytes |
| `bool` | a byte, zero for false |
| `datetime`, `local_datetime` | microseconds from 2000-01-01, eight bytes |
| `local_date` | days from 2000-01-01, four bytes |
| `local_time` | microseconds from midnight, eight bytes |
| `duration` | microseconds, eight bytes; eight bytes that are zero when written |
| `json` | the byte 1 and the text in UTF-8 |

- `ScalarType.read`: reads a payload.
- `Scalar.payload`: the payload of a scalar.
-/

namespace TypedWire

/-- The only format of JSON payloads. -/
def jsonFormat : UInt8 := 1

namespace ScalarType

/-- A read that needs an exact count of unread bytes. -/
def sized {α : Type} (type : ScalarType) (length : Nat) (p : Read DecodeError α) :
    Read DecodeError α := do
  let found ← Read.remaining
  if found ≠ length then throw (.invalidLength type.shortName length found)
  p

/-- What is there, or else a failure. -/
def present {α : Type} (e : DecodeError) : Option α → Read DecodeError α
  | some a => pure a
  | none => throw e

/-- All unread bytes as a text. -/
def wholeText : Read DecodeError String := do
  let bytes ← Read.rest
  present .invalidUtf8 (Utf8.decode? bytes)

/-- Reads the payload of a scalar. -/
def read : ScalarType → Read DecodeError Scalar
  | .uuid => .uuid <$> sized .uuid 16 Read.uuid
  | .str => .str <$> wholeText
  | .bytes => .bytes <$> Read.rest
  | .int16 => .int16 <$> sized .int16 2 Read.int16
  | .int32 => .int32 <$> sized .int32 4 Read.int32
  | .int64 => .int64 <$> sized .int64 8 Read.int64
  | .float32 => .float32 <$> sized .float32 4 Read.uint32
  | .float64 => .float64 <$> sized .float64 8 Read.uint64
  | .bool => (fun b => .bool (b != 0)) <$> sized .bool 1 Read.uint8
  | .datetime => do
    let micros ← sized .datetime 8 Read.int64
    .datetime <$> present (.outOfRange "datetime") (Moment.ofMicros? micros)
  | .localDatetime => do
    let micros ← sized .localDatetime 8 Read.int64
    .localDatetime <$> present (.outOfRange "datetime") (Moment.ofMicros? micros)
  | .localDate => do
    let days ← sized .localDate 4 Read.int32
    .localDate <$> present (.outOfRange "local_date") (Date.ofWireDays? days)
  | .localTime => do
    let micros ← sized .localTime 8 Read.int64
    .localTime <$> present (.outOfRange "local_time") (TimeOfDay.ofMicros? micros)
  | .duration => do
    let micros ← sized .duration 16 do
      let micros ← Read.int64
      Read.skip 8
      return micros
    .duration <$> present (.outOfRange "duration") (Duration.ofWireMicros? micros)
  | .json => do
    let format ← Read.uint8
    if format ≠ jsonFormat then throw (.invalidJsonFormat format)
    let text ← wholeText
    .json <$> present .invalidJson (Json.parse? text)

end ScalarType

namespace Scalar

/-- The bytes of a signed word of 64 bits. -/
def word64 (n : Int64) : Bytes := BigEndian.encode 8 n.toUInt64.toNat

/-- The bytes of a signed word of 32 bits. -/
def word32 (n : Int32) : Bytes := BigEndian.encode 4 n.toUInt32.toNat

/-- The bytes of a count that the wire may not hold. -/
def counted {α : Type} (what : String) (spell : α → Bytes) : Option α → Except EncodeError Bytes
  | some n => .ok (spell n)
  | none => .error (.outOfRange what)

/-- The payload of a scalar. -/
def payload : Scalar → Except EncodeError Bytes
  | .uuid u => .ok u.toBytes
  | .str s => .ok (Utf8.encode s)
  | .bytes content => .ok content
  | .int16 n => .ok (BigEndian.encode 2 n.toUInt16.toNat)
  | .int32 n => .ok (word32 n)
  | .int64 n => .ok (word64 n)
  | .float32 bits => .ok (BigEndian.encode 4 bits.toNat)
  | .float64 bits => .ok (BigEndian.encode 8 bits.toNat)
  | .bool b => .ok [if b then 1 else 0]
  | .datetime m => counted "datetime" word64 m.toMicros?
  | .localDatetime m => counted "local_datetime" word64 m.toMicros?
  | .localDate d => counted "local_date" word32 d.toWireDays?
  | .localTime t => .ok (word64 t.toMicros)
  | .duration d => counted "duration" (word64 · ++ List.replicate 8 0) d.toMicros?
  | .json j => .ok (jsonFormat :: Utf8.encode j.compact)

end Scalar

end TypedWire
