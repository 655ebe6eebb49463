import TypedWire.Calendar.Print
import TypedWire.Shape

/-!
# Values as JSON

| value | JSON |
|---|---|
| uuid | its hyphenated form |
| bytes | lower-case hexadecimal |
| dates and times | their text |
| duration | whole microseconds, null if 64 bits do not hold them |
| record | an object by member names, those of embedded records among them |
| array, set, tuple | an array |
| range | an object of its bounds and its flags |

- `Scalar.toJson`: a scalar.
- `Value.plain`: a value without a shape; records are arrays and ranges are null.
- `Shape.render`: a value of a shape; where the value does not fit, as without a shape.
-/

namespace TypedWire

/-- A finite double as a number, any other as null. -/
def Json.ofDouble (bits : UInt64) : Json :=
  match Binary.double.unpack bits.toNat with
  | .finite .. => .number (.float bits)
  | _ => .null

/-- A scalar as JSON. -/
def Scalar.toJson : Scalar → Json
  | .uuid u => .string u.toText
  | .str s => .string s
  | .bytes bs => .string (Hex.encode bs)
  | .int16 n => .int n.toInt
  | .int32 n => .int n.toInt
  | .int64 n => .int n.toInt
  | .float32 bits => .ofDouble (Binary.ofSingle bits)
  | .float64 bits => .ofDouble bits
  | .bool b => .bool b
  | .datetime m => .string m.toUtcText
  | .localDatetime m => .string m.toLocalText
  | .localDate d => .string d.toText
  | .localTime t => .string t.toText
  | .duration d =>
    match d.toMicros? with
    | some micros => .int micros.toInt
    | none => .null
  | .json j => j

namespace Value

mutual

/-- A value as JSON, by position only. -/
def plain : Value → Json
  | .null => .null
  | .scalar s => s.toJson
  | .array items => .array (plainItems items)
  | .set items => .array (plainItems items)
  | .tuple items => .array (plainItems items)
  | .record slots => .array (plainItems slots)
  | .range _ => .null
  | .multirange _ => .null

/-- Some values as JSON. -/
def plainItems : List Value → List Json
  | [] => []
  | v :: vs => v.plain :: plainItems vs

end

end Value

/-- A range as JSON, by a rendering of its bounds. -/
def Range.toJson {α : Type} (bound : α → Json) (r : Range α) : Json :=
  let boundOrNull : Option α → Json := fun b => (b.map bound).getD .null
  .ofEntries [
    ("lower", boundOrNull r.lower),
    ("upper", boundOrNull r.upper),
    ("inc_lower", .bool r.incLower),
    ("inc_upper", .bool r.incUpper),
    ("empty", .bool r.empty)]

namespace Shape

mutual

/-- A value of a shape as JSON. -/
def render : Shape → Value → Json
  | .optional inner, v => inner.render v
  | .record _ members, .record slots => .object (renderMembers members slots [])
  | .array element, .array items => .array (items.map element.render)
  | .array element, .set items => .array (items.map element.render)
  | .set element, .array items => .array (items.map element.render)
  | .set element, .set items => .array (items.map element.render)
  | .tuple shapes, .tuple items => .array (renderItems shapes items)
  | .range element, .range r => r.toJson element.render
  | .multirange element, .multirange ranges =>
    .array (ranges.map (Range.toJson element.render))
  | _, v => v.plain

/-- The items of a tuple as JSON, as many as there are shapes. -/
def renderItems : List Shape → List Value → List Json
  | shape :: shapes, item :: items => shape.render item :: renderItems shapes items
  | _, _ => []

/-- The entries for the slots of a record, put among the given ones. -/
def renderMembers :
    List (Member Shape) → List Value → List (String × Json) → List (String × Json)
  | ⟨_, _, .record _ inner, true⟩ :: members, .record innerSlots :: slots, done =>
    renderMembers members slots (renderMembers inner innerSlots done)
  | ⟨name, _, shape, _⟩ :: members, slot :: slots, done =>
    renderMembers members slots (Json.insert name (shape.render slot) done)
  | _, _, done => done

end

end Shape

end TypedWire
