import TypedWire.Calendar.Scan
import TypedWire.Shape

/-!
# Values from JSON

- `FromJsonCause`, `FromJsonError`: why JSON is no value of a shape, and inside which members.
- `ScalarType.fromJson`: a scalar of a type.
- `Shape.fromJson`: a value of a shape.
-/

namespace TypedWire

/-- Why JSON is no value of a shape. -/
inductive FromJsonCause where
  /-- JSON of another kind stands where a scalar is expected. -/
  | expectedScalar (wanted : String) (type : ScalarType)
  | expectedArray
  | expectedTuple
  | expectedMultirange
  | expectedRange
  | expectedObject (record : String)
  /-- A tuple has another count of items. -/
  | tupleLength (expected found : Nat)
  | missingMember (name record : String)
  /-- A text is no identifier. -/
  | invalidUuid
  /-- A text is no date or time. -/
  | invalidTime
  /-- A text is not hexadecimal. -/
  | invalidHex (cause : Hex.Error)
  /-- An integer does not fit in its type. -/
  | integerOutOfRange
  deriving DecidableEq

/-- A failure, with the members from the outermost in that lead to it. -/
structure FromJsonError where
  members : List String
  cause : FromJsonCause
  deriving DecidableEq

/-- The wording of a cause. -/
def FromJsonCause.message : FromJsonCause → String
  | .expectedScalar wanted type => "expected " ++ wanted ++ " for " ++ type.name
  | .expectedArray => "expected array"
  | .expectedTuple => "expected array for tuple"
  | .expectedMultirange => "expected array for multirange"
  | .expectedRange => "expected object for range"
  | .expectedObject record => "expected object for " ++ record
  | .tupleLength expected found => s!"expected {expected} tuple elements, got {found}"
  | .missingMember name record => "missing member `" ++ name ++ "` of " ++ record
  | .invalidUuid => "invalid uuid"
  | .invalidTime => "invalid date or time"
  | .invalidHex cause => cause.message
  | .integerOutOfRange => "integer out of range"

namespace FromJson

/-- A failure outside of any member. -/
def fail {α : Type} (cause : FromJsonCause) : Except FromJsonError α :=
  .error ⟨[], cause⟩

/-- What is there, or else a failure. -/
def present {α : Type} (cause : FromJsonCause) : Option α → Except FromJsonError α
  | some a => .ok a
  | none => fail cause

/-- A result from inside a member. -/
def inMember {α : Type} (name : String) : Except FromJsonError α → Except FromJsonError α
  | .ok a => .ok a
  | .error e => .error { e with members := name :: e.members }

/-- A text for a scalar. -/
def text (type : ScalarType) (j : Json) : Except FromJsonError String :=
  present (.expectedScalar "string" type) j.asString?

/-- An integer for a scalar. -/
def integer (type : ScalarType) (j : Json) : Except FromJsonError Int64 :=
  present (.expectedScalar "integer" type) j.asInt?

/-- A number for a scalar, as a double. -/
def double (type : ScalarType) (j : Json) : Except FromJsonError UInt64 :=
  present (.expectedScalar "number" type) j.asFloat?

/-- Whether an entry of an object is true. -/
def flag (key : String) (entries : List (String × Json)) : Bool :=
  ((Json.lookup? key entries).bind Json.asBool?).getD false

/-- A bound under a key of an object; one that is null is missing. -/
def bound {α : Type} (value : Json → Except FromJsonError α) (key : String)
    (entries : List (String × Json)) : Except FromJsonError (Option α) :=
  match Json.lookup? key entries with
  | none | some .null => .ok none
  | some j => some <$> value j

/-- A range, by a reading of its bounds. -/
def range {α : Type} (value : Json → Except FromJsonError α) (j : Json) :
    Except FromJsonError (Range α) := do
  let entries ← present .expectedRange j.asObject?
  if flag "empty" entries then return .nothing
  let lower ← bound value "lower" entries
  let upper ← bound value "upper" entries
  return ⟨lower, upper, flag "inc_lower" entries, flag "inc_upper" entries, false⟩

end FromJson

open FromJson in
/-- A scalar of a type from JSON. -/
def ScalarType.fromJson (type : ScalarType) (j : Json) : Except FromJsonError Scalar :=
  match type with
  | .uuid => do .uuid <$> present .invalidUuid (Uuid.parse? (← text type j))
  | .str => .str <$> text type j
  | .bytes => do
    match Hex.decode (← text type j) with
    | .ok bs => return .bytes bs
    | .error cause => fail (.invalidHex cause)
  | .int16 => do .int16 <$> present .integerOutOfRange (int16? (← integer type j).toInt)
  | .int32 => do .int32 <$> present .integerOutOfRange (int32? (← integer type j).toInt)
  | .int64 => .int64 <$> integer type j
  | .float32 => (fun bits => .float32 (Binary.toSingle bits)) <$> double type j
  | .float64 => .float64 <$> double type j
  | .bool => .bool <$> present (.expectedScalar "boolean" type) j.asBool?
  | .datetime => do .datetime <$> present .invalidTime (Moment.ofZonedText? (← text type j))
  | .localDatetime => do
    .localDatetime <$> present .invalidTime (Moment.ofLocalText? (← text type j))
  | .localDate => do .localDate <$> present .invalidTime (Date.ofText? (← text type j))
  | .localTime => do .localTime <$> present .invalidTime (TimeOfDay.ofText? (← text type j))
  | .duration => (fun micros => .duration (Duration.ofMicros micros.toInt)) <$> integer type j
  | .json => .ok (.json j)

namespace Shape

open FromJson

mutual

/-- A value of a shape from JSON. -/
def fromJson : Shape → Json → Except FromJsonError Value
  | .optional inner, j => if j.isNull then .ok .null else inner.fromJson j
  | .scalar type, j => .scalar <$> type.fromJson j
  | .array element, j => do
    let items ← present .expectedArray j.asArray?
    .array <$> items.mapM element.fromJson
  | .set element, j => do
    let items ← present .expectedArray j.asArray?
    .set <$> items.mapM element.fromJson
  | .tuple shapes, j => do
    let items ← present .expectedTuple j.asArray?
    if items.length ≠ shapes.length then fail (.tupleLength shapes.length items.length)
    .tuple <$> itemsFromJson shapes items
  | .record name members, j => do
    let entries ← present (.expectedObject name) j.asObject?
    .record <$> membersFromJson name entries members
  | .range element, j => .range <$> FromJson.range element.fromJson j
  | .multirange element, j => do
    let items ← present .expectedMultirange j.asArray?
    .multirange <$> items.mapM (FromJson.range element.fromJson)

/-- The items of a tuple. -/
def itemsFromJson : List Shape → List Json → Except FromJsonError (List Value)
  | shape :: shapes, j :: items => do
    let v ← shape.fromJson j
    let vs ← itemsFromJson shapes items
    return v :: vs
  | _, _ => .ok []

/-- The slots of a record from the entries of an object. An embedded record takes the same
entries. -/
def membersFromJson (record : String) (entries : List (String × Json)) :
    List (Member Shape) → Except FromJsonError Record
  | [] => .ok []
  | ⟨_, _, .record inner innerMembers, true⟩ :: members => do
    let slots ← membersFromJson inner entries innerMembers
    let vs ← membersFromJson record entries members
    return .record slots :: vs
  | ⟨name, _, shape, _⟩ :: members => do
    let v ← match Json.lookup? name entries with
      | some j => inMember name (shape.fromJson j)
      | none => if shape.isOptional then .ok .null else fail (.missingMember name record)
    let vs ← membersFromJson record entries members
    return v :: vs

end

end Shape

end TypedWire
