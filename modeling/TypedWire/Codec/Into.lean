import TypedWire.Codec.Decode
import TypedWire.Wire.Pull

/-!
# Decoding into storage

Who decodes into storage holds a reader and the storage, and finds both changed when decoding has
failed: the reader has moved on, and a record has the values of the fields that were read by then.
An element is taken off the reader before it is looked at, and its payload has a reader of its own,
so that the caller's reader never stops inside an element.

- `Pull.element`, `Pull.required`, `ScalarType.pull`, `Codec.pull`: what `Element.read`,
  `Element.required`, `ScalarType.read` and `Codec.decode` do, as operations on a reader.
- `Fill`: an operation on a reader and on the record that is filled from it.
- `BoundField.pull`, `Codec.fill`: one field of a record, and all of them.
- `Codec.decodeInto`: reads a value into storage; `Filled` is what that leaves.
-/

namespace TypedWire

/-! ## Elements -/

namespace Pull

variable {α : Type}

/-- What is there, or else a failure. -/
def present (e : DecodeError) : Option α → Pull α
  | some a => return a
  | none => throw e

/-- The payload of an element, if it is not absent. -/
def payload : Pull (Option Bytes) := do
  let length ← uint32
  if length = Element.absent then return none
  else some <$> take length.toNat

/-- An element whose payload the given read uses up, if it is not absent. -/
def element (p : Read DecodeError α) : Pull (Option α) := do
  match (← payload) with
  | none => return none
  | some bytes => some <$> inside bytes p.toEnd

/-- An element that may not be absent. -/
def required (what : String) (p : Read DecodeError α) : Pull α := do
  match (← element p) with
  | some a => return a
  | none => throw (.missingRequired what)

/-- A count that has to be the given one. -/
def expectCount (expected : Nat) : Pull Unit := do
  let count ← uint32
  if count.toNat ≠ expected then throw (.elementCount expected count.toNat)

/-! ## Arrays, tuples and ranges -/

/-- The payload of an array, by a read of its elements. -/
def arrayItems (element : Read DecodeError α) : Pull (List α) := do
  let dimensions ← uint32
  skip 8
  if dimensions = 0 then return []
  else if dimensions = 1 then do
    let upper ← int32
    let lower ← int32
    let count := upper.toInt - lower.toInt + 1
    if count < 0 then throw (.invalidBounds upper lower)
    times count.toNat (required "array element" element)
  else throw (.invalidDimensions dimensions)

/-- The items of a tuple. -/
def tupleItems : List Codec → Pull (List Value)
  | [] => return []
  | codec :: codecs => do
    skip 4
    let item ← required "tuple element" codec.decode
    let items ← tupleItems codecs
    return item :: items

/-- A bound, if it is there to be read. -/
def rangeBound (what : String) (isThere : Bool) (element : Read DecodeError α) :
    Pull (Option α) :=
  if isThere then some <$> required what element else return none

/-- The payload of a range, by a read of its bounds. -/
def rangeOf (element : Read DecodeError α) : Pull (Range α) := do
  let flags ← uint8
  let empty := hasFlag flags RangeFlags.empty
  let lower ← rangeBound "range lower bound"
    (!empty && !hasFlag flags RangeFlags.lowerInfinite) element
  let upper ← rangeBound "range upper bound"
    (!empty && !hasFlag flags RangeFlags.upperInfinite) element
  return {
    lower
    upper
    incLower := hasFlag flags RangeFlags.lowerInclusive
    incUpper := hasFlag flags RangeFlags.upperInclusive
    empty }

/-- The payload of a multirange, by a read of the bounds of its ranges. -/
def multirangeOf (element : Read DecodeError α) : Pull (List (Range α)) := do
  let count ← uint32
  times count.toNat (required "range" (TypedWire.rangeOf element))

end Pull

/-! ## Scalars -/

namespace ScalarType

/-- An operation that needs an exact count of unread bytes. -/
def pullSized {α : Type} (type : ScalarType) (length : Nat) (p : Pull α) : Pull α := do
  let found ← Pull.remaining
  if found ≠ length then throw (.invalidLength type.shortName length found)
  p

/-- All unread bytes as a text. -/
def pullText : Pull String := do
  let bytes ← Pull.rest
  Pull.present .invalidUtf8 (Utf8.decode? bytes)

/-- Reads the payload of a scalar. One that says nothing in range has been taken off all the
same. -/
def pull : ScalarType → Pull Scalar
  | .uuid => .uuid <$> pullSized .uuid 16 Pull.uuid
  | .str => .str <$> pullText
  | .bytes => .bytes <$> Pull.rest
  | .int16 => .int16 <$> pullSized .int16 2 Pull.int16
  | .int32 => .int32 <$> pullSized .int32 4 Pull.int32
  | .int64 => .int64 <$> pullSized .int64 8 Pull.int64
  | .float32 => .float32 <$> pullSized .float32 4 Pull.uint32
  | .float64 => .float64 <$> pullSized .float64 8 Pull.uint64
  | .bool => (fun b => .bool (b != 0)) <$> pullSized .bool 1 Pull.uint8
  | .datetime => do
    let micros ← pullSized .datetime 8 Pull.int64
    .datetime <$> Pull.present (.outOfRange "datetime") (Moment.ofMicros? micros)
  | .localDatetime => do
    let micros ← pullSized .localDatetime 8 Pull.int64
    .localDatetime <$> Pull.present (.outOfRange "datetime") (Moment.ofMicros? micros)
  | .localDate => do
    let days ← pullSized .localDate 4 Pull.int32
    .localDate <$> Pull.present (.outOfRange "local_date") (Date.ofWireDays? days)
  | .localTime => do
    let micros ← pullSized .localTime 8 Pull.int64
    .localTime <$> Pull.present (.outOfRange "local_time") (TimeOfDay.ofMicros? micros)
  | .duration => do
    let micros ← pullSized .duration 16 do
      let micros ← Pull.int64
      Pull.skip 8
      return micros
    .duration <$> Pull.present (.outOfRange "duration") (Duration.ofWireMicros? micros)
  | .json => do
    let format ← Pull.uint8
    if format ≠ jsonFormat then throw (.invalidJsonFormat format)
    let text ← pullText
    .json <$> Pull.present .invalidJson (Json.parse? text)

end ScalarType

/-! ## Records -/

/-- An operation on a reader and on the record that is filled from it. Both stay what they have
become, whether it fails or not. -/
abbrev Fill := ExceptT DecodeError (StateM (Bytes × Record))

namespace Fill

/-- Carries out an operation on the reader. -/
def reading {α : Type} (p : Pull α) : Fill α := fun (unread, rec) =>
  match p.run unread with
  | (outcome, left) => (outcome, left, rec)

/-- Carries out a store. -/
def store (st : Store) : Fill Unit := fun (unread, rec) =>
  match Record.setSlot? rec st.value st.path with
  | some rec => (.ok (), unread, rec)
  | none => (.error (.storageMismatch "record slot"), unread, rec)

/-- Reads what one entry of a record asks to be stored, and stores it. -/
def entry (p : Pull (Option Store)) : Fill Unit := do
  match (← reading p) with
  | some st => store st
  | none => return ()

/-- Entries one after the other. -/
def entries : List (Pull (Option Store)) → Fill Unit
  | [] => return ()
  | p :: ps => do
    entry p
    entries ps

end Fill

/-- Passes over a field without a slot. -/
def RecordLayout.pull : RecordLayout → Pull Unit
  | .named | .input => do
    let _ ← Pull.payload
  | .output => Pull.skip typeIdBlock

/-- Reads what is sent for a field, and gives what is to be stored. Only an argument may lack a
required field. -/
def BoundField.pull (layout : RecordLayout) (b : BoundField Codec) : Pull (Option Store) :=
  match b.target with
  | .skip => do
    layout.pull
    return none
  | .slot path codec => do
    match (← Pull.element codec.decode) with
    | some value => return some ⟨path, value⟩
    | none => if b.required ∧ layout ≠ .input then throw (.missingRequired b.name) else return none

namespace Codec

/-- The entry of a field where every field is sent. -/
def pullDense (layout : RecordLayout) (b : BoundField Codec) : Pull (Option Store) := do
  Pull.skip 4
  b.pull layout

/-- An entry that says itself which field it is for. -/
def pullSparse (fields : List (BoundField Codec)) : Pull (Option Store) := do
  let index ← Pull.uint32
  match fields[index.toNat]? with
  | some b => b.pull .input
  | none => throw (.invalidIndex index)

/-- Reads the count of a record, and gives the entries that are to follow. -/
def pullEntries (layout : RecordLayout) (fields : List (BoundField Codec)) :
    Pull (List (Pull (Option Store))) :=
  match layout with
  | .named | .output => do
    Pull.expectCount fields.length
    return fields.map (pullDense layout)
  | .input => do
    let present ← Pull.uint32
    if fields.length < present.toNat then throw (.elementCount fields.length present.toNat)
    return List.replicate present.toNat (pullSparse fields)

/-- Fills a record from its payload, each field as soon as it is read. -/
def fill (layout : RecordLayout) (fields : List (BoundField Codec)) : Fill Unit := do
  Fill.entries (← Fill.reading (pullEntries layout fields))

/-! ## Values -/

/-- Reads the payload of a value. -/
def pull : Codec → Pull Value
  | .scalar _ type => .scalar <$> type.pull
  | .array _ element => .array <$> Pull.arrayItems element.decode
  | .set _ element => .set <$> Pull.arrayItems element.decode
  | .tuple _ elements => do
    Pull.expectCount elements.length
    .tuple <$> Pull.tupleItems elements
  | .record _ layout fields template => fun unread =>
    match (fill layout fields).run (unread, template) with
    | (.ok (), left, rec) => (.ok (.record rec), left)
    | (.error e, left, _) => (.error e, left)
  | .range _ element => .range <$> Pull.rangeOf element.decode
  | .multirange _ element => .multirange <$> Pull.multirangeOf element.decode

/-- What decoding into storage leaves: how it ended, the bytes that are unread, and the storage. -/
structure Filled where
  outcome : Except DecodeError Unit
  unread : Bytes
  storage : Value

/-- Reads the payload of a value into storage. The codec of a record writes only the slots of the
fields that are present; any other replaces what is stored, and only if it succeeds. -/
def decodeInto (codec : Codec) (storage : Value) (bs : Bytes) : Filled :=
  match codec, storage with
  | .record _ layout fields _, .record rec =>
    match (fill layout fields).run (bs, rec) with
    | (outcome, left, rec) => ⟨outcome, left, .record rec⟩
  | .record .., _ => ⟨.error (.storageMismatch "record"), bs, storage⟩
  | _, _ =>
    match codec.pull.run bs with
    | (.ok value, left) => ⟨.ok (), left, value⟩
    | (.error e, left) => ⟨.error e, left, storage⟩

end Codec

end TypedWire
