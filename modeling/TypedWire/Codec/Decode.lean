import TypedWire.Codec.Basic
import TypedWire.Codec.Scalar

/-!
# Decoding

A part of a value is an element: a length of four bytes and a payload of that length, or a mark that
the part is absent. The codec of a part sees its payload only and has to use it up.

| kind | payload |
|---|---|
| array, set | dimension count 0 or 1, eight bytes; for one dimension, its bounds and the elements |
| tuple | count, and for each item four bytes and an element |
| record, `named` and `output` | count, and for each field four bytes and an element |
| record, `input` | count of the present fields, and for each its position and an element |
| range | flags, and the elements of the bounds that are finite |
| multirange | count, and for each range an element |

The fields of a record are read without looking at the storage: a read gives the list of what is to
be stored, also if it fails on the way, and the stores are carried out afterwards.

- `Element.read`, `Element.required`: an element, and one that may not be absent.
- `Store`, `Interrupted`, `settle`: what is to be stored, a read that failed on the way, and the
  storage and outcome that follow.
- `Codec.decode`: reads a value.
-/

namespace TypedWire

/-! ## Elements -/

namespace Element

/-- The length that marks an absent element. -/
def absent : UInt32 := 0xffffffff

/-- The payload of an element, if it is not absent. -/
def payload : Read DecodeError (Option Bytes) := do
  let length ← Read.uint32
  if length = absent then return none
  else some <$> Read.take length.toNat

/-- An element whose payload the given read uses up, if it is not absent. -/
def read {α : Type} (p : Read DecodeError α) : Read DecodeError (Option α) := do
  match (← payload) with
  | none => return none
  | some bytes => some <$> Read.inside bytes p.toEnd

/-- An element that may not be absent. -/
def required {α : Type} (what : String) (p : Read DecodeError α) : Read DecodeError α := do
  match (← read p) with
  | some a => return a
  | none => throw (.missingRequired what)

end Element

/-- A count that has to be the given one. -/
def expectCount (expected : Nat) : Read DecodeError Unit := do
  let count ← Read.uint32
  if count.toNat ≠ expected then throw (.elementCount expected count.toNat)

/-! ## Arrays and ranges -/

/-- The payload of an array, by a read of its elements. -/
def arrayItems {α : Type} (element : Read DecodeError α) : Read DecodeError (List α) := do
  let dimensions ← Read.uint32
  Read.skip 8
  if dimensions = 0 then return []
  else if dimensions = 1 then do
    let upper ← Read.int32
    let lower ← Read.int32
    let count := upper.toInt - lower.toInt + 1
    if count < 0 then throw (.invalidBounds upper lower)
    Read.times count.toNat (Element.required "array element" element)
  else throw (.invalidDimensions dimensions)

namespace RangeFlags

def empty : UInt8 := 0x01

def lowerInclusive : UInt8 := 0x02

def upperInclusive : UInt8 := 0x04

def lowerInfinite : UInt8 := 0x08

def upperInfinite : UInt8 := 0x10

end RangeFlags

/-- Whether some flag is set. -/
def hasFlag (flags flag : UInt8) : Bool := flags &&& flag != 0

/-- A bound, if it is there to be read. -/
def rangeBound {α : Type} (what : String) (isThere : Bool) (element : Read DecodeError α) :
    Read DecodeError (Option α) :=
  if isThere then some <$> Element.required what element else pure none

/-- The payload of a range, by a read of its bounds. -/
def rangeOf {α : Type} (element : Read DecodeError α) : Read DecodeError (Range α) := do
  let flags ← Read.uint8
  let empty := hasFlag flags RangeFlags.empty
  let lower ← rangeBound "range lower bound"
    (!empty && !hasFlag flags RangeFlags.lowerInfinite) element
  let upper ← rangeBound "range upper bound"
    (!empty && !hasFlag flags RangeFlags.upperInfinite) element
  return {
    lower
    upper
    incLower := hasFlag flags RangeFlags.lowerInclusive
    incUpper := hasFlag flags RangeFlags.upperInclusive
    empty }

/-- The payload of a multirange, by a read of the bounds of its ranges. -/
def multirangeOf {α : Type} (element : Read DecodeError α) :
    Read DecodeError (List (Range α)) := do
  let count ← Read.uint32
  Read.times count.toNat (Element.required "range" (rangeOf element))

/-! ## Stores -/

/-- A value and the slot that it is to be stored in. -/
structure Store where
  path : StoragePath
  value : Value

/-- A read of fields that failed after some stores. -/
structure Interrupted where
  cause : DecodeError
  done : List Store

/-- A read after the given stores. -/
def afterStores {α : Type} (done : List Store) (p : Read DecodeError α) : Read Interrupted α :=
  p.mapError (⟨·, done⟩)

/-- The record after some stores, up to the first that finds no slot. -/
def Record.storeAll (rec : Record) : List Store → Except DecodeError Unit × Record
  | [] => (.ok (), rec)
  | ⟨path, value⟩ :: stores =>
    match Record.setSlot? rec value path with
    | some rec => storeAll rec stores
    | none => (.error (.storageMismatch "record slot"), rec)

/-- Carries out the stores of a read of fields. A store that finds no slot comes before a failure of
the read. -/
def settle (storage : Record) :
    Except Interrupted (List Store × Bytes) → Except DecodeError Bytes × Record
  | .ok (stores, left) =>
    match storage.storeAll stores with
    | (.ok (), rec) => (.ok left, rec)
    | (.error e, rec) => (.error e, rec)
  | .error ⟨cause, done⟩ =>
    match storage.storeAll done with
    | (.ok (), rec) => (.error cause, rec)
    | (.error e, rec) => (.error e, rec)

/-- What a result record says in the place of the identifier of its type: a length and the
identifier. -/
def typeIdBlock : Nat := 20

/-- Passes over a field without a slot. -/
def RecordLayout.skip : RecordLayout → Read DecodeError Unit
  | .named | .input => do
    let _ ← Element.payload
  | .output => Read.skip typeIdBlock

/-- The payload of a record of `count` fields: `dense` reads all fields, `sparse` the one at a
position. -/
def recordStores (layout : RecordLayout) (count : Nat) (dense : Read Interrupted (List Store))
    (sparse : UInt32 → List Store → Read Interrupted (List Store)) :
    Read Interrupted (List Store) :=
  match layout with
  | .named | .output => do
    afterStores [] (expectCount count)
    dense
  | .input => do
    let present ← afterStores [] Read.uint32
    if count < present.toNat then throw ⟨.elementCount count present.toNat, []⟩
    Read.iterate present.toNat (fun done => do
      let index ← afterStores done Read.uint32
      sparse index done) []

/-! ## Values -/

namespace Codec

mutual

/-- Reads the payload of a value. -/
def decode : Codec → Read DecodeError Value
  | .scalar _ type => .scalar <$> type.read
  | .array _ element => .array <$> arrayItems element.decode
  | .set _ element => .set <$> arrayItems element.decode
  | .tuple _ elements => do
    expectCount elements.length
    .tuple <$> decodeItems elements
  | .record _ layout fields template => fun bs =>
    let stores := recordStores layout fields.length (decodeFields layout fields [])
      fun index done => decodeAt index index.toNat fields done
    match settle template (stores bs) with
    | (.ok left, rec) => .ok (.record rec, left)
    | (.error e, _) => .error e
  | .range _ element => .range <$> rangeOf element.decode
  | .multirange _ element => .multirange <$> multirangeOf element.decode

/-- Reads the items of a tuple. -/
def decodeItems : List Codec → Read DecodeError (List Value)
  | [] => pure []
  | codec :: codecs => do
    Read.skip 4
    let item ← Element.required "tuple element" codec.decode
    let items ← decodeItems codecs
    return item :: items

/-- Reads the fields of a record that has all of them, after the given stores. -/
def decodeFields (layout : RecordLayout) :
    List (BoundField Codec) → List Store → Read Interrupted (List Store)
  | [], done => pure done
  | ⟨_, _, _, .skip⟩ :: fields, done => do
    afterStores done (Read.skip 4)
    afterStores done layout.skip
    decodeFields layout fields done
  | ⟨name, required, _, .slot path codec⟩ :: fields, done => do
    afterStores done (Read.skip 4)
    match (← afterStores done (Element.read codec.decode)) with
    | some value => decodeFields layout fields (done ++ [⟨path, value⟩])
    | none =>
      if required then throw ⟨.missingRequired name, done⟩
      else decodeFields layout fields done

/-- Reads the field at a position among the fields of a record, after the given stores. -/
def decodeAt (index : UInt32) :
    Nat → List (BoundField Codec) → List Store → Read Interrupted (List Store)
  | _, [], done => throw ⟨.invalidIndex index, done⟩
  | 0, ⟨_, _, _, .skip⟩ :: _, done => do
    afterStores done RecordLayout.input.skip
    return done
  | 0, ⟨_, _, _, .slot path codec⟩ :: _, done => do
    match (← afterStores done (Element.read codec.decode)) with
    | some value => return done ++ [⟨path, value⟩]
    | none => return done
  | i + 1, _ :: fields, done => decodeAt index i fields done

end

/-- What the payload of a record asks to be stored. -/
def recordReads (layout : RecordLayout) (fields : List (BoundField Codec)) :
    Read Interrupted (List Store) :=
  recordStores layout fields.length (decodeFields layout fields [])
    fun index done => decodeAt index index.toNat fields done

end Codec

end TypedWire
