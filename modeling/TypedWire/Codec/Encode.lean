import TypedWire.Codec.Decode
import TypedWire.Wire.Writer

/-!
# Encoding

The payloads written are those that decoding describes, in one form only: the bytes that decoding
passes over are zero, arrays have one dimension and start at 1, and an empty range has the flag for
it and no other.

- `Element.write`, `Element.writeRequired`: an element, and one that may not be absent.
- `Codec.encode`: writes a value.
-/

namespace TypedWire

/-- A value of another kind than a codec writes. -/
def kindMismatch {α : Type} (expected : String) (found : Value) : Except EncodeError α :=
  .error (.valueMismatch expected found.kindName)

/-- A writer of the payloads of values. -/
abbrev WritePayload := Value → Writer → Except EncodeError Writer

namespace Element

/-- Writes a region with the given content. -/
def region (content : Writer → Except EncodeError Writer) (w : Writer) :
    Except EncodeError Writer := do
  let w ← content w.beginBytes
  w.endBytes

/-- Writes an element; no value is written as the mark for absence. -/
def write (p : WritePayload) (v : Value) (w : Writer) : Except EncodeError Writer :=
  if v.isNull then .ok (w.uint32 absent) else region (p v) w

/-- Writes an element that may not be absent. -/
def writeRequired (what : String) (p : WritePayload) (v : Value) (w : Writer) :
    Except EncodeError Writer :=
  if v.isNull then .error (.missingRequired what) else write p v w

end Element

/-- Writes one thing after the other. -/
def writeEach {α : Type} (p : α → Writer → Except EncodeError Writer) :
    List α → Writer → Except EncodeError Writer
  | [], w => .ok w
  | a :: as, w => do
    let w ← p a w
    writeEach p as w

/-- Writes a count of four bytes. -/
def writeCount (count : Nat) (w : Writer) : Writer :=
  w.uint32 (UInt32.ofNat count)

/-- The payload of an array, by a writer of its elements. -/
def writeArray (p : WritePayload) (items : List Value) (w : Writer) :
    Except EncodeError Writer :=
  match int32? items.length with
  | none => .error (.tooLong items.length)
  | some upper =>
    writeEach (Element.writeRequired "array element" p) items
      ((((w.uint32 1).uint32 0).uint32 0).int32 upper |>.int32 1)

/-- A flag if a condition holds. -/
def flagIf (condition : Bool) (flag : UInt8) : UInt8 :=
  if condition then flag else 0

/-- Writes a bound that is there. -/
def writeBound (what : String) (p : WritePayload) :
    Option Value → Writer → Except EncodeError Writer
  | some bound, w => Element.writeRequired what p bound w
  | none, w => .ok w

/-- The payload of a range, by a writer of its bounds. -/
def writeRange (p : WritePayload) (r : Range Value) (w : Writer) : Except EncodeError Writer :=
  if r.empty then .ok (w.uint8 RangeFlags.empty)
  else do
    let flags := flagIf r.incLower RangeFlags.lowerInclusive |||
      flagIf r.incUpper RangeFlags.upperInclusive |||
      flagIf r.lower.isNone RangeFlags.lowerInfinite |||
      flagIf r.upper.isNone RangeFlags.upperInfinite
    let w ← writeBound "range lower bound" p r.lower (w.uint8 flags)
    writeBound "range upper bound" p r.upper w

/-- The payload of a multirange, by a writer of the bounds of its ranges. -/
def writeMultirange (p : WritePayload) (ranges : List (Range Value)) (w : Writer) :
    Except EncodeError Writer :=
  writeEach (fun r => Element.region (writeRange p r)) ranges (writeCount ranges.length w)

/-! ## Fields -/

/-- Writes a field without a slot. -/
def RecordLayout.writeSkipped (layout : RecordLayout) (w : Writer) : Writer :=
  match layout with
  | .named | .input => w.uint32 Element.absent
  | .output => (w.uint32 16).uuid .nil

/-- The value for a field. -/
def loadSlot (rec : Record) (path : StoragePath) (template : Record) :
    Except EncodeError Value :=
  match Record.slot? rec path with
  | some v => .ok v
  | none => .error (.elementCount template.length rec.length)

/-- How many fields of an argument are present. A required one has to be. -/
def countPresent (rec template : Record) : List (BoundField Codec) → Except EncodeError Nat
  | [] => .ok 0
  | ⟨_, _, _, .skip⟩ :: fields => countPresent rec template fields
  | ⟨name, required, _, .slot path _⟩ :: fields => do
    let v ← loadSlot rec path template
    if v.isNull then
      if required then throw (.missingRequired name)
      countPresent rec template fields
    else
      let count ← countPresent rec template fields
      return count + 1

/-! ## Values -/

namespace Codec

mutual

/-- Writes the payload of a value. -/
def encode : Codec → WritePayload
  | .scalar _ type, v, w =>
    match v with
    | .scalar s =>
      if s.type = type then do
        let payload ← s.payload
        return w.raw payload
      else kindMismatch type.name v
    | _ => kindMismatch type.name v
  | .array _ element, v, w =>
    match v with
    | .array items => writeArray element.encode items w
    | .set items => writeArray element.encode items w
    | _ => kindMismatch "array" v
  | .set _ element, v, w =>
    match v with
    | .array items => writeArray element.encode items w
    | .set items => writeArray element.encode items w
    | _ => kindMismatch "array" v
  | .tuple _ elements, v, w =>
    match v with
    | .tuple items =>
      if items.length = elements.length then
        encodeItems elements items (writeCount items.length w)
      else .error (.elementCount elements.length items.length)
    | _ => kindMismatch "tuple" v
  | .record _ layout fields template, v, w =>
    match v with
    | .record rec =>
      match layout with
      | .named | .output =>
        encodeFields layout rec template fields (writeCount fields.length w)
      | .input => do
        let count ← countPresent rec template fields
        encodePresent rec template 0 fields (writeCount count w)
    | _ => kindMismatch "record" v
  | .range _ element, v, w =>
    match v with
    | .range r => writeRange element.encode r w
    | _ => kindMismatch "range" v
  | .multirange _ element, v, w =>
    match v with
    | .multirange ranges => writeMultirange element.encode ranges w
    | _ => kindMismatch "multirange" v

/-- Writes the items of a tuple. -/
def encodeItems : List Codec → List Value → Writer → Except EncodeError Writer
  | codec :: codecs, item :: items, w => do
    let w ← Element.writeRequired "tuple element" codec.encode item (w.uint32 0)
    encodeItems codecs items w
  | _, _, w => .ok w

/-- Writes all fields of a record. -/
def encodeFields (layout : RecordLayout) (rec template : Record) :
    List (BoundField Codec) → Writer → Except EncodeError Writer
  | [], w => .ok w
  | ⟨_, _, _, .skip⟩ :: fields, w =>
    encodeFields layout rec template fields (layout.writeSkipped (w.uint32 0))
  | ⟨name, required, _, .slot path codec⟩ :: fields, w => do
    let v ← loadSlot rec path template
    let w := w.uint32 0
    let w ← if required then Element.writeRequired name codec.encode v w
      else Element.write codec.encode v w
    encodeFields layout rec template fields w

/-- Writes the present fields of an argument, with their positions from `index` on. -/
def encodePresent (rec template : Record) (index : Nat) :
    List (BoundField Codec) → Writer → Except EncodeError Writer
  | [], w => .ok w
  | ⟨_, _, _, .skip⟩ :: fields, w => encodePresent rec template (index + 1) fields w
  | ⟨_, _, _, .slot path codec⟩ :: fields, w => do
    let v ← loadSlot rec path template
    if v.isNull then encodePresent rec template (index + 1) fields w
    else
      let w ← Element.write codec.encode v (writeCount index w)
      encodePresent rec template (index + 1) fields w

end

end Codec

end TypedWire
