import TypedWire.Codec.Encode
import TypedWire.Proofs.Wire.Writes

/-!
# Payloads as byte strings

What encoding writes, without a writer: the payload of a value is put together from the payloads of
its parts, each behind its length.

- `Codec.payload`: the payload of a value.
- `Codec.writes_encode`: encoding appends the payload to any writer, or fails as the payload does.
- `Codec.encode_appends`: encoding does to any writer what it does to a fresh one.
-/

namespace TypedWire

open Writer (Appends Writes)

/-! ## Elements -/

namespace Element

/-- The bytes of an element with a payload. -/
def frame (payload : Except EncodeError Bytes) : Except EncodeError Bytes := do
  let bytes ← payload
  let length ← lengthPrefix bytes.length
  return BigEndian.encode 4 length.toNat ++ bytes

/-- The four bytes that mark an absent element. -/
def absentMark : Bytes := BigEndian.encode 4 absent.toNat

/-- The bytes of the element for a value; no value is the mark for absence. -/
def spell (payload : Value → Except EncodeError Bytes) (v : Value) : Except EncodeError Bytes :=
  if v.isNull then .ok absentMark else frame (payload v)

/-- The bytes of the element for a value that may not be absent. -/
def spellRequired (what : String) (payload : Value → Except EncodeError Bytes) (v : Value) :
    Except EncodeError Bytes :=
  if v.isNull then .error (.missingRequired what) else frame (payload v)

/-- The bytes of the element for a field that may be absent or not. -/
def spellField (name : String) (required : Bool) (payload : Value → Except EncodeError Bytes)
    (v : Value) : Except EncodeError Bytes :=
  if required then spellRequired name payload v else spell payload v

theorem writes_region {content : Writer → Except EncodeError Writer}
    {payload : Except EncodeError Bytes} (h : Writes content payload) :
    Writes (region content) (frame payload) := by
  intro w
  show content w.beginBytes >>= Writer.endBytes = _
  rw [h]
  cases payload with
  | error e => rfl
  | ok bytes =>
    show (w.beginBytes.raw bytes).endBytes = _
    rw [Writer.endBytes_beginBytes]
    cases hlength : lengthPrefix bytes.length <;> simp [frame, hlength, Except.map, pure,
      Except.pure]

theorem writes_write {p : WritePayload} {payload : Value → Except EncodeError Bytes}
    {v : Value} (h : Writes (p v) (payload v)) : Writes (write p v) (spell payload v) := by
  intro w
  unfold write spell
  split
  · rfl
  · exact writes_region h w

theorem writes_required (what : String) {p : WritePayload}
    {payload : Value → Except EncodeError Bytes} {v : Value} (h : Writes (p v) (payload v)) :
    Writes (writeRequired what p v) (spellRequired what payload v) := by
  intro w
  unfold writeRequired spellRequired write
  split
  · rfl
  · exact writes_region h w

end Element

/-- The bytes of some things, one after the other. -/
def spellEach {α : Type} (spell : α → Except EncodeError Bytes) :
    List α → Except EncodeError Bytes
  | [] => .ok []
  | a :: as => do return (← spell a) ++ (← spellEach spell as)

theorem writes_each {α : Type} {p : α → Writer → Except EncodeError Writer}
    {spell : α → Except EncodeError Bytes} (as : List α)
    (h : ∀ a ∈ as, Writes (p a) (spell a)) : Writes (writeEach p as) (spellEach spell as) := by
  induction as with
  | nil => exact Writes.nothing
  | cons a as ih =>
    exact (h a List.mem_cons_self).bind (ih fun b hb => h b (List.mem_cons_of_mem a hb))

/-- The four bytes of a count. -/
def countBytes (count : Nat) : Bytes := BigEndian.encode 4 (UInt32.ofNat count).toNat

/-! ## Arrays and ranges -/

/-- What stands before the elements of an array: one dimension, reserved bytes and its bounds. -/
def arrayHeader (upper : Int32) : Bytes :=
  BigEndian.encode 4 1 ++ List.replicate 8 0 ++ BigEndian.encode 4 upper.toUInt32.toNat ++
    BigEndian.encode 4 1

/-- The payload of an array, by the payloads of its elements. -/
def arrayPayload (payload : Value → Except EncodeError Bytes) (items : List Value) :
    Except EncodeError Bytes :=
  match int32? items.length with
  | none => .error (.tooLong items.length)
  | some upper => do
    return arrayHeader upper ++ (← spellEach (Element.spellRequired "array element" payload) items)

/-- The byte that says which bounds of a range are there and which belong to it. -/
def rangeFlags (r : Range Value) : UInt8 :=
  flagIf r.incLower RangeFlags.lowerInclusive ||| flagIf r.incUpper RangeFlags.upperInclusive |||
    flagIf r.lower.isNone RangeFlags.lowerInfinite |||
    flagIf r.upper.isNone RangeFlags.upperInfinite

/-- The bytes of a bound that may be missing. -/
def spellBound (what : String) (payload : Value → Except EncodeError Bytes) :
    Option Value → Except EncodeError Bytes
  | some bound => Element.spellRequired what payload bound
  | none => .ok []

/-- The payload of a range, by the payloads of its bounds. -/
def rangePayload (payload : Value → Except EncodeError Bytes) (r : Range Value) :
    Except EncodeError Bytes :=
  if r.empty then .ok [RangeFlags.empty]
  else do
    let lower ← spellBound "range lower bound" payload r.lower
    let upper ← spellBound "range upper bound" payload r.upper
    return rangeFlags r :: (lower ++ upper)

/-- The payload of a multirange, by the payloads of the bounds of its ranges. -/
def multirangePayload (payload : Value → Except EncodeError Bytes) (ranges : List (Range Value)) :
    Except EncodeError Bytes := do
  return countBytes ranges.length ++
    (← spellEach (fun r => Element.frame (rangePayload payload r)) ranges)

theorem writes_array {p : WritePayload} {payload : Value → Except EncodeError Bytes}
    (h : ∀ v, Writes (p v) (payload v)) (items : List Value) :
    Writes (writeArray p items) (arrayPayload payload items) := by
  intro w
  unfold writeArray arrayPayload
  cases int32? items.length with
  | none => rfl
  | some upper =>
    have hitems := writes_each items fun v _ => Element.writes_required "array element" (h v)
    -- the fixed fields before the elements are appended one by one
    have hheader : ((((w.uint32 1).uint32 0).uint32 0).int32 upper |>.int32 1) =
        w.raw (arrayHeader upper) := by
      simp only [Writer.int32, Writer.uint32_eq_raw, Writer.raw_raw]
      rfl
    show writeEach _ items _ = _
    rw [hheader]
    exact hitems.after (arrayHeader upper) w

theorem writes_bound (what : String) {p : WritePayload}
    {payload : Value → Except EncodeError Bytes} (h : ∀ v, Writes (p v) (payload v))
    (bound : Option Value) : Writes (writeBound what p bound) (spellBound what payload bound) := by
  cases bound with
  | none => exact Writes.nothing
  | some v => exact Element.writes_required what (h v)

theorem writes_range {p : WritePayload} {payload : Value → Except EncodeError Bytes}
    (h : ∀ v, Writes (p v) (payload v)) (r : Range Value) :
    Writes (writeRange p r) (rangePayload payload r) := by
  intro w
  unfold writeRange rangePayload
  split
  · rw [Writer.uint8_eq_raw]
    rfl
  · -- the byte of the flags stands before what the bounds append
    have hbounds := ((writes_bound "range lower bound" h r.lower).bind
      (writes_bound "range upper bound" h r.upper)).after [rangeFlags r]
    show writeBound _ p r.lower (w.uint8 (rangeFlags r)) >>= _ = _
    rw [Writer.uint8_eq_raw]
    refine (hbounds w).trans ?_
    cases spellBound "range lower bound" payload r.lower with
    | error e => rfl
    | ok lower => cases spellBound "range upper bound" payload r.upper <;> rfl

theorem writes_multirange {p : WritePayload} {payload : Value → Except EncodeError Bytes}
    (h : ∀ v, Writes (p v) (payload v)) (ranges : List (Range Value)) :
    Writes (writeMultirange p ranges) (multirangePayload payload ranges) :=
  (writes_each ranges fun r _ => Element.writes_region (writes_range h r)).after
    (countBytes ranges.length)

/-! ## Values -/

theorem loadSlot_of_slot? {rec template : Record} {path : StoragePath} {v : Value}
    (h : rec.slot? path = some v) : loadSlot rec path template = .ok v := by
  rw [loadSlot, h]

theorem loadSlot_eq_ok {rec template : Record} {path : StoragePath} {v : Value}
    (h : loadSlot rec path template = .ok v) : rec.slot? path = some v := by
  unfold loadSlot at h
  split at h
  · rename_i w hw
    rw [hw, Except.ok.inj h]
  · cases h

/-- The bytes of a field without a slot. -/
def RecordLayout.skippedBytes : RecordLayout → Bytes
  | .named | .input => Element.absentMark
  | .output => BigEndian.encode 4 16 ++ Uuid.nil.toBytes

namespace Codec

mutual

/-- The payload of a value. -/
def payload : Codec → Value → Except EncodeError Bytes
  | .scalar _ type, v =>
    match v with
    | .scalar s => if s.type = type then s.payload else kindMismatch type.name v
    | _ => kindMismatch type.name v
  | .array _ element, v =>
    match v with
    | .array items => arrayPayload element.payload items
    | .set items => arrayPayload element.payload items
    | _ => kindMismatch "array" v
  | .set _ element, v =>
    match v with
    | .array items => arrayPayload element.payload items
    | .set items => arrayPayload element.payload items
    | _ => kindMismatch "array" v
  | .tuple _ elements, v =>
    match v with
    | .tuple items =>
      if items.length = elements.length then do
        return countBytes items.length ++ (← itemsPayload elements items)
      else .error (.elementCount elements.length items.length)
    | _ => kindMismatch "tuple" v
  | .record _ layout fields template, v =>
    match v with
    | .record rec =>
      match layout with
      | .named | .output => do
        return countBytes fields.length ++ (← fieldsPayload layout rec template fields)
      | .input => do
        let count ← countPresent rec template fields
        return countBytes count ++ (← presentPayload rec template 0 fields)
    | _ => kindMismatch "record" v
  | .range _ element, v =>
    match v with
    | .range r => rangePayload element.payload r
    | _ => kindMismatch "range" v
  | .multirange _ element, v =>
    match v with
    | .multirange ranges => multirangePayload element.payload ranges
    | _ => kindMismatch "multirange" v

/-- The bytes of the items of a tuple. -/
def itemsPayload : List Codec → List Value → Except EncodeError Bytes
  | codec :: codecs, item :: items => do
    let bytes ← Element.spellRequired "tuple element" codec.payload item
    return List.replicate 4 0 ++ bytes ++ (← itemsPayload codecs items)
  | _, _ => .ok []

/-- The bytes of all fields of a record. -/
def fieldsPayload (layout : RecordLayout) (rec template : Record) :
    List (BoundField Codec) → Except EncodeError Bytes
  | [] => .ok []
  | ⟨_, _, _, .skip⟩ :: fields => do
    return List.replicate 4 0 ++ layout.skippedBytes ++
      (← fieldsPayload layout rec template fields)
  | ⟨name, required, _, .slot path codec⟩ :: fields => do
    let v ← loadSlot rec path template
    let bytes ← Element.spellField name required codec.payload v
    return List.replicate 4 0 ++ bytes ++ (← fieldsPayload layout rec template fields)

/-- The bytes of the present fields of an argument, with their positions from `index` on. -/
def presentPayload (rec template : Record) (index : Nat) :
    List (BoundField Codec) → Except EncodeError Bytes
  | [] => .ok []
  | ⟨_, _, _, .skip⟩ :: fields => presentPayload rec template (index + 1) fields
  | ⟨_, _, _, .slot path codec⟩ :: fields => do
    let v ← loadSlot rec path template
    if v.isNull then presentPayload rec template (index + 1) fields
    else
      let bytes ← Element.spell codec.payload v
      return countBytes index ++ bytes ++ (← presentPayload rec template (index + 1) fields)

end

theorem writes_skipped (layout : RecordLayout) (w : Writer) :
    layout.writeSkipped w = w.raw layout.skippedBytes := by
  cases layout with
  | named | input => rfl
  | output => exact Writer.raw_raw _ _ w

mutual

/-- Encoding appends the payload to any writer, or fails as the payload does. -/
theorem writes_encode : ∀ (codec : Codec) (v : Value), Writes (codec.encode v) (codec.payload v)
  | .scalar _ type, v => by
    intro w
    simp only [encode, payload]
    cases v with
    | scalar s =>
      dsimp only
      split
      · cases s.payload <;> rfl
      · rfl
    | _ => rfl
  | .array _ element, v => by
    intro w
    simp only [encode, payload]
    cases v with
    | array items | set items => exact writes_array (writes_encode element) items w
    | _ => rfl
  | .set _ element, v => by
    intro w
    simp only [encode, payload]
    cases v with
    | array items | set items => exact writes_array (writes_encode element) items w
    | _ => rfl
  | .tuple _ elements, v => by
    intro w
    simp only [encode, payload]
    cases v with
    | tuple items =>
      dsimp only
      split
      · exact (writes_encodeItems elements items).after (countBytes items.length) w
      · rfl
    | _ => rfl
  | .record _ layout fields template, v => by
    intro w
    simp only [encode, payload]
    cases v with
    | record rec =>
      cases layout with
      | named | output =>
        exact (writes_encodeFields _ rec template fields).after (countBytes fields.length) w
      | input =>
        dsimp only
        cases countPresent rec template fields with
        | error e => rfl
        | ok count =>
          exact (writes_encodePresent rec template 0 fields).after (countBytes count) w
    | _ => rfl
  | .range _ element, v => by
    intro w
    simp only [encode, payload]
    cases v with
    | range r => exact writes_range (writes_encode element) r w
    | _ => rfl
  | .multirange _ element, v => by
    intro w
    simp only [encode, payload]
    cases v with
    | multirange ranges => exact writes_multirange (writes_encode element) ranges w
    | _ => rfl

theorem writes_encodeItems : ∀ (codecs : List Codec) (items : List Value),
    Writes (encodeItems codecs items) (itemsPayload codecs items)
  | codec :: codecs, item :: items => by
    intro w
    simp only [encodeItems, itemsPayload]
    have hitem := Element.writes_required "tuple element" (writes_encode codec item)
    refine ((hitem.after (List.replicate 4 0)).bind (writes_encodeItems codecs items) w).trans ?_
    cases Element.spellRequired "tuple element" codec.payload item <;> rfl
  | [], _ => fun w => by
    simp only [encodeItems, itemsPayload]
    exact Writes.nothing w
  | _ :: _, [] => fun w => by
    simp only [encodeItems, itemsPayload]
    exact Writes.nothing w

theorem writes_encodeFields (layout : RecordLayout) (rec template : Record) :
    ∀ fields : List (BoundField Codec),
      Writes (encodeFields layout rec template fields) (fieldsPayload layout rec template fields)
  | [] => fun w => by
    simp only [encodeFields, fieldsPayload]
    exact Writes.nothing w
  | ⟨_, _, _, .skip⟩ :: fields => by
    intro w
    simp only [encodeFields, fieldsPayload]
    rw [writes_skipped, Writer.uint32_eq_raw, Writer.raw_raw]
    exact (writes_encodeFields layout rec template fields).after _ w
  | ⟨name, required, _, .slot path codec⟩ :: fields => by
    intro w
    simp only [encodeFields, fieldsPayload]
    cases loadSlot rec path template with
    | error e => rfl
    | ok v =>
      have hv := writes_encode codec v
      have hfields := writes_encodeFields layout rec template fields
      cases required with
      | true =>
        have helement := (Element.writes_required name hv).after (List.replicate 4 0)
        refine (helement.bind hfields w).trans ?_
        show _ = Except.map _ (Element.spellRequired name codec.payload v >>= _)
        cases Element.spellRequired name codec.payload v <;> rfl
      | false =>
        have helement := (Element.writes_write hv).after (List.replicate 4 0)
        refine (helement.bind hfields w).trans ?_
        show _ = Except.map _ (Element.spell codec.payload v >>= _)
        cases Element.spell codec.payload v <;> rfl

theorem writes_encodePresent (rec template : Record) :
    ∀ (index : Nat) (fields : List (BoundField Codec)),
      Writes (encodePresent rec template index fields) (presentPayload rec template index fields)
  | _, [] => fun w => by
    simp only [encodePresent, presentPayload]
    exact Writes.nothing w
  | index, ⟨_, _, _, .skip⟩ :: fields => fun w => by
    simp only [encodePresent, presentPayload]
    exact writes_encodePresent rec template (index + 1) fields w
  | index, ⟨_, _, _, .slot path codec⟩ :: fields => by
    intro w
    simp only [encodePresent, presentPayload]
    cases loadSlot rec path template with
    | error e => rfl
    | ok v =>
      have hfields := writes_encodePresent rec template (index + 1) fields
      dsimp only [outcome_bind_ok]
      split
      · exact hfields w
      · have hv := Element.writes_write (writes_encode codec v)
        refine ((hv.after (countBytes index)).bind hfields w).trans ?_
        cases Element.spell codec.payload v <;> rfl

end

/-- Encoding a value, by itself or as an element, does to any writer what it does to a fresh one. -/
theorem encode_appends (codec : Codec) (v : Value) :
    Appends (codec.encode v) ∧ Appends (Element.write codec.encode v) ∧
      ∀ what, Appends (Element.writeRequired what codec.encode v) := by
  have hwrites := writes_encode codec v
  exact ⟨hwrites.appends, (Element.writes_write hwrites).appends,
    fun what => (Element.writes_required what hwrites).appends⟩

end Codec

end TypedWire
