import TypedWire.Proofs.Codec.Covers
import TypedWire.Proofs.Codec.Payload

/-!
# Values up to empty ranges

Of an empty range the wire says that it is empty and nothing else. A value in normal form has no
empty range but the one that holds nothing.

- `Value.normal`: the value with every empty range replaced by the one that holds nothing.
- `Value.Conforms.normal`, `Codec.Covers.normal`, `Value.All.normal`: what the normal form keeps.
- `Codec.payload_normal`: a value and its normal form have the same payload.
-/

namespace TypedWire

namespace Value

mutual

/-- The value with every empty range replaced by the one that holds nothing. -/
def normal : Value → Value
  | .null => .null
  | .scalar s => .scalar s
  | .array items => .array (normals items)
  | .set items => .set (normals items)
  | .tuple items => .tuple (normals items)
  | .record slots => .record (normals slots)
  | .range r => .range (normalRange r)
  | .multirange ranges => .multirange (normalRanges ranges)

/-- The normal forms of some values. -/
def normals : List Value → List Value
  | [] => []
  | v :: vs => v.normal :: normals vs

/-- The normal form of a bound that may be missing. -/
def normalBound : Option Value → Option Value
  | none => none
  | some v => some v.normal

/-- The normal form of a range. -/
def normalRange : Range Value → Range Value
  | ⟨lower, upper, incLower, incUpper, empty⟩ =>
    if empty then .nothing else ⟨normalBound lower, normalBound upper, incLower, incUpper, empty⟩

/-- The normal forms of some ranges. -/
def normalRanges : List (Range Value) → List (Range Value)
  | [] => []
  | r :: rs => normalRange r :: normalRanges rs

end

theorem normals_eq_map : ∀ vs : List Value, normals vs = vs.map normal
  | [] => by rw [normals, List.map_nil]
  | v :: vs => by rw [normals, normals_eq_map vs, List.map_cons]

theorem normalRanges_eq_map : ∀ rs : List (Range Value), normalRanges rs = rs.map normalRange
  | [] => by rw [normalRanges, List.map_nil]
  | r :: rs => by rw [normalRanges, normalRanges_eq_map rs, List.map_cons]

theorem normalBound_eq_map (bound : Option Value) : normalBound bound = bound.map normal := by
  cases bound <;> rw [normalBound] <;> rfl

@[simp] theorem isNull_normal (v : Value) : v.normal.isNull = v.isNull := by
  cases v <;> rw [normal] <;> rfl

theorem normalRange_of_empty {r : Range Value} (h : r.empty = true) : normalRange r = .nothing := by
  obtain ⟨lower, upper, incLower, incUpper, empty⟩ := r
  obtain rfl := h
  rw [normalRange, if_pos rfl]

theorem normalRange_of_not_empty {r : Range Value} (h : r.empty = false) :
    normalRange r = { r with lower := r.lower.map normal, upper := r.upper.map normal } := by
  obtain ⟨lower, upper, incLower, incUpper, empty⟩ := r
  obtain rfl := h
  rw [normalRange, if_neg Bool.false_ne_true, normalBound_eq_map, normalBound_eq_map]

/-- The bounds of a range in normal form are normal forms of its bounds. -/
theorem mem_bounds_normalRange {r : Range Value} {v : Value} (h : v ∈ (normalRange r).bounds) :
    ∃ w ∈ r.bounds, w.normal = v := by
  cases hempty : r.empty with
  | true =>
    rw [normalRange_of_empty hempty] at h
    cases h
  | false =>
    rw [normalRange_of_not_empty hempty] at h
    -- both bounds go to their normal forms in the same way
    have hbound : ∀ {bound : Option Value}, v ∈ (bound.map normal).toList →
        ∃ w ∈ bound.toList, w.normal = v := by
      intro bound hv
      obtain ⟨w, rfl, hw⟩ := Option.map_eq_some_iff.mp (Option.mem_toList.mp hv)
      exact ⟨w, Option.mem_toList.mpr rfl, hw⟩
    rcases List.mem_append.mp h with h | h
    · obtain ⟨w, hw, heq⟩ := hbound h
      exact ⟨w, List.mem_append_left _ hw, heq⟩
    · obtain ⟨w, hw, heq⟩ := hbound h
      exact ⟨w, List.mem_append_right _ hw, heq⟩

theorem normalRange_plain (r : Range Value) : (normalRange r).Plain := by
  intro h
  cases hempty : r.empty with
  | true => exact normalRange_of_empty hempty
  | false =>
    rw [normalRange_of_not_empty hempty] at h
    cases hempty.symm.trans h

/-- A property of all items of a list that is kept by normal forms. -/
theorem forall_mem_map_normal {P Q : Value → Prop} {items : List Value}
    (h : ∀ v ∈ items, P v → Q v.normal) (hitems : ∀ v ∈ items, P v) :
    ∀ v ∈ items.map normal, Q v := by
  intro v hv
  obtain ⟨w, hw, rfl⟩ := List.mem_map.mp hv
  exact h w hw (hitems w hw)

/-- The normal form of a value of a shape is one of the shape. -/
theorem Conforms.normal {v : Value} {shape : Shape} (h : v.Conforms shape) :
    v.normal.Conforms shape := by
  induction h with
  | scalar hasType =>
    rw [Value.normal]
    exact .scalar hasType
  | null inner =>
    rw [Value.normal]
    exact .null inner
  | present _ ih => exact .present ih
  | array h ih =>
    rw [Value.normal, normals_eq_map]
    exact .array (forall_mem_map_normal (fun v hv _ => ih v hv) h)
  | set h ih =>
    rw [Value.normal, normals_eq_map]
    exact .set (forall_mem_map_normal (fun v hv _ => ih v hv) h)
  | tuple length h ih =>
    rw [Value.normal, normals_eq_map]
    refine .tuple (by rw [List.length_map, length]) fun i v shape hv hshape => ?_
    rw [List.getElem?_map] at hv
    obtain ⟨w, hw, rfl⟩ := Option.map_eq_some_iff.mp hv
    exact ih i w shape hw hshape
  | record length h ih =>
    rw [Value.normal, normals_eq_map]
    refine .record (by rw [List.length_map, length]) fun i v m hv hm => ?_
    rw [List.getElem?_map] at hv
    obtain ⟨w, hw, rfl⟩ := Option.map_eq_some_iff.mp hv
    exact ih i w m hw hm
  | range h ih =>
    rw [Value.normal]
    refine .range fun v hv => ?_
    obtain ⟨w, hw, rfl⟩ := mem_bounds_normalRange hv
    exact ih w hw
  | multirange h ih =>
    rw [Value.normal, normalRanges_eq_map]
    refine .multirange fun r hr v hv => ?_
    obtain ⟨r', hr', rfl⟩ := List.mem_map.mp hr
    obtain ⟨w, hw, rfl⟩ := mem_bounds_normalRange hv
    exact ih r' hr' w hw

/-- The normal form keeps the scalars, and its ranges are plain. -/
theorem All.normal {P : Scalar → Prop} {Q : Range Value → Prop} {v : Value} (h : v.All P Q) :
    v.normal.All P Range.Plain := by
  induction h with
  | null =>
    rw [Value.normal]
    exact .null
  | scalar here =>
    rw [Value.normal]
    exact .scalar here
  | array h ih =>
    rw [Value.normal, normals_eq_map]
    exact .array (forall_mem_map_normal (fun v hv _ => ih v hv) h)
  | set h ih =>
    rw [Value.normal, normals_eq_map]
    exact .set (forall_mem_map_normal (fun v hv _ => ih v hv) h)
  | tuple h ih =>
    rw [Value.normal, normals_eq_map]
    exact .tuple (forall_mem_map_normal (fun v hv _ => ih v hv) h)
  | record h ih =>
    rw [Value.normal, normals_eq_map]
    exact .record (forall_mem_map_normal (fun v hv _ => ih v hv) h)
  | range here h ih =>
    rw [Value.normal]
    refine .range (normalRange_plain _) fun v hv => ?_
    obtain ⟨w, hw, rfl⟩ := mem_bounds_normalRange hv
    exact ih w hw
  | multirange here h ih =>
    rw [Value.normal, normalRanges_eq_map]
    refine .multirange (fun r hr => ?_) fun r hr v hv => ?_
    · obtain ⟨r', -, rfl⟩ := List.mem_map.mp hr
      exact normalRange_plain r'
    · obtain ⟨r', hr', rfl⟩ := List.mem_map.mp hr
      obtain ⟨w, hw, rfl⟩ := mem_bounds_normalRange hv
      exact ih r' hr' w hw

end Value

/-! ## Defaults and slots -/

namespace Shape

mutual

/-- What fresh storage holds is in normal form. -/
theorem normal_default : ∀ shape : Shape, shape.default.normal = shape.default
  | .scalar _ => by rw [default, Value.normal]
  | .optional _ => by rw [default, Value.normal]
  | .array _ => by rw [default, Value.normal, Value.normals]
  | .set _ => by rw [default, Value.normal, Value.normals]
  | .tuple shapes => by rw [default, Value.normal, normals_defaults shapes]
  | .record _ members => by rw [default, Value.normal, normals_defaultRecord members]
  | .range _ => by rw [default, Value.normal, Value.normalRange_of_empty rfl]
  | .multirange _ => by rw [default, Value.normal, Value.normalRanges]

theorem normals_defaults : ∀ shapes : List Shape, Value.normals (defaults shapes) = defaults shapes
  | [] => by rw [defaults, Value.normals]
  | shape :: shapes => by
    rw [defaults, Value.normals, normal_default shape, normals_defaults shapes]

theorem normals_defaultRecord : ∀ members : List (Member Shape),
    Value.normals (defaultRecord members) = defaultRecord members
  | [] => by rw [defaultRecord, Value.normals]
  | ⟨_, _, shape, _⟩ :: members => by
    rw [defaultRecord, Value.normals, normal_default shape, normals_defaultRecord members]

end

end Shape

/-- The slots of a record in normal form hold the normal forms. -/
theorem Record.slot?_normals (rec : Record) (path : StoragePath) :
    Record.slot? (Value.normals rec) path = (rec.slot? path).map Value.normal := by
  induction path generalizing rec with
  | nil => rfl
  | cons i path ih =>
    cases path with
    | nil => rw [Value.normals_eq_map, slot?, slot?, List.getElem?_map]
    | cons j path =>
      simp only [Record.slot?, Value.normals_eq_map, List.getElem?_map]
      cases rec[i]? with
      | none => rfl
      | some v =>
        cases v with
        | record inner =>
          rw [Option.map_some, Value.normal]
          exact ih inner
        | _ =>
          rw [Option.map_some, Value.normal]
          rfl

/-- The fields that cover a value cover its normal form. -/
theorem Codec.Covers.normal {codec : Codec} {shape : Shape} {v : Value}
    (h : codec.Covers shape v) : codec.Covers shape v.normal := by
  induction h with
  | scalar => exact .scalar
  | array h ih =>
    rw [Value.normal, Value.normals_eq_map]
    exact .array (Value.forall_mem_map_normal (fun v hv _ => ih v hv) h)
  | set h ih =>
    rw [Value.normal, Value.normals_eq_map]
    exact .set (Value.forall_mem_map_normal (fun v hv _ => ih v hv) h)
  | tuple h ih =>
    rw [Value.normal, Value.normals_eq_map]
    refine .tuple fun i codec shape v hcodec hshape hv hnull => ?_
    rw [List.getElem?_map] at hv
    obtain ⟨w, hw, rfl⟩ := Option.map_eq_some_iff.mp hv
    exact ih i codec shape w hcodec hshape hw (Value.isNull_normal w ▸ hnull)
  | record others slots ih =>
    rw [Value.normal]
    refine .record (fun path shape hleaf hno => ?_)
      fun b hb path codec shape v htarget hleaf hv hnull => ?_
    · -- fresh storage is in normal form, so a leaf with its default keeps it
      rw [Record.slot?_normals, others path shape hleaf hno, Option.map_some, Shape.normal_default]
    · rw [Record.slot?_normals] at hv
      obtain ⟨w, hw, rfl⟩ := Option.map_eq_some_iff.mp hv
      exact ih b hb path codec shape w htarget hleaf hw (Value.isNull_normal w ▸ hnull)
  | range h ih =>
    rw [Value.normal]
    refine .range fun v hv => ?_
    obtain ⟨w, hw, rfl⟩ := Value.mem_bounds_normalRange hv
    exact ih w hw
  | multirange h ih =>
    rw [Value.normal, Value.normalRanges_eq_map]
    refine .multirange fun r hr v hv => ?_
    obtain ⟨r', hr', rfl⟩ := List.mem_map.mp hr
    obtain ⟨w, hw, rfl⟩ := Value.mem_bounds_normalRange hv
    exact ih r' hr' w hw

/-! ## Payloads -/

section

variable {payload : Value → Except EncodeError Bytes} (h : ∀ v, payload v.normal = payload v)

include h

theorem spell_normal (v : Value) : Element.spell payload v.normal = Element.spell payload v := by
  rw [Element.spell, Element.spell, Value.isNull_normal, h]

theorem spellRequired_normal (what : String) (v : Value) :
    Element.spellRequired what payload v.normal = Element.spellRequired what payload v := by
  rw [Element.spellRequired, Element.spellRequired, Value.isNull_normal, h]

theorem arrayPayload_normals (items : List Value) :
    arrayPayload payload (Value.normals items) = arrayPayload payload items := by
  have heach : ∀ items : List Value,
      spellEach (Element.spellRequired "array element" payload) (Value.normals items) =
        spellEach (Element.spellRequired "array element" payload) items := by
    intro items
    induction items with
    | nil => rw [Value.normals]
    | cons v items ih => rw [Value.normals, spellEach, spellEach, spellRequired_normal h, ih]
  have hlen : (Value.normals items).length = items.length := by
    rw [Value.normals_eq_map, List.length_map]
  rw [arrayPayload, arrayPayload, hlen, heach]

theorem rangePayload_normal (r : Range Value) :
    rangePayload payload (Value.normalRange r) = rangePayload payload r := by
  have hbound : ∀ (what : String) (bound : Option Value),
      spellBound what payload (bound.map Value.normal) = spellBound what payload bound := by
    intro what bound
    cases bound with
    | none => rfl
    | some v => exact spellRequired_normal h what v
  cases hempty : r.empty with
  | true =>
    rw [Value.normalRange_of_empty hempty, rangePayload, rangePayload, hempty]
    rfl
  | false =>
    rw [Value.normalRange_of_not_empty hempty, rangePayload, rangePayload, hempty]
    simp only [hbound, rangeFlags, Option.isNone_map]

theorem multirangePayload_normals (ranges : List (Range Value)) :
    multirangePayload payload (Value.normalRanges ranges) = multirangePayload payload ranges := by
  have heach : ∀ ranges : List (Range Value),
      spellEach (fun r => Element.frame (rangePayload payload r)) (Value.normalRanges ranges) =
        spellEach (fun r => Element.frame (rangePayload payload r)) ranges := by
    intro ranges
    induction ranges with
    | nil => rw [Value.normalRanges]
    | cons r ranges ih =>
      rw [Value.normalRanges, spellEach, spellEach, rangePayload_normal h, ih]
  have hlen : (Value.normalRanges ranges).length = ranges.length := by
    rw [Value.normalRanges_eq_map, List.length_map]
  rw [multirangePayload, multirangePayload, hlen, heach]

end

theorem loadSlot_normals (rec template : Record) (path : StoragePath) :
    loadSlot (Value.normals rec) path template = (loadSlot rec path template).map Value.normal := by
  rw [loadSlot, loadSlot, Record.slot?_normals]
  cases rec.slot? path with
  | none =>
    rw [Value.normals_eq_map, List.length_map, Except.map]
    rfl
  | some v => rfl

theorem countPresent_normals (rec template : Record) (fields : List (BoundField Codec)) :
    countPresent (Value.normals rec) template fields = countPresent rec template fields := by
  induction fields with
  | nil => rw [countPresent, countPresent]
  | cons b fields ih =>
    obtain ⟨name, required, flags, target⟩ := b
    cases target with
    | skip => rw [countPresent, countPresent, ih]
    | slot path shape =>
      rw [countPresent, countPresent, loadSlot_normals, ih]
      cases loadSlot rec path template with
      | error e => rfl
      | ok v => simp only [Except.map, outcome_bind_ok, Value.isNull_normal]

namespace Codec

mutual

/-- A value and its normal form have the same payload. -/
theorem payload_normal : ∀ (codec : Codec) (v : Value), codec.payload v.normal = codec.payload v
  | .scalar _ _, v => by
    cases v <;> rw [Value.normal] <;> simp only [payload] <;> rfl
  | .array _ element, v => by
    have h := payload_normal element
    cases v <;> rw [Value.normal] <;> simp only [payload, arrayPayload_normals h] <;> rfl
  | .set _ element, v => by
    have h := payload_normal element
    cases v <;> rw [Value.normal] <;> simp only [payload, arrayPayload_normals h] <;> rfl
  | .tuple _ elements, v => by
    have h := itemsPayload_normals elements
    have hlen : ∀ items : List Value, (Value.normals items).length = items.length := fun items => by
      rw [Value.normals_eq_map, List.length_map]
    cases v <;> rw [Value.normal] <;> simp only [payload, hlen, h] <;> rfl
  | .record _ layout fields template, v => by
    cases v with
    | record rec =>
      rw [Value.normal]
      cases layout with
      | named | output => simp only [payload, fieldsPayload_normals _ rec template fields]
      | input =>
        simp only [payload, countPresent_normals rec template fields,
          presentPayload_normals rec template 0 fields]
    | _ => rw [Value.normal] <;> simp only [payload] <;> rfl
  | .range _ element, v => by
    have h := payload_normal element
    cases v <;> rw [Value.normal] <;> simp only [payload, rangePayload_normal h] <;> rfl
  | .multirange _ element, v => by
    have h := payload_normal element
    cases v <;> rw [Value.normal] <;> simp only [payload, multirangePayload_normals h] <;> rfl

theorem itemsPayload_normals : ∀ (codecs : List Codec) (items : List Value),
    itemsPayload codecs (Value.normals items) = itemsPayload codecs items
  | codec :: codecs, item :: items => by
    rw [Value.normals, itemsPayload, itemsPayload,
      spellRequired_normal (payload_normal codec), itemsPayload_normals codecs items]
  | [], _ => by simp only [itemsPayload]
  | _ :: _, [] => by rw [Value.normals]

theorem fieldsPayload_normals (layout : RecordLayout) (rec template : Record) :
    ∀ fields : List (BoundField Codec),
      fieldsPayload layout (Value.normals rec) template fields =
        fieldsPayload layout rec template fields
  | [] => by rw [fieldsPayload, fieldsPayload]
  | ⟨_, _, _, .skip⟩ :: fields => by
    rw [fieldsPayload, fieldsPayload, fieldsPayload_normals layout rec template fields]
  | ⟨name, required, _, .slot path codec⟩ :: fields => by
    rw [fieldsPayload, fieldsPayload, loadSlot_normals,
      fieldsPayload_normals layout rec template fields]
    cases loadSlot rec path template with
    | error e => rfl
    | ok v =>
      have h := payload_normal codec
      cases required <;>
        simp only [Except.map, outcome_bind_ok, Element.spellField, spell_normal h,
          spellRequired_normal h]

theorem presentPayload_normals (rec template : Record) :
    ∀ (index : Nat) (fields : List (BoundField Codec)),
      presentPayload (Value.normals rec) template index fields =
        presentPayload rec template index fields
  | _, [] => by rw [presentPayload, presentPayload]
  | index, ⟨_, _, _, .skip⟩ :: fields => by
    rw [presentPayload, presentPayload, presentPayload_normals rec template (index + 1) fields]
  | index, ⟨_, _, _, .slot path codec⟩ :: fields => by
    rw [presentPayload, presentPayload, loadSlot_normals,
      presentPayload_normals rec template (index + 1) fields]
    cases loadSlot rec path template with
    | error e => rfl
    | ok v =>
      simp only [Except.map, outcome_bind_ok, Value.isNull_normal,
        spell_normal (payload_normal codec)]

end

end Codec

end TypedWire
