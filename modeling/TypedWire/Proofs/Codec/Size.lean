import Mathlib.Algebra.GroupWithZero.Nat
import TypedWire.Proofs.Codec.Payload
import TypedWire.Proofs.Shape.Conforms

/-!
# How long payloads are

The length of a payload is known without writing it. Only a payload whose length four bytes cannot
say is too long to be written.

- `Sized out n`: the bytes of an outcome, if there are any, and what its being too long means.
- `Codec.size`: how many bytes the payload of a value takes.
- `Codec.sized_payload`: payloads have this size.
-/

namespace TypedWire

/-- The bytes of the outcome are `n`. If it has none because something is too long, `n` is more than
four bytes can count. -/
structure Sized (out : Except EncodeError Bytes) (n : Nat) : Prop where
  length : ∀ {bytes : Bytes}, out = .ok bytes → bytes.length = n
  tooLong : ∀ {length : Nat}, out = .error (.tooLong length) → UInt32.size ≤ n

namespace Sized

variable {α : Type} {out : Except EncodeError Bytes} {n m : Nat}

theorem ok {bytes : Bytes} (h : bytes.length = n) : Sized (.ok bytes) n where
  length hbytes := Except.ok.inj hbytes ▸ h
  tooLong h := nomatch h

/-- A failure over something else says nothing about lengths. -/
theorem error {e : EncodeError} (h : ∀ length, e ≠ .tooLong length) : Sized (.error e) n where
  length h := nomatch h
  tooLong he := (h _ (Except.error.inj he)).elim

/-- What is too long in a part is too long in the whole. -/
theorem bind {f : Bytes → Except EncodeError Bytes} (h : Sized out n) (hle : n ≤ m)
    (hf : ∀ bytes, bytes.length = n → Sized (f bytes) m) : Sized (out >>= f) m where
  length hbytes := by
    obtain ⟨first, hfirst, hrest⟩ := outcome_bind_eq_ok.mp hbytes
    exact (hf first (h.length hfirst)).length hrest
  tooLong he := by
    rcases outcome_bind_eq_error.mp he with hfirst | ⟨first, hfirst, hrest⟩
    · exact Nat.le_trans (h.tooLong hfirst) hle
    · exact (hf first (h.length hfirst)).tooLong hrest

/-- What comes before the bytes may fail, but not over a length. -/
theorem of_bind {x : Except EncodeError α} {f : α → Except EncodeError Bytes}
    (hx : ∀ length, x ≠ .error (.tooLong length)) (hf : ∀ a, x = .ok a → Sized (f a) n) :
    Sized (x >>= f) n where
  length hbytes := by
    obtain ⟨a, ha, hrest⟩ := outcome_bind_eq_ok.mp hbytes
    exact (hf a ha).length hrest
  tooLong he := by
    rcases outcome_bind_eq_error.mp he with hfirst | ⟨a, ha, hrest⟩
    · exact (hx _ hfirst).elim
    · exact (hf a ha).tooLong hrest

/-- Some bytes and then those of an outcome. -/
theorem after (front : Bytes) (h : Sized out n) :
    Sized (do return front ++ (← out)) (front.length + n) :=
  h.bind (Nat.le_add_left ..) fun bytes hbytes => ok (by rw [List.length_append, hbytes])

/-- The bytes of two outcomes. -/
theorem append {out' : Except EncodeError Bytes} (h : Sized out n) (h' : Sized out' m) :
    Sized (do return (← out) ++ (← out')) (n + m) :=
  h.bind (Nat.le_add_right ..) fun bytes hbytes => hbytes ▸ h'.after bytes

end Sized

/-! ## Elements, arrays and ranges -/

/-- The bytes of an element. -/
def Element.size (size : Value → Nat) (v : Value) : Nat :=
  4 + if v.isNull then 0 else size v

/-- The bytes of an array. -/
def arraySize (size : Value → Nat) (items : List Value) : Nat :=
  20 + (items.map (Element.size size)).sum

/-- The bytes of a range. -/
def rangeSize (size : Value → Nat) (r : Range Value) : Nat :=
  if r.empty then 1 else 1 + (r.bounds.map (Element.size size)).sum

/-- The bytes of a multirange. -/
def multirangeSize (size : Value → Nat) (ranges : List (Range Value)) : Nat :=
  4 + (ranges.map fun r => 4 + rangeSize size r).sum

section

variable {payload : Value → Except EncodeError Bytes} {size : Value → Nat}

theorem sized_frame {out : Except EncodeError Bytes} {n : Nat} (h : Sized out n) :
    Sized (Element.frame out) (4 + n) := by
  refine h.bind (Nat.le_add_left ..) fun bytes hbytes => ?_
  unfold lengthPrefix
  split
  · refine .ok ?_
    rw [List.length_append, BigEndian.length_encode, hbytes]
  · refine ⟨nofun, fun _ => ?_⟩
    omega

theorem sized_spell {v : Value} (h : Sized (payload v) (size v)) :
    Sized (Element.spell payload v) (Element.size size v) := by
  unfold Element.spell Element.size
  split
  · exact .ok rfl
  · exact sized_frame h

theorem sized_spellRequired (what : String) {v : Value} (h : Sized (payload v) (size v)) :
    Sized (Element.spellRequired what payload v) (Element.size size v) := by
  unfold Element.spellRequired Element.size
  split
  · exact .error nofun
  · exact sized_frame h

theorem sized_spellField (name : String) (required : Bool) {v : Value}
    (h : Sized (payload v) (size v)) :
    Sized (Element.spellField name required payload v) (Element.size size v) := by
  unfold Element.spellField
  split
  · exact sized_spellRequired name h
  · exact sized_spell h

theorem sized_each {α : Type} {spell : α → Except EncodeError Bytes} {size : α → Nat}
    {items : List α} (h : ∀ a ∈ items, Sized (spell a) (size a)) :
    Sized (spellEach spell items) (items.map size).sum := by
  induction items with
  | nil => exact .ok rfl
  | cons a items ih =>
    obtain ⟨ha, hitems⟩ := List.forall_mem_cons.mp h
    rw [List.map_cons, List.sum_cons]
    exact ha.append (ih hitems)

/-- An element takes the four bytes of its length at least. -/
theorem length_le_sum_size (size : Value → Nat) (items : List Value) :
    4 * items.length ≤ (items.map (Element.size size)).sum := by
  induction items with
  | nil => exact Nat.le_refl 0
  | cons v items ih =>
    rw [List.map_cons, List.sum_cons, List.length_cons, Element.size]
    omega

theorem sized_array (h : ∀ v, Sized (payload v) (size v)) (items : List Value) :
    Sized (arrayPayload payload items) (arraySize size items) := by
  unfold arrayPayload arraySize
  split
  · rename_i hnone
    refine ⟨nofun, fun _ => ?_⟩
    -- the count of the elements does not fit in its field, and each of them takes bytes
    have hlong : ¬(Int32.minValue.toInt ≤ (items.length : Int) ∧
        (items.length : Int) ≤ Int32.maxValue.toInt) := by
      intro hfits
      cases hnone.symm.trans (if_pos hfits)
    rw [Int32.toInt_minValue, Int32.toInt_maxValue] at hlong
    have hsum := length_le_sum_size size items
    have hlimit : UInt32.size = 4294967296 := rfl
    omega
  · have hitems := sized_each fun v (_ : v ∈ items) => sized_spellRequired "array element" (h v)
    exact hitems.after (arrayHeader _)

theorem sized_bound (what : String) (h : ∀ v, Sized (payload v) (size v)) (bound : Option Value) :
    Sized (spellBound what payload bound) (bound.toList.map (Element.size size)).sum := by
  cases bound with
  | none => exact .ok rfl
  | some v => exact sized_spellRequired what (h v)

theorem sized_range (h : ∀ v, Sized (payload v) (size v)) (r : Range Value) :
    Sized (rangePayload payload r) (rangeSize size r) := by
  unfold rangePayload rangeSize
  split
  · exact .ok rfl
  · have hlower := sized_bound "range lower bound" h r.lower
    have hupper := sized_bound "range upper bound" h r.upper
    rw [Range.bounds, List.map_append, List.sum_append]
    refine hlower.bind (by omega) fun lower hlen => hupper.bind (by omega) fun upper hlen' => ?_
    refine .ok ?_
    rw [List.length_cons, List.length_append, hlen, hlen']
    omega

theorem sized_multirange (h : ∀ v, Sized (payload v) (size v)) (ranges : List (Range Value)) :
    Sized (multirangePayload payload ranges) (multirangeSize size ranges) :=
  (sized_each fun r _ => sized_frame (sized_range h r)).after (countBytes ranges.length)

end

/-! ## Values -/

/-- The bytes of a scalar. -/
def Scalar.size (s : Scalar) : Nat :=
  match s.payload with
  | .ok content => content.length
  | .error _ => 0

/-- A scalar is never too long by itself. -/
theorem sized_scalar (s : Scalar) : Sized s.payload s.size := by
  unfold Scalar.size
  cases s with
  | datetime m | localDatetime m =>
    rw [Scalar.payload]
    cases m.toMicros? with
    | none => exact .error nofun
    | some n => exact .ok rfl
  | localDate d =>
    rw [Scalar.payload]
    cases d.toWireDays? with
    | none => exact .error nofun
    | some n => exact .ok rfl
  | duration d =>
    rw [Scalar.payload]
    cases d.toMicros? with
    | none => exact .error nofun
    | some n => exact .ok rfl
  | _ => exact .ok rfl

/-- The bytes of a field without a slot, with those that stand before a field. -/
def RecordLayout.skippedSize (layout : RecordLayout) : Nat :=
  if layout = .input then 0 else 4 + layout.skippedBytes.length

/-- The bytes of the field that holds a value, with those that stand before a field. An argument
leaves out the fields that are absent. -/
def RecordLayout.slotSize (layout : RecordLayout) (size : Value → Nat) : Option Value → Nat
  | none => 0
  | some v => if layout = .input ∧ v.isNull then 0 else 4 + Element.size size v

namespace Codec

mutual

/-- How many bytes the payload of a value takes, however many those are. -/
def size : Codec → Value → Nat
  | .scalar _ _, v =>
    match v with
    | .scalar s => s.size
    | _ => 0
  | .array _ element, v =>
    match v with
    | .array items | .set items => arraySize element.size items
    | _ => 0
  | .set _ element, v =>
    match v with
    | .array items | .set items => arraySize element.size items
    | _ => 0
  | .tuple _ elements, v =>
    match v with
    | .tuple items => 4 + itemsSize elements items
    | _ => 0
  | .record _ layout fields _, v =>
    match v with
    | .record rec => 4 + fieldsSize layout rec fields
    | _ => 0
  | .range _ element, v =>
    match v with
    | .range r => rangeSize element.size r
    | _ => 0
  | .multirange _ element, v =>
    match v with
    | .multirange ranges => multirangeSize element.size ranges
    | _ => 0

/-- The bytes of the items of a tuple. -/
def itemsSize : List Codec → List Value → Nat
  | codec :: codecs, item :: items => 4 + Element.size codec.size item + itemsSize codecs items
  | _, _ => 0

/-- The bytes of the fields of a record. -/
def fieldsSize (layout : RecordLayout) (rec : Record) : List (BoundField Codec) → Nat
  | [] => 0
  | ⟨_, _, _, .skip⟩ :: fields => layout.skippedSize + fieldsSize layout rec fields
  | ⟨_, _, _, .slot path codec⟩ :: fields =>
    layout.slotSize codec.size (rec.slot? path) + fieldsSize layout rec fields

end

theorem not_tooLong_loadSlot (rec template : Record) (path : StoragePath) (length : Nat) :
    loadSlot rec path template ≠ .error (.tooLong length) := by
  unfold loadSlot
  split <;> exact nofun

theorem not_tooLong_countPresent (rec template : Record) (fields : List (BoundField Codec))
    (length : Nat) : countPresent rec template fields ≠ .error (.tooLong length) := by
  intro h
  induction fields with
  | nil =>
    rw [countPresent] at h
    cases h
  | cons b fields ih =>
    obtain ⟨name, required, flags, target⟩ := b
    cases target with
    | skip =>
      rw [countPresent] at h
      exact ih h
    | slot path codec =>
      rw [countPresent] at h
      rcases outcome_bind_eq_error.mp h with hload | ⟨v, -, h⟩
      · exact not_tooLong_loadSlot _ _ _ _ hload
      · cases hnull : v.isNull with
        | true =>
          rw [hnull] at h
          cases required with
          | true => cases h
          | false => exact ih h
        | false =>
          rw [hnull] at h
          rcases outcome_bind_eq_error.mp h with hrest | ⟨count, -, h⟩
          · exact ih hrest
          · cases h

mutual

/-- The payload of a value has its size, and is too long to be written only if four bytes cannot
count it. -/
theorem sized_payload : ∀ (codec : Codec) (v : Value), Sized (codec.payload v) (codec.size v)
  | .scalar _ type, v => by
    simp only [payload, size]
    cases v with
    | scalar s =>
      dsimp only
      split
      · exact sized_scalar s
      · exact .error nofun
    | _ => exact .error nofun
  | .array _ element, v => by
    simp only [payload, size]
    cases v with
    | array items | set items => exact sized_array (sized_payload element) items
    | _ => exact .error nofun
  | .set _ element, v => by
    simp only [payload, size]
    cases v with
    | array items | set items => exact sized_array (sized_payload element) items
    | _ => exact .error nofun
  | .tuple _ elements, v => by
    simp only [payload, size]
    cases v with
    | tuple items =>
      dsimp only
      split
      · exact (sized_itemsPayload elements items).after (countBytes items.length)
      · exact .error nofun
    | _ => exact .error nofun
  | .record _ layout fields template, v => by
    simp only [payload, size]
    cases v with
    | record rec =>
      cases layout with
      | named | output =>
        exact (sized_fieldsPayload (by decide) rec template fields).after (countBytes fields.length)
      | input =>
        refine .of_bind (not_tooLong_countPresent rec template fields) fun count _ => ?_
        exact (sized_presentPayload rec template 0 fields).after (countBytes count)
    | _ => exact .error nofun
  | .range _ element, v => by
    simp only [payload, size]
    cases v with
    | range r => exact sized_range (sized_payload element) r
    | _ => exact .error nofun
  | .multirange _ element, v => by
    simp only [payload, size]
    cases v with
    | multirange ranges => exact sized_multirange (sized_payload element) ranges
    | _ => exact .error nofun

theorem sized_itemsPayload : ∀ (codecs : List Codec) (items : List Value),
    Sized (itemsPayload codecs items) (itemsSize codecs items)
  | codec :: codecs, item :: items => by
    rw [itemsPayload, itemsSize]
    have hitem := sized_spellRequired "tuple element" (sized_payload codec item)
    refine hitem.bind (by omega) fun bytes hbytes => ?_
    have hrest := (sized_itemsPayload codecs items).after (List.replicate 4 0 ++ bytes)
    rwa [List.length_append, List.length_replicate, hbytes] at hrest
  | [], _ => by
    simp only [itemsPayload, itemsSize]
    exact .ok rfl
  | _ :: _, [] => by
    simp only [itemsPayload, itemsSize]
    exact .ok rfl

theorem sized_fieldsPayload {layout : RecordLayout} (hlayout : layout ≠ .input)
    (rec template : Record) : ∀ fields : List (BoundField Codec),
      Sized (fieldsPayload layout rec template fields) (fieldsSize layout rec fields)
  | [] => by
    rw [fieldsPayload, fieldsSize]
    exact .ok rfl
  | ⟨_, _, _, .skip⟩ :: fields => by
    rw [fieldsPayload, fieldsSize, RecordLayout.skippedSize, if_neg hlayout]
    have hrest := (sized_fieldsPayload hlayout rec template fields).after
      (List.replicate 4 0 ++ layout.skippedBytes)
    rwa [List.length_append, List.length_replicate] at hrest
  | ⟨name, required, _, .slot path codec⟩ :: fields => by
    rw [fieldsPayload, fieldsSize]
    refine .of_bind (not_tooLong_loadSlot rec template path) fun v hv => ?_
    rw [loadSlot_eq_ok hv, RecordLayout.slotSize, if_neg fun h => hlayout h.1]
    have hfield := sized_spellField name required (sized_payload codec v)
    refine hfield.bind (by omega) fun bytes hbytes => ?_
    have hrest := (sized_fieldsPayload hlayout rec template fields).after
      (List.replicate 4 0 ++ bytes)
    rwa [List.length_append, List.length_replicate, hbytes] at hrest

theorem sized_presentPayload (rec template : Record) :
    ∀ (index : Nat) (fields : List (BoundField Codec)),
      Sized (presentPayload rec template index fields) (fieldsSize .input rec fields)
  | _, [] => by
    rw [presentPayload, fieldsSize]
    exact .ok rfl
  | index, ⟨_, _, _, .skip⟩ :: fields => by
    rw [presentPayload, fieldsSize, RecordLayout.skippedSize, if_pos rfl, Nat.zero_add]
    exact sized_presentPayload rec template (index + 1) fields
  | index, ⟨_, _, _, .slot path codec⟩ :: fields => by
    rw [presentPayload, fieldsSize]
    refine .of_bind (not_tooLong_loadSlot rec template path) fun v hv => ?_
    have hfields := sized_presentPayload rec template (index + 1) fields
    rw [loadSlot_eq_ok hv, RecordLayout.slotSize]
    split
    · rename_i hnull
      rw [if_pos ⟨rfl, hnull⟩, Nat.zero_add]
      exact hfields
    · rename_i hpresent
      rw [if_neg fun h => hpresent h.2]
      refine (sized_spell (sized_payload codec v)).bind (by omega) fun bytes hbytes => ?_
      have hrest := hfields.after (countBytes index ++ bytes)
      rwa [List.length_append, hbytes, countBytes, BigEndian.length_encode] at hrest

end

end Codec

end TypedWire
