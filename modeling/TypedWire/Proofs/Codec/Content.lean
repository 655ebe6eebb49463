import TypedWire.Proofs.Codec.Entries
import TypedWire.Proofs.Wire.Agree

/-!
# What bytes say

Two values may say the same though they are laid out for two shapes: records have slots of their
own, and elements are an array or a set. What they say is what the bytes say, so the two are
compared over the bytes, part by part. Codecs whose parts agree on this agree on it themselves.

- `tuplePayloads`, `multirangePayloads`, `Codec.sentFields`: the payloads of the parts of a payload,
  with nothing said of what they hold.
- `Codec.SameContent`: two values of two codecs of one type say what a payload says.
- `Codec.FieldsAgree.fieldStores`: fields that agree ask for stores that agree.
- `Codec.agree_items`, `Codec.agree_tuple`, `Codec.agree_range`, `Codec.agree_multirange`: codecs
  whose parts agree.
-/

namespace TypedWire

open Read (Agree AgreeOn)

/-! ## The parts of a payload -/

/-- The payloads of the items of a tuple. -/
def tuplePayloads (count : Nat) : Read DecodeError (List Bytes) := do
  expectCount count
  Read.times count do
    Read.skip 4
    Element.required "tuple element" Read.rest

/-- The payloads of the ranges of a multirange. -/
def multirangePayloads : Read DecodeError (List Bytes) := do
  let count ← Read.uint32
  Read.times count.toNat (Element.required "range" Read.rest)

/-- What is sent for the field at a position: the position and a payload, if the field is present
and has a slot. -/
def BoundField.sent (layout : RecordLayout) (k : Nat) (b : BoundField Codec) :
    Read DecodeError (Option (Nat × Bytes)) :=
  match b.target with
  | .skip => do
    layout.skip
    return none
  | .slot _ _ => do
    let payload ← Element.read Read.rest
    return payload.map fun payload => (k, payload)

namespace Codec

/-- What is sent for a field where every field is sent. -/
def denseSent (layout : RecordLayout) (k : Nat) (b : BoundField Codec) :
    Read DecodeError (Option (Nat × Bytes)) := do
  Read.skip 4
  b.sent layout k

/-- What is sent for the field that is named by its position. -/
def sparseSent (fields : List (BoundField Codec)) : Read DecodeError (Option (Nat × Bytes)) := do
  let index ← Read.uint32
  match fields[index.toNat]? with
  | some b => b.sent .input index.toNat
  | none => throw (.invalidIndex index)

/-- The positions and payloads of the fields that are present and have slots, in the order of the
wire. Of a field only whether it has a slot counts. -/
def sentFields (layout : RecordLayout) (fields : List (BoundField Codec)) :
    Read DecodeError (List (Nat × Bytes)) :=
  match layout with
  | .named | .output => do
    expectCount fields.length
    Read.somes (fields.mapIdx (denseSent layout))
  | .input => do
    let present ← Read.uint32
    Read.somes (List.replicate present.toNat (sparseSent fields))

/-- The field at a position goes to the path. -/
def GoesTo (fields : List (BoundField Codec)) (path : StoragePath) (k : Nat) : Prop :=
  ∃ b codec, fields[k]? = some b ∧ b.target = .slot path codec

end Codec

/-! ## Values that say the same -/

/-- The codec of the elements of an array or a set. -/
def Codec.element? : Codec → Option Codec
  | .array _ element | .set _ element => some element
  | _ => none

/-- The elements of an array or a set. -/
def Value.items? : Value → Option (List Value)
  | .array items | .set items => some items
  | _ => none

/-- Two ranges with the same flags, and bounds on the same sides. -/
structure Range.SameForm {α β : Type} (r : Range α) (r' : Range β) : Prop where
  empty : r.empty = r'.empty
  incLower : r.incLower = r'.incLower
  incUpper : r.incUpper = r'.incUpper
  lower : r.lower.isSome = r'.lower.isSome
  upper : r.upper.isSome = r'.upper.isSome

/-- A record that was read: the fields of its codec, its fresh storage, and what that became. -/
structure Filling where
  fields : List (BoundField Codec)
  template : Record
  filled : Record

namespace Codec

mutual

/-- Values of two codecs of one type that both say what a payload says. Their parts say what the
payloads of the parts say. Records need not have the same slots, but the slots of each field of the
wire say the same. -/
inductive SameContent : Codec → Codec → Bytes → Value → Value → Prop
  | scalar {id : Uuid} {type : ScalarType} {bs left : Bytes} {s : Scalar}
      (read : type.read bs = .ok (s, left)) :
      SameContent (.scalar id type) (.scalar id type) bs (.scalar s) (.scalar s)
  /-- An array says the same as a set of the same elements in the same order. -/
  | items {codec codec' element element' : Codec} {bs left : Bytes} {payloads : List Bytes}
      {v v' : Value} {items items' : List Value}
      (parts : arrayItems Read.rest bs = .ok (payloads, left))
      (hcodec : codec.element? = some element) (hcodec' : codec'.element? = some element')
      (hv : v.items? = some items) (hv' : v'.items? = some items')
      (length : items.length = payloads.length) (length' : items'.length = payloads.length)
      (h : ∀ (i : Nat) payload a b, payloads[i]? = some payload → items[i]? = some a →
        items'[i]? = some b → SameContent element element' payload a b) :
      SameContent codec codec' bs v v'
  | tuple {id : Uuid} {elements elements' : List Codec} {bs left : Bytes} {payloads : List Bytes}
      {items items' : List Value}
      (parts : tuplePayloads elements.length bs = .ok (payloads, left))
      (length : items.length = payloads.length) (length' : items'.length = payloads.length)
      (h : ∀ (i : Nat) codec codec' payload a b, elements[i]? = some codec →
        elements'[i]? = some codec' → payloads[i]? = some payload → items[i]? = some a →
          items'[i]? = some b → SameContent codec codec' payload a b) :
      SameContent (.tuple id elements) (.tuple id elements') bs (.tuple items) (.tuple items')
  | record {id : Uuid} {layout : RecordLayout} {fields fields' : List (BoundField Codec)}
      {template template' rec rec' : Record} {bs left : Bytes} {sent : List (Nat × Bytes)}
      (parts : sentFields layout fields bs = .ok (sent, left))
      (length : fields.length = fields'.length)
      (slots : ∀ (k : Nat) b b', fields[k]? = some b → fields'[k]? = some b' →
        SameSlot sent ⟨fields, template, rec⟩ ⟨fields', template', rec'⟩ b.target b'.target) :
      SameContent (.record id layout fields template) (.record id layout fields' template') bs
        (.record rec) (.record rec')
  | range {id : Uuid} {element element' : Codec} {bs left : Bytes} {bounds : Range Bytes}
      {r r' : Range Value} (parts : rangeOf Read.rest bs = .ok (bounds, left))
      (form : bounds.SameForm r) (form' : bounds.SameForm r')
      (lower : ∀ payload a b, bounds.lower = some payload → r.lower = some a →
        r'.lower = some b → SameContent element element' payload a b)
      (upper : ∀ payload a b, bounds.upper = some payload → r.upper = some a →
        r'.upper = some b → SameContent element element' payload a b) :
      SameContent (.range id element) (.range id element') bs (.range r) (.range r')
  | multirange {id : Uuid} {element element' : Codec} {bs left : Bytes} {payloads : List Bytes}
      {ranges ranges' : List (Range Value)}
      (parts : multirangePayloads bs = .ok (payloads, left))
      (length : ranges.length = payloads.length) (length' : ranges'.length = payloads.length)
      (h : ∀ (i : Nat) payload r r', payloads[i]? = some payload → ranges[i]? = some r →
        ranges'[i]? = some r' →
          SameContent (.range id element) (.range id element') payload (.range r) (.range r')) :
      SameContent (.multirange id element) (.multirange id element') bs (.multirange ranges)
        (.multirange ranges')

/-- The two slots of a field of the wire say the same. Fields of one name share their slot, and an
argument may be sent with a field twice: if something was sent that goes to the slot, both hold what
the last such payload says, and otherwise both were left fresh. -/
inductive SameSlot : List (Nat × Bytes) → Filling → Filling → Target Codec → Target Codec → Prop
  | skip {sent : List (Nat × Bytes)} {r r' : Filling} : SameSlot sent r r' .skip .skip
  | present {sent : List (Nat × Bytes)} {r r' : Filling} {path path' : StoragePath}
      {codec codec' last last' : Codec} {i k : Nat} {payload : Bytes} {b b' : BoundField Codec}
      {v v' : Value}
      (entry : sent[i]? = some (k, payload)) (field : r.fields[k]? = some b)
      (field' : r'.fields[k]? = some b') (target : b.target = .slot path last)
      (target' : b'.target = .slot path' last')
      (final : ∀ (j : Nat) later, i < j → sent[j]? = some later → ¬GoesTo r.fields path later.1)
      (final' : ∀ (j : Nat) later, i < j → sent[j]? = some later → ¬GoesTo r'.fields path' later.1)
      (holds : r.filled.slot? path = some v) (holds' : r'.filled.slot? path' = some v')
      (same : SameContent last last' payload v v') :
      SameSlot sent r r' (.slot path codec) (.slot path' codec')
  | absent {sent : List (Nat × Bytes)} {r r' : Filling} {path path' : StoragePath}
      {codec codec' : Codec}
      (nothing : ∀ entry ∈ sent, ¬GoesTo r.fields path entry.1)
      (nothing' : ∀ entry ∈ sent, ¬GoesTo r'.fields path' entry.1)
      (fresh : r.filled.slot? path = r.template.slot? path)
      (fresh' : r'.filled.slot? path' = r'.template.slot? path') :
      SameSlot sent r r' (.slot path codec) (.slot path' codec')

end

end Codec

/-! ## Elements, arrays and ranges -/

section

variable {α β : Type} {same : Bytes → α → β → Prop} {p : Read DecodeError α}
  {q : Read DecodeError β}

theorem Element.agree_read (h : AgreeOn p q same) :
    Agree (read Read.rest) (read p) (read q) (Found same) Eq := by
  refine .bind_same (fun _ => rfl) fun found => ?_
  cases found with
  | none => exact .pure .absent
  | some bytes => exact (h.toEnd.inside bytes).map fun _ _ _ hsame => .present hsame

theorem Element.agree_required (what : String) (h : AgreeOn p q same) :
    Agree (required what Read.rest) (required what p) (required what q) same Eq := by
  refine (agree_read h).bind fun c a b hfound => ?_
  cases hfound with
  | absent => exact .throw rfl _
  | present hsame => exact .pure hsame

theorem agree_arrayItems (h : AgreeOn p q same) :
    Agree (arrayItems Read.rest) (arrayItems p) (arrayItems q) (Aligned same) Eq := by
  refine .bind_same (fun _ => rfl) fun dimensions => .bind_same (fun _ => rfl) fun _ => ?_
  split
  · exact .pure .nil
  · split
    · refine .bind_same (fun _ => rfl) fun upper => .bind_same (fun _ => rfl) fun lower => ?_
      dsimp only
      split
      · exact .throw_bind rfl _
      · exact (Element.agree_required _ h).times _
    · exact .throw rfl _

theorem agree_rangeBound (what : String) (isThere : Bool) (h : AgreeOn p q same) :
    Agree (rangeBound what isThere Read.rest) (rangeBound what isThere p)
      (rangeBound what isThere q) (Found same) Eq := by
  unfold rangeBound
  cases isThere with
  | true => exact (Element.agree_required what h).map fun _ _ _ hsame => .present hsame
  | false => exact .pure .absent

/-- Ranges of the same form whose bounds are related. -/
structure Range.Related (same : Bytes → α → β → Prop) (bounds : Range Bytes) (r : Range α)
    (r' : Range β) : Prop where
  form : bounds.SameForm r
  form' : bounds.SameForm r'
  lower : ∀ payload a b, bounds.lower = some payload → r.lower = some a → r'.lower = some b →
    same payload a b
  upper : ∀ payload a b, bounds.upper = some payload → r.upper = some a → r'.upper = some b →
    same payload a b

theorem Found.isSome {c : Option Bytes} {a : Option α} {b : Option β} (h : Found same c a b) :
    c.isSome = a.isSome ∧ c.isSome = b.isSome := by
  cases h <;> exact ⟨rfl, rfl⟩

theorem Found.related {c : Option Bytes} {a : Option α} {b : Option β} (h : Found same c a b) :
    ∀ payload x y, c = some payload → a = some x → b = some y → same payload x y := by
  cases h with
  | absent => exact fun _ _ _ hc => nomatch hc
  | present hsame =>
    rintro _ _ _ ⟨⟩ ⟨⟩ ⟨⟩
    exact hsame

theorem agree_rangeOf (h : AgreeOn p q same) :
    Agree (rangeOf Read.rest) (rangeOf p) (rangeOf q) (Range.Related same) Eq := by
  refine .bind_same (fun _ => rfl) fun flags => (agree_rangeBound _ _ h).bind fun _ _ _ hlower =>
    (agree_rangeBound _ _ h).bind fun _ _ _ hupper => .pure ?_
  exact ⟨⟨rfl, rfl, rfl, hlower.isSome.1, hupper.isSome.1⟩,
    ⟨rfl, rfl, rfl, hlower.isSome.2, hupper.isSome.2⟩, hlower.related, hupper.related⟩

theorem agree_multirangeOf {same : Bytes → Range α → Range β → Prop}
    (h : AgreeOn (rangeOf p) (rangeOf q) same) :
    Agree multirangePayloads (multirangeOf p) (multirangeOf q) (Aligned same) Eq :=
  .bind_same (fun _ => rfl) fun _ => (Element.agree_required _ h).times _

end

/-! ## Tuples and records -/

namespace Codec

theorem agree_decodeItems {codecs codecs' : List Codec} (hlen : codecs.length = codecs'.length)
    (h : ∀ (i : Nat) codec codec', codecs[i]? = some codec → codecs'[i]? = some codec' →
      AgreeOn codec.decode codec'.decode (SameContent codec codec')) :
    Agree
      (Read.times codecs.length do
        Read.skip 4
        Element.required "tuple element" Read.rest)
      (decodeItems codecs) (decodeItems codecs') (fun payloads items items' =>
        items.length = payloads.length ∧ items'.length = payloads.length ∧
          ∀ (i : Nat) codec codec' payload a b, codecs[i]? = some codec →
            codecs'[i]? = some codec' → payloads[i]? = some payload → items[i]? = some a →
              items'[i]? = some b → SameContent codec codec' payload a b) Eq := by
  induction codecs generalizing codecs' with
  | nil =>
    obtain rfl := List.eq_nil_of_length_eq_zero hlen.symm
    rw [decodeItems]
    refine .pure ⟨rfl, rfl, ?_⟩
    rintro i codec codec' payload a b ⟨⟩
  | cons codec codecs ih =>
    obtain ⟨codec', codecs', rfl⟩ := List.exists_cons_of_length_eq_add_one hlen.symm
    rw [decodeItems, decodeItems, List.length_cons, Read.times, bind_assoc]
    refine .bind_same (fun _ => rfl) fun _ =>
      (Element.agree_required _ (h 0 codec codec' rfl rfl)).bind fun payload item item' hitem =>
        (ih (Nat.succ.inj hlen) fun i => h (i + 1)).bind fun payloads items items' hitems =>
          .pure ⟨?_, ?_, ?_⟩
    · exact congrArg (· + 1) hitems.1
    · exact congrArg (· + 1) hitems.2.1
    · rintro (_ | i) c c' bytes a b hc hc' hbytes ha hb
      · obtain rfl := Option.some.inj hc
        obtain rfl := Option.some.inj hc'
        obtain rfl := Option.some.inj hbytes
        obtain rfl := Option.some.inj ha
        obtain rfl := Option.some.inj hb
        exact hitem
      · exact hitems.2.2 i c c' bytes a b hc hc' hbytes ha hb

/-- What the payload of a record asks to be stored, with nothing said of the stores before a
failure. -/
def fieldStores (layout : RecordLayout) (fields : List (BoundField Codec)) :
    Read DecodeError (List Store) := do
  Read.somes (← entries layout fields)

theorem somes_eq_reads (rows : List (Read DecodeError (Option Store))) (bs : Bytes) :
    Read.somes rows bs = (collect rows bs).reads.mapError Interrupted.cause := by
  induction rows generalizing bs with
  | nil => rfl
  | cons row rows ih =>
    rw [Read.somes, collect]
    cases hrow : row bs with
    | error e =>
      rw [Read.bind_of_error hrow]
      rfl
    | ok r =>
      obtain ⟨found, left⟩ := r
      have hrest := ih left
      rw [Read.bind_of_ok hrow]
      dsimp only
      generalize collect rows left = rest at hrest ⊢
      obtain ⟨stores, unread, failure⟩ := rest
      cases failure with
      | none =>
        rw [Read.bind_of_ok hrest]
        rfl
      | some e =>
        rw [Read.bind_of_error hrest]
        rfl

/-- Reading a record gives its stores, or fails for the reason for which they cannot be read. -/
theorem fieldStores_eq (layout : RecordLayout) (fields : List (BoundField Codec)) (bs : Bytes) :
    fieldStores layout fields bs =
      (recordReads layout fields bs).mapError Interrupted.cause := by
  rw [recordReads_eq, fieldStores, collected]
  cases hrows : entries layout fields bs with
  | error e =>
    rw [Read.bind_of_error hrows]
    rfl
  | ok r =>
    rw [Read.bind_of_ok hrows]
    exact somes_eq_reads r.1 r.2

theorem recordReads_of_ok {layout : RecordLayout} {fields : List (BoundField Codec)}
    {bs left : Bytes} {stores : List Store}
    (h : fieldStores layout fields bs = .ok (stores, left)) :
    recordReads layout fields bs = .ok (stores, left) := by
  rw [fieldStores_eq] at h
  cases hreads : recordReads layout fields bs with
  | ok r =>
    rw [hreads] at h
    exact congrArg Except.ok (Except.ok.inj h)
  | error i =>
    rw [hreads] at h
    cases h

theorem recordReads_of_error {layout : RecordLayout} {fields : List (BoundField Codec)}
    {bs : Bytes} {e : DecodeError} (h : fieldStores layout fields bs = .error e) :
    ∃ i, recordReads layout fields bs = .error i ∧ i.cause = e := by
  rw [fieldStores_eq] at h
  cases hreads : recordReads layout fields bs with
  | ok r =>
    rw [hreads] at h
    cases h
  | error i =>
    rw [hreads] at h
    exact ⟨i, rfl, Except.error.inj h⟩

/-- What is stored in two records for one part of what was sent: the field at its position goes to
both slots, and both values say what its payload says. -/
def SameStore (fields fields' : List (BoundField Codec)) (part : Nat × Bytes) (st st' : Store) :
    Prop :=
  ∃ (b b' : BoundField Codec) (codec codec' : Codec), fields[part.1]? = some b ∧
    fields'[part.1]? = some b' ∧ b.target = .slot st.path codec ∧
      b'.target = .slot st'.path codec' ∧ SameContent codec codec' part.2 st.value st'.value

/-- Two targets that take what the wire says alike. -/
inductive TargetsAgree : Target Codec → Target Codec → Prop
  | skip : TargetsAgree .skip .skip
  | slot {path path' : StoragePath} {codec codec' : Codec}
      (h : AgreeOn codec.decode codec'.decode (SameContent codec codec')) :
      TargetsAgree (.slot path codec) (.slot path' codec')

/-- Fields that take what the wire says alike. -/
structure FieldsAgree (fields fields' : List (BoundField Codec)) : Prop where
  length : fields.length = fields'.length
  name : ∀ (k : Nat) b b', fields[k]? = some b → fields'[k]? = some b' → b.name = b'.name
  required : ∀ (k : Nat) b b', fields[k]? = some b → fields'[k]? = some b' →
    b.required = b'.required
  target : ∀ (k : Nat) b b', fields[k]? = some b → fields'[k]? = some b' →
    TargetsAgree b.target b'.target

section

variable {fields fields' : List (BoundField Codec)}

/-- One field that is sent is stored alike. -/
theorem FieldsAgree.entry (h : FieldsAgree fields fields') (layout : RecordLayout) {k : Nat}
    {b b' : BoundField Codec} (hb : fields[k]? = some b) (hb' : fields'[k]? = some b') :
    Agree (b.sent layout k) (b.entry layout) (b'.entry layout)
      (Found (SameStore fields fields')) Eq := by
  have htargets := h.target k b b' hb hb'
  unfold BoundField.sent BoundField.entry
  cases htarget : b.target with
  | skip =>
    rw [htarget] at htargets
    generalize b'.target = target' at htargets ⊢
    cases htargets
    exact .bind_same (fun _ => rfl) fun _ => .pure .absent
  | slot path codec =>
    rw [htarget] at htargets
    cases htarget' : b'.target with
    | skip =>
      rw [htarget'] at htargets
      cases htargets
    | slot path' codec' =>
      rw [htarget'] at htargets
      cases htargets with
      | slot hcodec =>
        refine (Element.agree_read hcodec).bind fun payload v v' hfound => ?_
        cases hfound with
        | present hsame =>
          exact .pure (.present ⟨b, b', codec, codec', hb, hb', htarget, htarget', hsame⟩)
        | absent =>
          -- absence is refused by what the type says of the field, which is not that of the shapes
          dsimp only
          rw [h.name k b b' hb hb', h.required k b b' hb hb']
          split
          · exact .throw rfl _
          · exact .pure .absent

theorem FieldsAgree.dense (h : FieldsAgree fields fields') (layout : RecordLayout) :
    Aligned (fun r p q => Agree r p q (Found (SameStore fields fields')) Eq)
      (fields.mapIdx (denseSent layout)) (fields.map (denseEntry layout))
      (fields'.map (denseEntry layout)) := by
  refine .of_getElem? ?_ ?_ fun k r p q hr hp hq => ?_
  · rw [List.length_map, List.length_mapIdx]
  · rw [List.length_map, List.length_mapIdx, h.length]
  · rw [List.getElem?_mapIdx] at hr
    rw [List.getElem?_map] at hp hq
    obtain ⟨b, hb, rfl⟩ := Option.map_eq_some_iff.mp hp
    obtain ⟨b', hb', rfl⟩ := Option.map_eq_some_iff.mp hq
    rw [hb] at hr
    obtain rfl := Option.some.inj hr
    exact .bind_same (fun _ => rfl) fun _ => h.entry layout hb hb'

theorem FieldsAgree.sparse (h : FieldsAgree fields fields') :
    Agree (sparseSent fields) (sparseEntry fields) (sparseEntry fields')
      (Found (SameStore fields fields')) Eq := by
  refine .bind_same (fun _ => rfl) fun index => ?_
  cases hb : fields[index.toNat]? with
  | none =>
    rw [List.getElem?_eq_none_iff, h.length, ← List.getElem?_eq_none_iff] at hb
    rw [hb]
    exact .throw rfl _
  | some b =>
    have hlt : index.toNat < fields'.length := h.length ▸ (List.getElem?_eq_some_iff.mp hb).1
    rw [List.getElem?_eq_getElem hlt]
    exact h.entry .input hb (List.getElem?_eq_getElem hlt)

/-- Fields that agree ask for stores that agree, or fail for the same reason. -/
theorem FieldsAgree.fieldStores (h : FieldsAgree fields fields') (layout : RecordLayout) :
    Agree (sentFields layout fields) (fieldStores layout fields) (fieldStores layout fields')
      (Aligned (SameStore fields fields')) Eq := by
  unfold sentFields Codec.fieldStores entries
  cases layout with
  | named | output =>
    dsimp only
    rw [bind_assoc, bind_assoc, ← h.length]
    exact .bind_same (fun _ => rfl) fun _ => .somes (h.dense _)
  | input =>
    dsimp only
    rw [bind_assoc, bind_assoc, ← h.length]
    refine .bind_same (fun _ => rfl) fun present => ?_
    split
    · exact .throw_bind rfl _
    · refine .somes (.replicate ?_ _)
      exact h.sparse

end

theorem SameStore.path_eq {fields fields' : List (BoundField Codec)} {part : Nat × Bytes}
    {st st' : Store} (h : SameStore fields fields' part st st') {path : StoragePath}
    (hgoes : GoesTo fields path part.1) : st.path = path := by
  obtain ⟨b, _, codec, _, hb, -, htarget, -, -⟩ := h
  obtain ⟨c, codec', hc, hgoes⟩ := hgoes
  obtain rfl := Option.some.inj (hb.symm.trans hc)
  exact (Target.slot.inj (htarget.symm.trans hgoes)).1

theorem SameStore.path_eq' {fields fields' : List (BoundField Codec)} {part : Nat × Bytes}
    {st st' : Store} (h : SameStore fields fields' part st st') {path : StoragePath}
    (hgoes : GoesTo fields' path part.1) : st'.path = path := by
  obtain ⟨_, b, _, codec, -, hb, -, htarget, -⟩ := h
  obtain ⟨c, codec', hc, hgoes⟩ := hgoes
  obtain rfl := Option.some.inj (hb.symm.trans hc)
  exact (Target.slot.inj (htarget.symm.trans hgoes)).1

end Codec

/-! ## Codecs of parts that agree -/

namespace Codec

/-- A codec of elements decodes them, and makes an array or a set of them. -/
theorem exists_decode_items {codec element : Codec} (h : codec.element? = some element) :
    ∃ make : List Value → Value, codec.decode = make <$> arrayItems element.decode ∧
      ∀ items, (make items).items? = some items := by
  cases codec with
  | array id e =>
    obtain rfl := Option.some.inj h
    exact ⟨.array, by rw [decode], fun _ => rfl⟩
  | set id e =>
    obtain rfl := Option.some.inj h
    exact ⟨.set, by rw [decode], fun _ => rfl⟩
  | _ => cases h

/-- Codecs of elements that agree make codecs of arrays and sets that agree. -/
theorem agree_items {codec codec' element element' : Codec}
    (hcodec : codec.element? = some element) (hcodec' : codec'.element? = some element')
    (h : AgreeOn element.decode element'.decode (SameContent element element')) :
    AgreeOn codec.decode codec'.decode (SameContent codec codec') := by
  obtain ⟨make, hdecode, hmake⟩ := exists_decode_items hcodec
  obtain ⟨make', hdecode', hmake'⟩ := exists_decode_items hcodec'
  have hitems : AgreeOn (arrayItems element.decode) (arrayItems element'.decode)
      fun bs items items' => SameContent codec codec' bs (make items) (make' items') :=
    (agree_arrayItems h).on fun bs payloads items items' left hparts hitems =>
      .items hparts hcodec hcodec' (hmake items) (hmake' items') hitems.length.1 hitems.length.2
        fun i payload a b => hitems.getElem?
  rw [hdecode, hdecode']
  exact hitems.map fun _ _ _ hsame => hsame

/-- Codecs of bounds that agree make codecs of ranges that agree. -/
theorem agree_range (id : Uuid) {element element' : Codec}
    (h : AgreeOn element.decode element'.decode (SameContent element element')) :
    AgreeOn (rangeOf element.decode) (rangeOf element'.decode) fun bs r r' =>
      SameContent (.range id element) (.range id element') bs (.range r) (.range r') :=
  (agree_rangeOf h).on fun _ _ _ _ _ hparts hr =>
    .range hparts hr.form hr.form' hr.lower hr.upper

/-- Codecs of bounds that agree make codecs of multiranges that agree. -/
theorem agree_multirange (id : Uuid) {element element' : Codec}
    (h : AgreeOn element.decode element'.decode (SameContent element element')) :
    AgreeOn (Codec.multirange id element).decode (Codec.multirange id element').decode
      (SameContent (.multirange id element) (.multirange id element')) := by
  have hranges : AgreeOn (multirangeOf element.decode) (multirangeOf element'.decode)
      fun bs ranges ranges' => SameContent (.multirange id element) (.multirange id element') bs
        (.multirange ranges) (.multirange ranges') :=
    (agree_multirangeOf (agree_range id h)).on fun _ _ _ _ _ hparts hranges =>
      .multirange hparts hranges.length.1 hranges.length.2 fun _ _ _ _ => hranges.getElem?
  rw [decode, decode]
  exact hranges.map fun _ _ _ hsame => hsame

/-- Codecs of items that agree make codecs of tuples that agree. -/
theorem agree_tuple (id : Uuid) {codecs codecs' : List Codec}
    (hlen : codecs.length = codecs'.length)
    (h : ∀ (i : Nat) codec codec', codecs[i]? = some codec → codecs'[i]? = some codec' →
      AgreeOn codec.decode codec'.decode (SameContent codec codec')) :
    AgreeOn (Codec.tuple id codecs).decode (Codec.tuple id codecs').decode
      (SameContent (.tuple id codecs) (.tuple id codecs')) := by
  have hdecode : ∀ codecs : List Codec, (Codec.tuple id codecs).decode =
      Value.tuple <$> (expectCount codecs.length >>= fun _ => decodeItems codecs) := by
    intro codecs
    rw [decode, map_bind]
  have hitems : AgreeOn (expectCount codecs.length >>= fun _ => decodeItems codecs)
      (expectCount codecs.length >>= fun _ => decodeItems codecs') fun bs items items' =>
        SameContent (.tuple id codecs) (.tuple id codecs') bs (.tuple items) (.tuple items') :=
    Agree.on (.bind_same (fun _ => rfl) fun _ => agree_decodeItems hlen h)
      fun _ _ _ _ _ hparts hitems => .tuple hparts hitems.1 hitems.2.1 hitems.2.2
  rw [hdecode, hdecode, ← hlen]
  exact hitems.map fun _ _ _ hsame => hsame

end Codec

end TypedWire
