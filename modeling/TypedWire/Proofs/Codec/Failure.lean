import TypedWire.Proofs.Binding.Binds
import TypedWire.Proofs.Codec.Covers
import TypedWire.Proofs.Codec.Payload

/-!
# Why encoding fails

A value of the shape that its codec is bound to is encoded, unless a part of it is too long, a part
that the wire needs is absent, or a duration has more microseconds than 64 bits hold.

- `Fails out P`: the failures of an outcome.
- `Codec.Lacks`: where a value lacks a part that the wire needs.
- `Codec.Causes`: the failures that a value of a shape gives cause for.
- `Descriptor.Binds.fails_causes`: a value of the shape fails in no other way.
- `Descriptor.bind_encode_fails`: the same of encoding into any writer.
-/

namespace TypedWire

/-- Every failure of the outcome has the property. -/
def Fails {α : Type} (out : Except EncodeError α) (P : EncodeError → Prop) : Prop :=
  ∀ e, out = .error e → P e

namespace Fails

variable {α β : Type} {P P' : EncodeError → Prop}

theorem ok (a : α) : Fails (.ok a) P := fun _ h => nomatch h

theorem error {e : EncodeError} (h : P e) : Fails (.error e : Except EncodeError α) P :=
  fun _ he => Except.error.inj he ▸ h

theorem mono {out : Except EncodeError α} (h : Fails out P) (hP : ∀ e, P e → P' e) :
    Fails out P' :=
  fun e he => hP e (h e he)

theorem bind {out : Except EncodeError α} {f : α → Except EncodeError β} (h : Fails out P)
    (hf : ∀ a, out = .ok a → Fails (f a) P) : Fails (out >>= f) P := by
  intro e he
  rcases outcome_bind_eq_error.mp he with he | ⟨a, ha, he⟩
  · exact h e he
  · exact hf a ha e he

/-- What is done with a result at the end cannot fail. -/
theorem bind_ok {out : Except EncodeError α} (h : Fails out P) (f : α → β) :
    Fails (do return f (← out)) P :=
  h.bind fun a _ => ok (f a)

end Fails

/-! ## What a value gives cause for -/

/-- A scalar of which the wire has a count: all but the longest durations. -/
def Scalar.Countable : Scalar → Prop
  | .duration d => ∃ n, d.toMicros? = some n
  | _ => True

/-- No part of a value is absent where the wire needs it: the items of tuples and the required
fields of records are there. -/
inductive Codec.Complete : Codec → Value → Prop
  | scalar {id : Uuid} {type : ScalarType} {v : Value} : Complete (.scalar id type) v
  | array {id : Uuid} {element : Codec} {items : List Value} (h : ∀ v ∈ items, Complete element v) :
      Complete (.array id element) (.array items)
  | set {id : Uuid} {element : Codec} {items : List Value} (h : ∀ v ∈ items, Complete element v) :
      Complete (.set id element) (.set items)
  | tuple {id : Uuid} {elements : List Codec} {items : List Value}
      (present : ∀ v ∈ items, v.isNull = false)
      (h : ∀ (i : Nat) codec v, elements[i]? = some codec → items[i]? = some v → Complete codec v) :
      Complete (.tuple id elements) (.tuple items)
  | record {id : Uuid} {layout : RecordLayout} {fields : List (BoundField Codec)}
      {template rec : Record}
      (present : ∀ b ∈ fields, ∀ path codec v, b.target = .slot path codec →
        rec.slot? path = some v → b.required = true → v.isNull = false)
      (h : ∀ b ∈ fields, ∀ path codec v, b.target = .slot path codec → rec.slot? path = some v →
        v.isNull = false → Complete codec v) :
      Complete (.record id layout fields template) (.record rec)
  | range {id : Uuid} {element : Codec} {r : Range Value} (h : ∀ v ∈ r.bounds, Complete element v) :
      Complete (.range id element) (.range r)
  | multirange {id : Uuid} {element : Codec} {ranges : List (Range Value)}
      (h : ∀ r ∈ ranges, ∀ v ∈ r.bounds, Complete element v) :
      Complete (.multirange id element) (.multirange ranges)

/-- A value of the shape lacks the part `what` that the wire needs: in a tuple or a record within
it, an item or a member that may be absent is absent, and the item or the field on the wire may
not. -/
inductive Codec.Lacks (what : String) : Codec → Shape → Value → Prop
  | array {id : Uuid} {element : Codec} {inner : Shape} {items : List Value} {v : Value}
      (mem : v ∈ items) (inside : Lacks what element inner v) :
      Lacks what (.array id element) (.array inner) (.array items)
  | set {id : Uuid} {element : Codec} {inner : Shape} {items : List Value} {v : Value}
      (mem : v ∈ items) (inside : Lacks what element inner v) :
      Lacks what (.set id element) (.set inner) (.set items)
  | item {id : Uuid} {elements : List Codec} {shapes : List Shape} {items : List Value} {i : Nat}
      {shape : Shape} (hshape : shapes[i]? = some shape) (optional : shape.isOptional = true)
      (absent : items[i]? = some .null) (hwhat : what = "tuple element") :
      Lacks what (.tuple id elements) (.tuple shapes) (.tuple items)
  | inItem {id : Uuid} {elements : List Codec} {shapes : List Shape} {items : List Value} {i : Nat}
      {codec : Codec} {shape : Shape} {v : Value} (hcodec : elements[i]? = some codec)
      (hshape : shapes[i]? = some shape) (hv : items[i]? = some v)
      (inside : Lacks what codec shape.required v) :
      Lacks what (.tuple id elements) (.tuple shapes) (.tuple items)
  | member {id : Uuid} {layout : RecordLayout} {fields : List (BoundField Codec)}
      {template rec : Record} {name : String} {members : List (Member Shape)}
      {b : BoundField Codec} {path : StoragePath} {codec : Codec} {shape : Shape} (mem : b ∈ fields)
      (target : b.target = .slot path codec) (required : b.required = true)
      (leaf : Leaf members path shape) (optional : shape.isOptional = true)
      (absent : rec.slot? path = some .null) (hwhat : what = b.name) :
      Lacks what (.record id layout fields template) (.record name members) (.record rec)
  | inMember {id : Uuid} {layout : RecordLayout} {fields : List (BoundField Codec)}
      {template rec : Record} {name : String} {members : List (Member Shape)}
      {b : BoundField Codec} {path : StoragePath} {codec : Codec} {shape : Shape} {v : Value}
      (mem : b ∈ fields) (target : b.target = .slot path codec) (leaf : Leaf members path shape)
      (present : v.isNull = false) (hv : rec.slot? path = some v)
      (inside : Lacks what codec shape.required v) :
      Lacks what (.record id layout fields template) (.record name members) (.record rec)
  | range {id : Uuid} {element : Codec} {inner : Shape} {r : Range Value} {v : Value}
      (mem : v ∈ r.bounds) (inside : Lacks what element inner v) :
      Lacks what (.range id element) (.range inner) (.range r)
  | multirange {id : Uuid} {element : Codec} {inner : Shape} {ranges : List (Range Value)}
      {r : Range Value} {v : Value} (hr : r ∈ ranges) (mem : v ∈ r.bounds)
      (inside : Lacks what element inner v) :
      Lacks what (.multirange id element) (.multirange inner) (.multirange ranges)

/-- A value that lacks a part is not complete. -/
theorem Codec.Lacks.not_complete {what : String} {codec : Codec} {shape : Shape} {v : Value}
    (h : codec.Lacks what shape v) : ¬codec.Complete v := by
  induction h with
  | array mem inside ih =>
    intro hc
    cases hc with
    | array h => exact ih (h _ mem)
  | set mem inside ih =>
    intro hc
    cases hc with
    | set h => exact ih (h _ mem)
  | item hshape optional absent hwhat =>
    intro hc
    cases hc with
    | tuple present h => cases present _ (List.mem_of_getElem? absent)
  | inItem hcodec hshape hv inside ih =>
    intro hc
    cases hc with
    | tuple present h => exact ih (h _ _ _ hcodec hv)
  | member mem target required leaf optional absent hwhat =>
    intro hc
    cases hc with
    | record present h => cases present _ mem _ _ _ target absent required
  | inMember mem target leaf present hv inside ih =>
    intro hc
    cases hc with
    | record _ h => exact ih (h _ mem _ _ _ target hv present)
  | range mem inside ih =>
    intro hc
    cases hc with
    | range h => exact ih (h _ mem)
  | multirange hr mem inside ih =>
    intro hc
    cases hc with
    | multirange h => exact ih (h _ hr _ mem)

/-- `part` is the value or within it, at any depth. -/
inductive Value.Within (part : Value) : Value → Prop
  | self : Within part part
  | array {items : List Value} {v : Value} (mem : v ∈ items) (h : Within part v) :
      Within part (.array items)
  | set {items : List Value} {v : Value} (mem : v ∈ items) (h : Within part v) :
      Within part (.set items)
  | tuple {items : List Value} {v : Value} (mem : v ∈ items) (h : Within part v) :
      Within part (.tuple items)
  | record {slots : List Value} {v : Value} (mem : v ∈ slots) (h : Within part v) :
      Within part (.record slots)
  | range {r : Range Value} {v : Value} (mem : v ∈ r.bounds) (h : Within part v) :
      Within part (.range r)
  | multirange {ranges : List (Range Value)} {r : Range Value} {v : Value} (hr : r ∈ ranges)
      (mem : v ∈ r.bounds) (h : Within part v) : Within part (.multirange ranges)

/-- What holds of all of a value holds of all of what is within it. -/
theorem Value.Within.all {P : Scalar → Prop} {Q : Range Value → Prop} {part v : Value}
    (h : part.Within v) (hall : v.All P Q) : part.All P Q := by
  induction h with
  | self => exact hall
  | array mem h ih =>
    cases hall with
    | array hall => exact ih (hall _ mem)
  | set mem h ih =>
    cases hall with
    | set hall => exact ih (hall _ mem)
  | tuple mem h ih =>
    cases hall with
    | tuple hall => exact ih (hall _ mem)
  | record mem h ih =>
    cases hall with
    | record hall => exact ih (hall _ mem)
  | range mem h ih =>
    cases hall with
    | range _ hall => exact ih (hall _ mem)
  | multirange hr mem h ih =>
    cases hall with
    | multirange _ hall => exact ih (hall _ hr _ mem)

/-- What is in a slot of a record is within it. -/
theorem Record.slot?_within {path : StoragePath} {rec : Record} {part v : Value}
    (h : rec.slot? path = some v) (hpart : part.Within v) : part.Within (.record rec) := by
  induction path generalizing rec with
  | nil => cases h
  | cons i path ih =>
    cases path with
    | nil => exact .record (List.mem_of_getElem? h) hpart
    | cons j path =>
      simp only [Record.slot?] at h
      split at h
      · rename_i inner hinner
        exact .record (List.mem_of_getElem? hinner) (ih h)
      · cases h

/-- The failures that a value of the shape gives cause for. -/
def Codec.Causes (codec : Codec) (shape : Shape) (v : Value) (e : EncodeError) : Prop :=
  (∃ length, e = .tooLong length) ∨
    (∃ what, e = .missingRequired what ∧ codec.Lacks what shape v) ∨
      (e = .outOfRange "duration" ∧
        ∃ d : Duration, (Value.scalar (.duration d)).Within v ∧ d.toMicros? = none)

namespace Codec.Causes

variable {codec part : Codec} {shape inner : Shape} {v w : Value} {e : EncodeError}

theorem tooLong (length : Nat) : codec.Causes shape v (.tooLong length) := .inl ⟨length, rfl⟩

theorem missing {what : String} (h : codec.Lacks what shape v) :
    codec.Causes shape v (.missingRequired what) := .inr (.inl ⟨what, rfl, h⟩)

/-- A part gives the whole cause to fail. -/
theorem of_part (hlacks : ∀ what, part.Lacks what inner w → codec.Lacks what shape v)
    (hwithin : ∀ {s : Value}, s.Within w → s.Within v) (h : part.Causes inner w e) :
    codec.Causes shape v e := by
  rcases h with h | ⟨what, h, hlack⟩ | ⟨h, d, hd, hmicros⟩
  · exact .inl h
  · exact .inr (.inl ⟨what, h, hlacks what hlack⟩)
  · exact .inr (.inr ⟨h, d, hwithin hd, hmicros⟩)

end Codec.Causes

/-! ## Elements, arrays and ranges -/

section

variable {P : EncodeError → Prop} (htooLong : ∀ length, P (.tooLong length))
  {payload : Value → Except EncodeError Bytes}

include htooLong

theorem fails_frame {out : Except EncodeError Bytes} (h : Fails out P) :
    Fails (Element.frame out) P := by
  refine h.bind fun bytes _ => ?_
  unfold lengthPrefix
  split
  · exact .ok _
  · exact .error (htooLong _)

theorem fails_spell {v : Value} (h : v.isNull = false → Fails (payload v) P) :
    Fails (Element.spell payload v) P := by
  unfold Element.spell
  cases hnull : v.isNull with
  | true => exact .ok _
  | false => exact fails_frame htooLong (h hnull)

theorem fails_spellRequired {what : String} {v : Value}
    (hmissing : v.isNull = true → P (.missingRequired what))
    (h : v.isNull = false → Fails (payload v) P) :
    Fails (Element.spellRequired what payload v) P := by
  unfold Element.spellRequired
  cases hnull : v.isNull with
  | true => exact .error (hmissing hnull)
  | false => exact fails_frame htooLong (h hnull)

theorem fails_spellField {name : String} {required : Bool} {v : Value}
    (hmissing : required = true → v.isNull = true → P (.missingRequired name))
    (h : v.isNull = false → Fails (payload v) P) :
    Fails (Element.spellField name required payload v) P := by
  unfold Element.spellField
  cases required with
  | true => exact fails_spellRequired htooLong (hmissing rfl) h
  | false => exact fails_spell htooLong h

omit htooLong in
theorem fails_each {α : Type} {spell : α → Except EncodeError Bytes} {items : List α}
    (h : ∀ a ∈ items, Fails (spell a) P) : Fails (spellEach spell items) P := by
  induction items with
  | nil => exact .ok _
  | cons a items ih =>
    refine (h a List.mem_cons_self).bind fun first _ => ?_
    exact (ih fun b hb => h b (List.mem_cons_of_mem a hb)).bind_ok (first ++ ·)

theorem fails_array {items : List Value}
    (h : ∀ v ∈ items, v.isNull = false ∧ Fails (payload v) P) :
    Fails (arrayPayload payload items) P := by
  unfold arrayPayload
  split
  · exact .error (htooLong _)
  · refine (fails_each fun v hv => ?_).bind_ok _
    obtain ⟨hnull, hv⟩ := h v hv
    exact fails_spellRequired htooLong (fun h => nomatch hnull.symm.trans h) fun _ => hv

theorem fails_range {r : Range Value} (h : ∀ v ∈ r.bounds, v.isNull = false ∧ Fails (payload v) P) :
    Fails (rangePayload payload r) P := by
  have hbound : ∀ (what : String) (bound : Option Value), (∀ v, bound = some v → v ∈ r.bounds) →
      Fails (spellBound what payload bound) P := by
    intro what bound hmem
    cases bound with
    | none => exact .ok _
    | some v =>
      obtain ⟨hnull, hv⟩ := h v (hmem v rfl)
      exact fails_spellRequired htooLong (fun h => nomatch hnull.symm.trans h) fun _ => hv
  unfold rangePayload
  split
  · exact .ok _
  · refine (hbound _ r.lower fun v hv => ?_).bind fun lower _ =>
      (hbound _ r.upper fun v hv => ?_).bind_ok _
    · exact List.mem_append_left _ (Option.mem_toList.mpr hv)
    · exact List.mem_append_right _ (Option.mem_toList.mpr hv)

theorem fails_multirange {ranges : List (Range Value)}
    (h : ∀ r ∈ ranges, ∀ v ∈ r.bounds, v.isNull = false ∧ Fails (payload v) P) :
    Fails (multirangePayload payload ranges) P :=
  (fails_each fun r hr => fails_frame htooLong (fails_range htooLong (h r hr))).bind_ok _

end

/-! ## Scalars and records -/

theorem fails_scalar (s : Scalar) : Fails s.payload fun e =>
    e = .outOfRange "duration" ∧ ∃ d : Duration, s = .duration d ∧ d.toMicros? = none := by
  cases s with
  | datetime m | localDatetime m =>
    obtain ⟨n, hn⟩ := m.exists_toMicros?
    rw [Scalar.payload, hn]
    exact .ok _
  | localDate d =>
    obtain ⟨n, hn⟩ := d.exists_toWireDays?
    rw [Scalar.payload, hn]
    exact .ok _
  | duration d =>
    rw [Scalar.payload]
    cases hmicros : d.toMicros? with
    | none => exact .error ⟨rfl, d, rfl, hmicros⟩
    | some n => exact .ok _
  | _ => exact .ok _

/-- A scalar of whole microseconds is one of which the wire has a count. -/
theorem Scalar.WholeMicros.countable {s : Scalar} (h : s.WholeMicros) : s.Countable := by
  cases s with
  | duration d => exact Duration.exists_toMicros? h
  | _ => exact trivial

namespace Codec

section

variable {P : EncodeError → Prop} {rec template : Record}

/-- The fields of a record find their slots, and fail with `P` only. -/
structure FieldsFail (P : EncodeError → Prop) (rec : Record) (b : BoundField Codec) : Prop where
  slot : ∀ path codec, b.target = .slot path codec → ∃ v, rec.slot? path = some v
  missing : ∀ path codec v, b.target = .slot path codec → rec.slot? path = some v →
    b.required = true → v.isNull = true → P (.missingRequired b.name)
  payload : ∀ path codec v, b.target = .slot path codec → rec.slot? path = some v →
    v.isNull = false → Fails (codec.payload v) P

theorem fails_countPresent {fields : List (BoundField Codec)}
    (h : ∀ b ∈ fields, FieldsFail P rec b) : Fails (countPresent rec template fields) P := by
  induction fields with
  | nil =>
    rw [countPresent]
    exact .ok 0
  | cons b fields ih =>
    have hb := h b List.mem_cons_self
    have hfields := ih fun b hb => h b (List.mem_cons_of_mem _ hb)
    obtain ⟨name, required, flags, target⟩ := b
    cases target with
    | skip =>
      rw [countPresent]
      exact hfields
    | slot path codec =>
      obtain ⟨v, hv⟩ := hb.slot path codec rfl
      rw [countPresent, loadSlot_of_slot? hv, outcome_bind_ok]
      cases hnull : v.isNull with
      | true =>
        cases required with
        | true => exact .error (hb.missing path codec v rfl hv rfl hnull)
        | false => exact hfields
      | false => exact hfields.bind_ok _

theorem fails_fieldsPayload (htooLong : ∀ length, P (.tooLong length)) (layout : RecordLayout)
    {fields : List (BoundField Codec)} (h : ∀ b ∈ fields, FieldsFail P rec b) :
    Fails (fieldsPayload layout rec template fields) P := by
  induction fields with
  | nil =>
    rw [fieldsPayload]
    exact .ok _
  | cons b fields ih =>
    have hb := h b List.mem_cons_self
    have hfields := ih fun b hb => h b (List.mem_cons_of_mem _ hb)
    obtain ⟨name, required, flags, target⟩ := b
    cases target with
    | skip =>
      rw [fieldsPayload]
      exact hfields.bind_ok _
    | slot path codec =>
      obtain ⟨v, hv⟩ := hb.slot path codec rfl
      rw [fieldsPayload, loadSlot_of_slot? hv, outcome_bind_ok]
      refine (fails_spellField htooLong (hb.missing path codec v rfl hv)
        (hb.payload path codec v rfl hv)).bind fun bytes _ => ?_
      exact hfields.bind_ok _

theorem fails_presentPayload (htooLong : ∀ length, P (.tooLong length)) (index : Nat)
    {fields : List (BoundField Codec)} (h : ∀ b ∈ fields, FieldsFail P rec b) :
    Fails (presentPayload rec template index fields) P := by
  induction fields generalizing index with
  | nil =>
    rw [presentPayload]
    exact .ok _
  | cons b fields ih =>
    have hb := h b List.mem_cons_self
    have hfields := ih (index + 1) fun b hb => h b (List.mem_cons_of_mem _ hb)
    obtain ⟨name, required, flags, target⟩ := b
    cases target with
    | skip =>
      rw [presentPayload]
      exact hfields
    | slot path codec =>
      obtain ⟨v, hv⟩ := hb.slot path codec rfl
      rw [presentPayload, loadSlot_of_slot? hv, outcome_bind_ok]
      cases hnull : v.isNull with
      | true => exact hfields
      | false =>
        refine (fails_spell htooLong (hb.payload path codec v rfl hv)).bind fun bytes _ => ?_
        exact hfields.bind_ok _

theorem fails_itemsPayload (htooLong : ∀ length, P (.tooLong length)) {codecs : List Codec}
    {items : List Value}
    (h : ∀ (i : Nat) codec v, codecs[i]? = some codec → items[i]? = some v →
      (v.isNull = true → P (.missingRequired "tuple element")) ∧
        (v.isNull = false → Fails (codec.payload v) P)) :
    Fails (itemsPayload codecs items) P := by
  induction codecs generalizing items with
  | nil =>
    simp only [itemsPayload]
    exact .ok _
  | cons codec codecs ih =>
    cases items with
    | nil =>
      simp only [itemsPayload]
      exact .ok _
    | cons v items =>
      obtain ⟨hmissing, hv⟩ := h 0 codec v rfl rfl
      rw [itemsPayload]
      refine (fails_spellRequired htooLong hmissing hv).bind fun bytes _ => ?_
      exact (ih fun i => h (i + 1)).bind_ok _

/-- A record fails with what one of its fields fails with, or is too long. -/
theorem fails_record {id : Uuid} {layout : RecordLayout} {fields : List (BoundField Codec)}
    (htooLong : ∀ length, P (.tooLong length)) (h : ∀ b ∈ fields, FieldsFail P rec b) :
    Fails ((Codec.record id layout fields template).payload (.record rec)) P := by
  cases layout with
  | named | output =>
    simp only [payload]
    exact (fails_fieldsPayload htooLong _ h).bind_ok _
  | input =>
    simp only [payload]
    exact (fails_countPresent h).bind fun count _ =>
      (fails_presentPayload htooLong 0 h).bind_ok _

end

end Codec

/-! ## Values -/

namespace Descriptor.Binds

/-- A shape that a type is bound to has no absent value. -/
theorem isNull_eq_false {d : Descriptor} {shape : Shape} {codec : Codec} (h : Binds d shape codec)
    {v : Value} (hv : v.Conforms shape) : v.isNull = false := by
  cases hnull : v.isNull with
  | false => rfl
  | true =>
    have hoptional := hv.isOptional hnull
    cases h <;> cases hoptional

/-- A value of the shape fails to be encoded only with a failure that it gives cause for. -/
theorem fails_causes {d : Descriptor} {shape : Shape} {codec : Codec} (h : Binds d shape codec) :
    ∀ {v : Value}, v.Conforms shape → Fails (codec.payload v) (codec.Causes shape v) := by
  induction h with
  | scalar kind base =>
    intro v hv
    cases hv with
    | scalar hasType =>
      simp only [Codec.payload, if_pos hasType]
      refine (fails_scalar _).mono ?_
      rintro _ ⟨rfl, d, rfl, hmicros⟩
      exact .inr (.inr ⟨rfl, d, .self, hmicros⟩)
  | array kind fields element ih | setAsArray kind fields element ih =>
    intro v hv
    cases hv with
    | array hitems =>
      simp only [Codec.payload]
      refine fails_array .tooLong fun v hv => ⟨element.isNull_eq_false (hitems v hv), ?_⟩
      exact (ih (hitems v hv)).mono fun e => .of_part (fun _ => .array hv) (.array hv)
  | set kind fields element ih =>
    intro v hv
    cases hv with
    | set hitems =>
      simp only [Codec.payload]
      refine fails_array .tooLong fun v hv => ⟨element.isNull_eq_false (hitems v hv), ?_⟩
      exact (ih (hitems v hv)).mono fun e => .of_part (fun _ => .set hv) (.set hv)
  | @tuple d shapes codecs kind arity length scalars items ih =>
    intro v hv
    cases hv with
    | @tuple values _ hlen hvalues =>
      simp only [Codec.payload]
      rw [if_pos (by rw [hlen, arity, length])]
      refine (Codec.fails_itemsPayload .tooLong fun i codec v hcodec hv => ?_).bind_ok _
      obtain ⟨f, shape, hf, hshape⟩ := exists_item arity length hcodec
      have hconforms := hvalues i v shape hv hshape
      refine ⟨fun hnull => ?_, fun hnull => ?_⟩
      · obtain rfl := Value.eq_null hnull
        exact .missing (.item hshape (hconforms.isOptional rfl) hv rfl)
      · exact (ih i f shape codec hf hshape hcodec (hconforms.required hnull)).mono fun e =>
          .of_part (fun _ => .inItem hcodec hshape hv) (.tuple (List.mem_of_getElem? hv))
  | @record d name members bound kind values length fields codecs ih =>
    intro v hv
    obtain ⟨rec, rfl, hrec⟩ := Value.conforms_record_iff.mp hv
    -- each field finds its slot, and gives the record its own causes to fail
    have hfields : ∀ b ∈ bound, Codec.FieldsFail (Codec.Causes (.record d.id (recordLayout d.kind)
        bound (Shape.defaultRecord members)) (.record name members) (.record rec)) rec b := by
      intro b hb
      refine ⟨fun path codec htarget => ?_, fun path codec v htarget hv hrequired hnull => ?_,
        fun path codec v htarget hv hnull => ?_⟩
      all_goals
        obtain ⟨i, f, shape, hf, hi, hresolve, -⟩ := resolves_of_mem length fields hb htarget
        have hleaf := Leaf.of_resolve? hresolve
        obtain ⟨w, hw, hconforms⟩ := hleaf.load hrec
      · exact ⟨w, hw⟩
      · obtain rfl := Option.some.inj (hv.symm.trans hw)
        have hoptional := hconforms.isOptional hnull
        obtain rfl := Value.eq_null hnull
        exact .missing (.member hb htarget hrequired hleaf hoptional hv rfl)
      · obtain rfl := Option.some.inj (hv.symm.trans hw)
        have hpart := ih i f b path shape codec hf hi htarget hresolve (hconforms.required hnull)
        exact hpart.mono fun e => .of_part (fun _ => .inMember hb htarget hleaf hnull hv)
          (Record.slot?_within hv)
    exact Codec.fails_record .tooLong hfields
  | range kind fields ranged element ih =>
    intro v hv
    cases hv with
    | range hbounds =>
      simp only [Codec.payload]
      refine fails_range .tooLong fun v hv => ⟨element.isNull_eq_false (hbounds v hv), ?_⟩
      exact (ih (hbounds v hv)).mono fun e => .of_part (fun _ => .range hv) (.range hv)
  | multirange kind fields ranged element ih =>
    intro v hv
    cases hv with
    | multirange hbounds =>
      simp only [Codec.payload]
      refine fails_multirange .tooLong fun r hr v hv =>
        ⟨element.isNull_eq_false (hbounds r hr v hv), ?_⟩
      exact (ih (hbounds r hr v hv)).mono fun e =>
        .of_part (fun _ => .multirange hr hv) (.multirange hr hv)

/-- A value of the shape that is complete, and whose durations all have a count, fails only if it is
too long. -/
theorem fails_payload {d : Descriptor} {shape : Shape} {codec : Codec} (h : Binds d shape codec)
    {v : Value} (hv : v.Conforms shape) : Fails (codec.payload v) fun e =>
      (∃ length, e = .tooLong length) ∨ ((∃ what, e = .missingRequired what) ∧ ¬codec.Complete v) ∨
        (e = .outOfRange "duration" ∧ ¬v.All Scalar.Countable fun _ => True) := by
  refine (h.fails_causes hv).mono ?_
  rintro e (h | ⟨what, h, hlacks⟩ | ⟨h, d, hd, hmicros⟩)
  · exact .inl h
  · exact .inr (.inl ⟨⟨what, h⟩, hlacks.not_complete⟩)
  · refine .inr (.inr ⟨h, fun hall => ?_⟩)
    cases hd.all hall with
    | scalar here =>
      obtain ⟨n, hn⟩ := here
      cases hmicros.symm.trans hn

end Descriptor.Binds

/-- A duration has no count exactly if its microseconds do not fit 64 bits. -/
theorem Duration.toMicros?_eq_none_iff {d : Duration} : d.toMicros? = none ↔
    ¬(Int64.minValue.toInt ≤ d.nanos.tdiv 1000 ∧ d.nanos.tdiv 1000 ≤ Int64.maxValue.toInt) := by
  constructor
  · intro h hfits
    cases h.symm.trans (if_pos hfits)
  · exact fun h => if_neg h

/-- Encoding a value of the shape into any writer fails only if something is too long, if an absent
part of the value is required on the wire, or if the microseconds of a duration do not fit 64
bits. -/
theorem Descriptor.bind_encode_fails {d : Descriptor} {required : Bool} {shape : Shape}
    {codec : Codec} (h : d.bind required shape = .ok codec) {v : Value}
    (hv : v.Conforms shape.required) (w : Writer) {e : EncodeError}
    (he : codec.encode v w = .error e) :
    (∃ length, e = .tooLong length) ∨
      (∃ what, e = .missingRequired what ∧ codec.Lacks what shape.required v) ∨
        (e = .outOfRange "duration" ∧ ∃ d : Duration, (Value.scalar (.duration d)).Within v ∧
          ¬(Int64.minValue.toInt ≤ d.nanos.tdiv 1000 ∧
            d.nanos.tdiv 1000 ≤ Int64.maxValue.toInt)) := by
  have hpayload : codec.payload v = .error e := by
    rw [Codec.writes_encode codec v w] at he
    cases hp : codec.payload v with
    | ok bytes =>
      rw [hp] at he
      cases he
    | error e' =>
      rw [hp] at he
      exact congrArg Except.error (Except.error.inj he)
  simp only [← Duration.toMicros?_eq_none_iff]
  exact (binds_of_bind h).fails_causes hv e hpayload

/-- A named tuple whose only field is taken from an optional member with no value. -/
theorem bind_encode_fails_absent :
    let pair := Descriptor.ofFields .namedTuple .nil
      [.named "x" (.ofFields .baseScalar ScalarType.int16.id []) true]
    let shape := Shape.record "Pair" [⟨"x", none, .optional (.scalar .int16), false⟩]
    let v := Value.record [.null]
    ∃ codec, pair.bind true shape = .ok codec ∧ v.Conforms shape ∧
      codec.encode v .empty = .error (.missingRequired "x") ∧ codec.Lacks "x" shape v := by
  intro pair shape v
  have hbind : pair.bind true shape = .ok _ := rfl
  have hv : v.Conforms shape := by
    refine .record rfl ?_
    rintro (_ | _) w m ⟨⟩ ⟨⟩
    exact .null _
  refine ⟨_, hbind, hv, rfl, ?_⟩
  rcases Descriptor.bind_encode_fails hbind hv .empty rfl with ⟨_, ⟨⟩⟩ | ⟨_, ⟨⟩, hlacks⟩ | ⟨⟨⟩, -⟩
  exact hlacks

end TypedWire
