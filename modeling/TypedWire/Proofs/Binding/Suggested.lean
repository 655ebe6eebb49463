import Mathlib.Data.List.Nodup
import TypedWire.Proofs.Binding.Located

/-!
# Binding a type to the shape that it suggests

Inference and binding walk over a type independently. They agree on kinds, names and presence, so
that a type is suggested a shape that it cannot be bound to only where binding asks for more:
tuples have to be of scalars, and ranges of something that ranges are made of.

- `Descriptor.DistinctNames`, `Descriptor.Plain`: what a type has to be like in all its parts.
- `Descriptor.Infers.unsupported`: how binding to a suggested shape may fail.
- `Descriptor.bind_shapeFor`: a type is bound to the shape that it suggests.
-/

namespace TypedWire

/-! ## How binding fails -/

/-- A failure over a type that has no values of the kind asked for, whatever the shape. -/
def BindError.Unsupported : BindError → Prop
  | .nonScalarTupleElement _ _ | .unsupportedRangeType _ | .unsupportedScalar _ => True
  | _ => False

/-- Wherever the failure is. -/
theorem BindError.unsupported_below {way : List String} {e : BindError} :
    (e.below way).Unsupported ↔ e.Unsupported := by
  cases e <;> exact Iff.rfl

namespace Descriptor

theorem checkRangeElement_unsupported {d : Descriptor} {e : BindError}
    (h : checkRangeElement d = .error e) : e.Unsupported := by
  rcases checkRangeElement_eq_error h with ⟨id, rfl⟩ | ⟨range, rfl⟩ <;> trivial

/-! ## Binding to the shape that a type suggests -/

/-- The fields of records within, other than the identifiers of their types, have distinct names. -/
def DistinctNames (d : Descriptor) : Prop := d.Everywhere fun node =>
  node.kind.isRecord = true → ((Field.values node.fields).map Field.text).Nodup

/-- The items of a tuple are scalars, and the bounds of a range are scalars that ranges are made
of. -/
structure PlainParts (d : Descriptor) : Prop where
  items : d.kind = .tuple → ∀ f ∈ d.fields,
    f.desc.kind = .baseScalar ∨ f.desc.kind = .scalar ∨ f.desc.kind = .enum
  bounds : d.kind = .range ∨ d.kind = .multirange → ∀ f ∈ d.fields,
    (f.desc.kind = .baseScalar ∨ f.desc.kind = .scalar) ∧
      ∃ type, f.desc.scalarBase = .ok type ∧ type.isRangeElement = true

/-- So it is in a type and in all its parts. -/
def Plain (d : Descriptor) : Prop := d.Everywhere PlainParts

theorem PlainParts.checkRangeElement {d : Descriptor} (h : d.PlainParts)
    (hkind : d.kind = .range ∨ d.kind = .multirange) {f : Field Descriptor} (hf : f ∈ d.fields) :
    checkRangeElement f.desc = .ok () := by
  obtain ⟨hscalar, type, hbase, hranged⟩ := h.bounds hkind f hf
  have henum : f.desc.kind ≠ .enum := by
    rcases hscalar with hscalar | hscalar <;> rw [hscalar] <;> rintro ⟨⟩
  rw [Descriptor.checkRangeElement, hbase, outcome_bind_ok, if_neg (by simp [henum, hranged])]
  rfl

/-- What binds a scalar type is a scalar. -/
theorem Binds.isScalar {d : Descriptor} {shape : Shape} {codec : Codec} (h : Binds d shape codec)
    (hkind : d.kind = .baseScalar ∨ d.kind = .scalar ∨ d.kind = .enum) : codec.isScalar = true := by
  cases h with
  | scalar _ _ => rfl
  | record kind _ _ _ _ =>
    rcases hkind with hkind | hkind | hkind <;> rw [hkind] at kind <;> cases kind
  | array kind _ _ | set kind _ _ | setAsArray kind _ _ | tuple kind _ _ _ _ | range kind _ _ _
  | multirange kind _ _ _ => simp [kind] at hkind

/-- A field with a value that cannot be bound to the member that it suggests fails over its type. -/
theorem FieldMisfit.within_suggested {layout : RecordLayout} {record : String}
    {fields : List (Field Descriptor)} {shapes : List Shape} {f : Field Descriptor} {e : BindError}
    (arity : shapes.length = (Field.values fields).length)
    (hnames : ((Field.values fields).map Field.text).Nodup) (hf : f ∈ fields)
    (h : FieldMisfit layout record (List.zipWith Field.member (Field.values fields) shapes) f e) :
    ∃ (k : Nat) (shape : Shape) (e' : BindError), (Field.values fields)[k]? = some f ∧
      shapes[k]? = some shape ∧ build [] f.desc (f.member shape).shape.required = .error e' ∧
        e = e'.below [f.text] := by
  have hslot (value : f.text ≠ typeIdField) : ∃ (k : Nat) (shape : Shape),
      (Field.values fields)[k]? = some f ∧ shapes[k]? = some shape ∧ ∃ slot, Shape.resolve?
        (List.zipWith Field.member (Field.values fields) shapes) f.text =
          some (slot, (f.member shape).shape) := by
    have hvalue : f ∈ Field.values fields := List.mem_filter.mpr ⟨hf, decide_eq_true value⟩
    obtain ⟨k, hk⟩ := List.mem_iff_getElem?.mp hvalue
    obtain ⟨shape, hshape, hresolve⟩ := resolve?_suggested_field arity hnames hk
    exact ⟨k, shape, hk, hshape, _, hresolve⟩
  cases h with
  | missing value unresolved =>
    obtain ⟨k, shape, -, -, slot, hresolve⟩ := hslot value
    cases unresolved.symm.trans hresolve
  | absence value resolved optional full =>
    obtain ⟨k, shape, -, -, slot, hresolve⟩ := hslot value
    obtain ⟨-, rfl⟩ := Prod.mk.inj (Option.some.inj (resolved.symm.trans hresolve))
    rcases isOptional_member f shape with hrequired | hoptional
    · rw [hrequired, Bool.or_true] at optional
      cases optional
    · cases full.symm.trans hoptional
  | within value resolved absence fails =>
    obtain ⟨k, shape, hk, hshape, slot, hresolve⟩ := hslot value
    obtain ⟨-, rfl⟩ := Prod.mk.inj (Option.some.inj (resolved.symm.trans hresolve))
    exact ⟨k, shape, _, hk, hshape, fails, rfl⟩

section

variable {d : Descriptor} {f : Field Descriptor} {rest : List (Field Descriptor)} {inner : Shape}
  {e : BindError}

/-- The element of an array or a set fails as it does alone. -/
theorem buildElement_unsupported (fields : d.fields = f :: rest)
    (hpart : ∀ {e}, build [] f.desc inner = .error e → e.Unsupported ∧ ¬f.desc.Plain)
    (h : buildElement [] d.kind d.fields inner = .error e) : e.Unsupported ∧ ¬d.Plain := by
  rcases buildElement_eq_error_iff.mp h with ⟨hnone, -⟩ | ⟨_, _, e', hfields, hfails, rfl⟩
  · cases fields.symm.trans hnone
  · obtain ⟨rfl, -⟩ := List.cons.inj (fields.symm.trans hfields)
    obtain ⟨hsupport, hnot⟩ := hpart hfails
    exact ⟨BindError.unsupported_below.mpr hsupport, fun h => hnot (h.first fields)⟩

/-- The element of a range fails as it does alone, or ranges are not made of it. -/
theorem buildRangeElement_unsupported (kind : d.kind = .range ∨ d.kind = .multirange)
    (fields : d.fields = f :: rest)
    (hpart : ∀ {e}, build [] f.desc inner = .error e → e.Unsupported ∧ ¬f.desc.Plain)
    (h : buildRangeElement [] d.kind d.fields inner = .error e) : e.Unsupported ∧ ¬d.Plain := by
  rcases buildRangeElement_eq_error_iff.mp h with ⟨hnone, -⟩ | ⟨_, _, hfields, hrest⟩
  · cases fields.symm.trans hnone
  obtain ⟨rfl, -⟩ := List.cons.inj (fields.symm.trans hfields)
  rcases hrest with hcheck | ⟨-, hfails⟩
  · refine ⟨checkRangeElement_unsupported hcheck, fun h => ?_⟩
    have hranged := h.here.checkRangeElement kind (by rw [fields]; exact List.mem_cons_self)
    cases hranged.symm.trans hcheck
  · obtain ⟨hsupport, hnot⟩ := hpart hfails
    exact ⟨hsupport, fun h => hnot (h.first fields)⟩

end

/-- Binding a type with distinct names to the shape that it suggests fails over a tuple or a range
only, and not if those are plain. -/
theorem Infers.unsupported {d : Descriptor} {shape : Shape} (h : Infers d shape)
    (hnames : d.DistinctNames) {e : BindError} (herror : build [] d shape = .error e) :
    e.Unsupported ∧ ¬d.Plain := by
  induction h generalizing e with
  | @scalar d type kind base =>
    rw [build_of_binds (.scalar kind base)] at herror
    cases herror
  | array kind fields _ ih =>
    obtain ⟨_, wrap, ⟨⟩, hbuild⟩ := build_element (.array kind) (.inl kind)
    rw [hbuild, outcome_map_eq_error] at herror
    exact buildElement_unsupported fields (ih (hnames.first fields)) herror
  | set kind fields _ ih =>
    obtain ⟨_, wrap, ⟨⟩, hbuild⟩ := build_element (.set kind) (.inr kind)
    rw [hbuild, outcome_map_eq_error] at herror
    exact buildElement_unsupported fields (ih (hnames.first fields)) herror
  | range kind fields _ ih =>
    obtain ⟨_, wrap, ⟨⟩, hbuild⟩ := build_rangeElement (.range kind) (.inl kind)
    rw [hbuild, outcome_map_eq_error] at herror
    exact buildRangeElement_unsupported (.inl kind) fields (ih (hnames.first fields)) herror
  | multirange kind fields _ ih =>
    obtain ⟨_, wrap, ⟨⟩, hbuild⟩ := build_rangeElement (.multirange kind) (.inr kind)
    rw [hbuild, outcome_map_eq_error] at herror
    exact buildRangeElement_unsupported (.inr kind) fields (ih (hnames.first fields)) herror
  | @tuple d shapes kind arity items ih =>
    rw [build_tuple (.tuple kind arity), outcome_map_eq_error, buildItems_eq_error_iff arity]
      at herror
    obtain ⟨i, f, inner, hf, hinner, hitem, -⟩ := herror
    have hmem := List.mem_of_getElem? hf
    have hrequired := (items i f inner hf hinner).required
    cases hitem with
    | within fails =>
      rw [hrequired] at fails
      obtain ⟨hsupport, hnot⟩ := ih i f inner hf hinner (hnames.part hmem) fails
      exact ⟨BindError.unsupported_below.mpr hsupport, fun h => hnot (h.part hmem)⟩
    | notScalar binds other =>
      refine ⟨trivial, fun h => ?_⟩
      cases other.symm.trans ((build_ok_iff.mp binds).isScalar (h.here.items kind f hmem))
  | @record d shapes kind valued arity items ih =>
    rw [build_record (.record kind valued), outcome_map_eq_error, buildFields_eq_error_iff]
      at herror
    obtain ⟨i, f, hf, hfield, -⟩ := herror
    have hmem := List.mem_of_getElem? hf
    obtain ⟨k, inner, e', hk, hinner, hfails, rfl⟩ :=
      hfield.within_suggested arity (hnames.here kind) hmem
    rw [required_member f (items k f inner hk hinner).required] at hfails
    obtain ⟨hsupport, hnot⟩ := ih k f inner hk hinner (hnames.part hmem) hfails
    exact ⟨BindError.unsupported_below.mpr hsupport, fun h => hnot (h.part hmem)⟩

/-- Fields with values that have distinct names are told by their names. -/
theorem FieldsBind.onlyName {layout : RecordLayout} {members : List (Member Shape)}
    {fields : List (Field Descriptor)} {bound : List (BoundField Codec)}
    (h : FieldsBind layout members fields bound)
    (hnames : ((Field.values fields).map Field.text).Nodup) {i : Nat} {b : BoundField Codec}
    (hb : bound[i]? = some b) (hvalue : b.name ≠ typeIdField) : Codec.OnlyName bound i := by
  rw [← map_name_of_forall₂ h.forall₂_values, List.Nodup, List.pairwise_map, BoundField.values,
    List.pairwise_filter] at hnames
  -- of two fields of the name, the later one would repeat it
  have hdistinct : ∀ {j k : Nat} {c c' : BoundField Codec}, j < k → bound[j]? = some c →
      bound[k]? = some c' → c.name = b.name → c'.name = b.name → False := by
    intro j k c c' hlt hc hc' hname hname'
    obtain ⟨hj, rfl⟩ := List.getElem?_eq_some_iff.mp hc
    obtain ⟨hk, rfl⟩ := List.getElem?_eq_some_iff.mp hc'
    exact List.pairwise_iff_getElem.mp hnames j k hj hk hlt (by simpa [hname] using hvalue)
      (by simpa [hname'] using hvalue) (hname.trans hname'.symm)
  intro j hj
  rw [hb, Option.map_some] at hj
  obtain ⟨c, hc, hname⟩ := Option.map_eq_some_iff.mp hj
  rcases Nat.lt_trichotomy j i with hlt | heq | hgt
  · exact (hdistinct hlt hc hb hname rfl).elim
  · exact heq
  · exact (hdistinct hgt hb hc rfl hname).elim

/-- Under distinct names every part of a codec is reached below fields that are the only ones of
their names. -/
theorem Binds.onlyWithin {d : Descriptor} {shape : Shape} {part codec : Codec}
    (h : Binds d shape codec) (hnames : d.DistinctNames) (hpart : part.Within codec) :
    part.OnlyWithin codec := by
  induction hpart generalizing d shape with
  | whole => exact .whole
  | array _ ih =>
    obtain ⟨f, rest, inner, fields, -, element⟩ := h.inner rfl
    exact .array (ih element (hnames.first fields))
  | set _ ih =>
    obtain ⟨f, rest, inner, fields, -, element⟩ := h.inner rfl
    exact .set (ih element (hnames.first fields))
  | range _ ih =>
    obtain ⟨f, rest, inner, fields, -, element⟩ := h.inner rfl
    exact .range (ih element (hnames.first fields))
  | multirange _ ih =>
    obtain ⟨f, rest, inner, fields, -, element⟩ := h.inner rfl
    exact .multirange (ih element (hnames.first fields))
  | tuple mem _ ih =>
    cases h with
    | tuple _ arity length _ items =>
      obtain ⟨i, hi⟩ := List.mem_iff_getElem?.mp mem
      obtain ⟨f, inner, hf, hinner⟩ := exists_item arity length hi
      have hitem := items i f inner _ hf hinner hi
      exact .tuple mem (ih hitem (hnames.part (List.mem_of_getElem? hf)))
  | @record _ _ bound _ i b path codec at_ target _ _ ih =>
    cases h with
    | record kind values length fields codecs =>
      obtain ⟨f, slotShape, hf, hresolve, -⟩ := resolves_at length fields at_ target
      have hbound : FieldsBind _ _ d.fields bound := ⟨length, fields, codecs⟩
      have hvalue := hbound.name_ne_typeId at_ target
      have hcodec := codecs i f b path slotShape codec hf at_ target hresolve
      exact .record at_ target (hbound.onlyName (hnames.here kind) at_ hvalue)
        (ih hcodec (hnames.part (List.mem_of_getElem? hf)))

/-- Under distinct names the records of a codec have fields of distinct names. -/
theorem Binds.nodup_values {d : Descriptor} {shape : Shape} {codec : Codec}
    (h : Binds d shape codec) (hnames : d.DistinctNames) {id : Uuid} {layout : RecordLayout}
    {fields : List (BoundField Codec)} {template : Record}
    (hpart : (Codec.record id layout fields template).Within codec) :
    ((BoundField.values fields).map BoundField.name).Nodup := by
  obtain ⟨d', shape', hbinds, hall⟩ := h.part hpart
  obtain ⟨_, members, -, -, hkind, hbound⟩ := hbinds.record_fields
  rw [map_name_of_forall₂ hbound.forall₂_values]
  exact (hall _ hnames).here hkind

/-- To bind to a suggested shape, whatever the presence, is to build the codec for the shape of
present values. -/
theorem build_of_shapeFor {d : Descriptor} {required : Bool} {shape : Shape}
    (h : d.shapeFor required = .ok shape) :
    ∃ inner, Infers d inner ∧ d.bind required shape = d.build [] inner := by
  obtain ⟨inner, hinner, h⟩ := outcome_bind_eq_ok.mp h
  obtain rfl := Except.ok.inj h
  have hinfers := infers_of_infer d hinner
  refine ⟨inner, hinfers, ?_⟩
  rw [bind_eq]
  cases required with
  | true => exact congrArg (d.build []) hinfers.required
  | false => rfl

/-- The fields with values of a record whose names are distinct are stored in their order. -/
theorem FirstSlots.at_ {fields : List (BoundField Codec)} (h : FirstSlots fields)
    (hnames : ((BoundField.values fields).map BoundField.name).Nodup) {k : Nat}
    {b : BoundField Codec} (hb : (BoundField.values fields)[k]? = some b) :
    ∃ codec, b.target = .slot [k] codec := by
  obtain ⟨codec, htarget⟩ := h k b hb
  obtain ⟨hlt, rfl⟩ := List.getElem?_eq_some_iff.mp hb
  have hidx := hnames.idxOf_getElem k (by rwa [List.length_map])
  rw [List.getElem_map] at hidx
  exact ⟨codec, by rw [htarget, hidx]⟩

/-- A type whose records have distinct names is bound to the shape that it suggests, with the fields
of its records stored in their order, if its tuples and ranges are plain; and nothing but such a
tuple or range makes it fail. -/
theorem bind_shapeFor {d : Descriptor} (hnames : d.DistinctNames) {required : Bool} {shape : Shape}
    (hshape : d.shapeFor required = .ok shape) :
    (d.Plain → ∃ codec, d.bind required shape = .ok codec) ∧
      (∀ codec, d.bind required shape = .ok codec →
        ∀ id layout fields template, (Codec.record id layout fields template).Within codec →
          ∀ (k : Nat) b, (BoundField.values fields)[k]? = some b →
            ∃ codec', b.target = .slot [k] codec') ∧
      ∀ e, d.bind required shape = .error e → e.Unsupported := by
  obtain ⟨inner, hinfers, hbind⟩ := build_of_shapeFor hshape
  rw [hbind]
  refine ⟨fun hplain => ?_, ?_, fun e herror => (hinfers.unsupported hnames herror).1⟩
  · cases hbuild : d.build [] inner with
    | ok codec => exact ⟨codec, rfl⟩
    | error e => exact ((hinfers.unsupported hnames hbuild).2 hplain).elim
  · intro codec hcodec id layout fields template hwithin k b hb
    have hbinds := build_ok_iff.mp hcodec
    have hslots := hinfers.firstSlots hbinds (hbinds.onlyWithin hnames hwithin)
    exact hslots.at_ (hbinds.nodup_values hnames hwithin) hb

/-- An object with the identifier of its type and a span that may be absent. -/
theorem bind_shapeFor_span :
    let int64 := ofFields .baseScalar ScalarType.int64.id []
    let span := ofFields .range (.ofNat 1) [.element int64]
    let d := ofFields .objectShape .nil
      [.named typeIdField (ofFields .baseScalar ScalarType.uuid.id []) true,
        .named "span" span false]
    let shape := Shape.record d.recordName
      [⟨"span", none, .optional (.range (.scalar .int64)), false⟩]
    d.DistinctNames ∧ d.Plain ∧ d.shapeFor true = .ok shape ∧
      ∃ codec, d.bind true shape = .ok codec := by
  intro int64 span d shape
  have hscalar : ∀ {P : Descriptor → Prop} {type : ScalarType},
      P (ofFields .baseScalar type.id []) → (ofFields .baseScalar type.id []).Everywhere P :=
    fun h => .node h (List.forall_mem_nil _)
  have hnames : d.DistinctNames := by
    have hspan : span.DistinctNames := .node nofun
      (List.forall_mem_singleton.mpr (hscalar nofun))
    refine .node (fun _ => by decide) (List.forall_mem_cons.mpr ⟨hscalar nofun, ?_⟩)
    exact List.forall_mem_singleton.mpr hspan
  have hplain : d.Plain := by
    have hspan : span.Plain := by
      refine .node ⟨nofun, fun _ => List.forall_mem_singleton.mpr ⟨.inl rfl, .int64, rfl, rfl⟩⟩ ?_
      exact List.forall_mem_singleton.mpr (hscalar ⟨nofun, nofun⟩)
    refine .node ⟨nofun, nofun⟩ (List.forall_mem_cons.mpr ⟨hscalar ⟨nofun, nofun⟩, ?_⟩)
    exact List.forall_mem_singleton.mpr hspan
  have hshape : d.shapeFor true = .ok shape := rfl
  exact ⟨hnames, hplain, hshape, (bind_shapeFor hnames hshape).1 hplain⟩

end Descriptor

end TypedWire
