import Mathlib.Data.List.Basic
import Mathlib.Data.List.Forall2
import TypedWire.Binding.Infer
import TypedWire.Proofs.Binding.Parts
import TypedWire.Proofs.Shape.Resolve

/-!
# Which shapes types suggest

Inference as a relation between a type and a shape, with one rule for each kind of type, and the
slots that the fields of records get in the shape that is inferred.

- `Field.values`, `BoundField.values`: the fields that are more than the identifier of their type.
- `Descriptor.Infers d shape`: the type suggests the shape for its values.
- `Descriptor.resolve?_suggested`: where the fields of a record go in the shape that it suggests.
- `Descriptor.FirstSlots`, `Descriptor.Infers.firstSlots`: fields are stored in the order of the
  wire, those of one name at the place of the first.
-/

namespace TypedWire

/-- The name of the field of a type, which may be empty. -/
def Field.text (f : Field Descriptor) : String := f.name.getD ""

/-- The member that a field suggests, by the shape of its values. -/
def Field.member (f : Field Descriptor) (shape : Shape) : Member Shape :=
  ⟨f.text, none, if f.required then shape else .optional shape, false⟩

/-- The fields that are more than the identifier of the type. -/
def Field.values (fields : List (Field Descriptor)) : List (Field Descriptor) :=
  fields.filter (·.text ≠ typeIdField)

theorem Field.values_cons_of_typeId {f : Field Descriptor} {fields : List (Field Descriptor)}
    (h : f.text = typeIdField) : Field.values (f :: fields) = Field.values fields :=
  List.filter_cons_of_neg (mt of_decide_eq_true (not_not.mpr h))

theorem Field.values_cons {f : Field Descriptor} {fields : List (Field Descriptor)}
    (h : f.text ≠ typeIdField) : Field.values (f :: fields) = f :: Field.values fields :=
  List.filter_cons_of_pos (decide_eq_true h)

/-- The fields that are more than the identifier of the type. -/
def BoundField.values (fields : List (BoundField Codec)) : List (BoundField Codec) :=
  fields.filter (·.name ≠ typeIdField)

namespace Descriptor

/-! ## Inference as a relation -/

/-- The type suggests the shape for its values. -/
inductive Infers : Descriptor → Shape → Prop
  | scalar {d : Descriptor} {type : ScalarType}
      (kind : d.kind = .baseScalar ∨ d.kind = .scalar ∨ d.kind = .enum)
      (base : d.scalarBase = .ok type) : Infers d (.scalar type)
  | array {d : Descriptor} {f : Field Descriptor} {rest : List (Field Descriptor)} {inner : Shape}
      (kind : d.kind = .array) (fields : d.fields = f :: rest) (element : Infers f.desc inner) :
      Infers d (.array inner)
  | set {d : Descriptor} {f : Field Descriptor} {rest : List (Field Descriptor)} {inner : Shape}
      (kind : d.kind = .set) (fields : d.fields = f :: rest) (element : Infers f.desc inner) :
      Infers d (.set inner)
  | range {d : Descriptor} {f : Field Descriptor} {rest : List (Field Descriptor)} {inner : Shape}
      (kind : d.kind = .range) (fields : d.fields = f :: rest) (element : Infers f.desc inner) :
      Infers d (.range inner)
  | multirange {d : Descriptor} {f : Field Descriptor} {rest : List (Field Descriptor)}
      {inner : Shape} (kind : d.kind = .multirange) (fields : d.fields = f :: rest)
      (element : Infers f.desc inner) : Infers d (.multirange inner)
  | tuple {d : Descriptor} {shapes : List Shape} (kind : d.kind = .tuple)
      (arity : shapes.length = d.fields.length)
      (items : ∀ (i : Nat) f shape, d.fields[i]? = some f → shapes[i]? = some shape →
        Infers f.desc shape) : Infers d (.tuple shapes)
  | record {d : Descriptor} {shapes : List Shape} (kind : d.kind.isRecord = true)
      (valued : ¬(d.kind = .object ∧ d.name.isSome))
      (arity : shapes.length = (Field.values d.fields).length)
      (items : ∀ (i : Nat) f shape, (Field.values d.fields)[i]? = some f → shapes[i]? = some shape →
        Infers f.desc shape) :
      Infers d (.record d.recordName (List.zipWith Field.member (Field.values d.fields) shapes))

/-- The shapes that the types of some fields suggest. -/
structure ItemsInfer (fields : List (Field Descriptor)) (shapes : List Shape) : Prop where
  length : shapes.length = fields.length
  item : ∀ (i : Nat) f shape, fields[i]? = some f → shapes[i]? = some shape → Infers f.desc shape

theorem ItemsInfer.nil : ItemsInfer [] [] where
  length := rfl
  item _ _ _ hf := by cases hf

theorem ItemsInfer.cons {f : Field Descriptor} {fields : List (Field Descriptor)} {shape : Shape}
    {shapes : List Shape} (hf : Infers f.desc shape) (h : ItemsInfer fields shapes) :
    ItemsInfer (f :: fields) (shape :: shapes) where
  length := congrArg (· + 1) h.length
  item
    | 0, _, _, rfl, rfl => hf
    | i + 1, g, s, hg, hs => h.item i g s hg hs

mutual

theorem infers_of_infer : ∀ (d : Descriptor) {shape : Shape}, d.infer = .ok shape → Infers d shape
  | ⟨kind, id, fields, name, schemaDefined, ancestors, op⟩, shape, h => by
    rw [infer.eq_def] at h
    cases kind with
    | baseScalar | scalar | enum =>
      obtain ⟨type, hbase, rfl⟩ := outcome_map_eq_ok.mp h
      exact .scalar (by simp) hbase
    | array =>
      obtain ⟨inner, hinner, rfl⟩ := outcome_map_eq_ok.mp h
      obtain ⟨f, rest, rfl, hf⟩ := infers_of_inferElement fields hinner
      exact .array rfl rfl hf
    | set =>
      obtain ⟨inner, hinner, rfl⟩ := outcome_map_eq_ok.mp h
      obtain ⟨f, rest, rfl, hf⟩ := infers_of_inferElement fields hinner
      exact .set rfl rfl hf
    | range =>
      obtain ⟨inner, hinner, rfl⟩ := outcome_map_eq_ok.mp h
      obtain ⟨f, rest, rfl, hf⟩ := infers_of_inferElement fields hinner
      exact .range rfl rfl hf
    | multirange =>
      obtain ⟨inner, hinner, rfl⟩ := outcome_map_eq_ok.mp h
      obtain ⟨f, rest, rfl, hf⟩ := infers_of_inferElement fields hinner
      exact .multirange rfl rfl hf
    | tuple =>
      obtain ⟨shapes, hshapes, rfl⟩ := outcome_map_eq_ok.mp h
      have hitems := infers_of_inferItems fields hshapes
      exact .tuple rfl hitems.length hitems.item
    | namedTuple | sqlRecord | objectShape | inputShape =>
      obtain ⟨members, hmembers, rfl⟩ := outcome_map_eq_ok.mp h
      obtain ⟨shapes, rfl, hitems⟩ := infers_of_inferMembers fields hmembers
      refine .record rfl ?_ hitems.length hitems.item
      rintro ⟨⟨⟩, -⟩
    | object =>
      dsimp only at h
      split at h
      · cases h
      · rename_i hname
        obtain ⟨members, hmembers, rfl⟩ := outcome_map_eq_ok.mp h
        obtain ⟨shapes, rfl, hitems⟩ := infers_of_inferMembers fields hmembers
        exact .record rfl (fun hobject => hname hobject.2) hitems.length hitems.item
    | compound => cases h

theorem infers_of_inferElement {kind : Kind} : ∀ (fields : List (Field Descriptor)) {shape : Shape},
    inferElement kind fields = .ok shape → ∃ f rest, fields = f :: rest ∧ Infers f.desc shape
  | [], _, h => by
    rw [inferElement] at h
    cases h
  | ⟨name, desc, required, union, flags⟩ :: rest, shape, h => by
    rw [inferElement] at h
    exact ⟨_, rest, rfl, infers_of_infer desc h⟩

theorem infers_of_inferItems : ∀ (fields : List (Field Descriptor)) {shapes : List Shape},
    inferItems fields = .ok shapes → ItemsInfer fields shapes
  | [], shapes, h => by
    rw [inferItems] at h
    obtain rfl := Except.ok.inj h
    exact .nil
  | ⟨name, desc, required, union, flags⟩ :: fields, shapes, h => by
    rw [inferItems] at h
    obtain ⟨shape, hshape, h⟩ := outcome_bind_eq_ok.mp h
    obtain ⟨shapes', hshapes, h⟩ := outcome_bind_eq_ok.mp h
    obtain rfl := Except.ok.inj h
    exact .cons (infers_of_infer desc hshape) (infers_of_inferItems fields hshapes)

theorem infers_of_inferMembers : ∀ (fields : List (Field Descriptor))
    {members : List (Member Shape)}, inferMembers fields = .ok members →
      ∃ shapes, members = List.zipWith Field.member (Field.values fields) shapes ∧
        ItemsInfer (Field.values fields) shapes
  | [], members, h => by
    rw [inferMembers] at h
    obtain rfl := Except.ok.inj h
    exact ⟨[], rfl, .nil⟩
  | ⟨name, desc, required, union, flags⟩ :: fields, members, h => by
    rw [inferMembers] at h
    split at h
    · rename_i hname
      have htypeId : Field.text ⟨name, desc, required, union, flags⟩ = typeIdField := hname
      obtain ⟨shapes, rfl, hitems⟩ := infers_of_inferMembers fields h
      rw [Field.values_cons_of_typeId htypeId]
      exact ⟨shapes, rfl, hitems⟩
    · rename_i hname
      obtain ⟨shape, hshape, h⟩ := outcome_bind_eq_ok.mp h
      obtain ⟨members', hmembers, h⟩ := outcome_bind_eq_ok.mp h
      obtain rfl := Except.ok.inj h
      have hvalue : Field.text ⟨name, desc, required, union, flags⟩ ≠ typeIdField := hname
      obtain ⟨shapes, rfl, hitems⟩ := infers_of_inferMembers fields hmembers
      rw [Field.values_cons hvalue]
      exact ⟨shape :: shapes, rfl, .cons (infers_of_infer desc hshape) hitems⟩

end

/-- No type suggests a shape whose values may be absent. -/
theorem Infers.required {d : Descriptor} {shape : Shape} (h : Infers d shape) :
    shape.required = shape := by
  cases h <;> rfl

theorem Infers.isOptional_eq_false {d : Descriptor} {shape : Shape} (h : Infers d shape) :
    shape.isOptional = false := by
  cases h <;> rfl

end Descriptor

/-! ## Where fields go -/

namespace Shape

/-- Without embedded records, a name goes to the first member that has it. -/
theorem ownMember?_eq {members : List (Member Shape)} (hplain : ∀ m ∈ members, m.embedded = false)
    (name : String) (i : Nat) : ownMember? name i members =
      members[(members.map Member.wireName).idxOf name]?.map fun m =>
        ([i + (members.map Member.wireName).idxOf name], m.shape) := by
  induction members generalizing i with
  | nil => rfl
  | cons m members ih =>
    have hm : m.embedded = false := hplain m List.mem_cons_self
    rw [ownMember?, List.map_cons, List.idxOf_cons]
    by_cases hname : m.wireName = name
    · rw [if_pos (by simp [hm, hname]), hname, beq_self_eq_true, cond_true]
      rfl
    · rw [if_neg (by simp [hname]), beq_false_of_ne hname, cond_false,
        ih (fun m hm => hplain m (List.mem_cons_of_mem _ hm)), List.getElem?_cons_succ]
      simp only [Nat.add_assoc, Nat.add_comm 1]

/-- Without embedded records, a field goes to the first member of its name. -/
theorem resolve?_eq {members : List (Member Shape)} (hplain : ∀ m ∈ members, m.embedded = false)
    (name : String) : resolve? members name =
      members[(members.map Member.wireName).idxOf name]?.map fun m =>
        ([(members.map Member.wireName).idxOf name], m.shape) := by
  have hnone : firstEmbedded? name 0 members = none := by
    refine firstEmbedded?_eq_none_iff.mpr fun m hm inner hnested => ?_
    have hembedded := (Member.nested?_eq_some_iff.mp hnested).1
    rw [hplain m hm] at hembedded
    cases hembedded
  rw [resolve?, ownMember?_eq hplain, hnone, Option.or_none]
  simp only [Nat.zero_add]

end Shape

namespace Descriptor

section

variable {fields : List (Field Descriptor)} {shapes : List Shape}

theorem map_wireName_suggested (h : shapes.length = fields.length) :
    (List.zipWith Field.member fields shapes).map Member.wireName = fields.map Field.text := by
  induction fields generalizing shapes with
  | nil => rfl
  | cons f fields ih =>
    obtain ⟨shape, shapes, rfl⟩ := List.exists_cons_of_length_eq_add_one h
    rw [List.zipWith_cons_cons, List.map_cons, ih (Nat.succ.inj h)]
    rfl

/-- In the shape that a record suggests, a name goes to the member of the first field that has
it. -/
theorem resolve?_suggested (h : shapes.length = fields.length) (name : String) :
    Shape.resolve? (List.zipWith Field.member fields shapes) name =
      (List.zipWith Field.member fields shapes)[(fields.map Field.text).idxOf name]?.map fun m =>
        ([(fields.map Field.text).idxOf name], m.shape) := by
  have hplain : ∀ m ∈ List.zipWith Field.member fields shapes, m.embedded = false := by
    intro m hm
    obtain ⟨i, hi⟩ := List.mem_iff_getElem?.mp hm
    obtain ⟨f, shape, -, -, rfl⟩ := List.getElem?_zipWith_eq_some.mp hi
    rfl
  rw [Shape.resolve?_eq hplain, map_wireName_suggested h]

theorem resolve?_suggested_eq_some (h : shapes.length = fields.length) {name : String}
    {path : StoragePath} {shape : Shape}
    (hresolve : Shape.resolve? (List.zipWith Field.member fields shapes) name =
      some (path, shape)) :
    path = [(fields.map Field.text).idxOf name] ∧
      ∃ f inner, fields[(fields.map Field.text).idxOf name]? = some f ∧
        shapes[(fields.map Field.text).idxOf name]? = some inner ∧ f.text = name ∧
          shape = (f.member inner).shape := by
  rw [resolve?_suggested h] at hresolve
  obtain ⟨m, hm, heq⟩ := Option.map_eq_some_iff.mp hresolve
  obtain ⟨rfl, rfl⟩ := Prod.mk.inj heq
  obtain ⟨f, inner, hf, hinner, rfl⟩ := List.getElem?_zipWith_eq_some.mp hm
  have hname : (fields.map Field.text)[(fields.map Field.text).idxOf name]? = some f.text := by
    rw [List.getElem?_map, hf, Option.map_some]
  obtain ⟨hlt, hget⟩ := List.getElem?_eq_some_iff.mp hname
  exact ⟨rfl, f, inner, hf, hinner, hget.symm.trans (List.getElem_idxOf hlt), rfl⟩

/-- A field of a record finds a member in the shape that the record suggests. -/
theorem resolve?_suggested_field (h : shapes.length = fields.length)
    (hnames : (fields.map Field.text).Nodup) {k : Nat} {f : Field Descriptor}
    (hf : fields[k]? = some f) : ∃ shape, shapes[k]? = some shape ∧
      Shape.resolve? (List.zipWith Field.member fields shapes) f.text =
        some ([k], (f.member shape).shape) := by
  obtain ⟨hlt, rfl⟩ := List.getElem?_eq_some_iff.mp hf
  have hshape : shapes[k]? = some shapes[k] := List.getElem?_eq_getElem (h ▸ hlt)
  -- names are distinct, so the field is the first of its name
  have hfirst : (fields.map Field.text).idxOf fields[k].text = k := by
    have hidx := hnames.idxOf_getElem k (by rwa [List.length_map])
    rwa [List.getElem_map] at hidx
  refine ⟨_, hshape, ?_⟩
  rw [resolve?_suggested h, hfirst, List.getElem?_zipWith_eq_some.mpr ⟨_, _, hf, hshape, rfl⟩,
    Option.map_some]

/-- The member of a field may be absent if the field may. -/
theorem isOptional_member (f : Field Descriptor) (shape : Shape) :
    f.required = true ∨ (f.member shape).shape.isOptional = true := by
  unfold Field.member
  cases f.required with
  | true => exact .inl rfl
  | false => exact .inr rfl

/-- A present value of the member of a field is of the shape that the field suggests. -/
theorem required_member (f : Field Descriptor) {shape : Shape} (h : shape.required = shape) :
    (f.member shape).shape.required = shape := by
  unfold Field.member
  cases f.required with
  | true => exact h
  | false => rfl

end

/-- Every field that is more than the identifier of the type goes to the slot at the position of the
first such field of its name. -/
def FirstSlots (fields : List (BoundField Codec)) : Prop :=
  ∀ (k : Nat) b, (BoundField.values fields)[k]? = some b →
    ∃ codec, b.target = .slot [((BoundField.values fields).map BoundField.name).idxOf b.name] codec

section

variable {layout : RecordLayout} {members : List (Member Shape)}
  {fields : List (Field Descriptor)} {bound : List (BoundField Codec)}

/-- Fields with values stand side by side with bound fields with values. -/
theorem FieldsBind.forall₂_values (h : FieldsBind layout members fields bound) :
    List.Forall₂ (FieldOf layout members) (Field.values fields) (BoundField.values bound) := by
  refine List.rel_filter (fun f b hf => ?_) h.forall₂
  dsimp only
  rw [hf.name]
  rfl

/-- Bound fields have the names of the fields of the type. -/
theorem map_name_of_forall₂ (h : List.Forall₂ (FieldOf layout members) fields bound) :
    bound.map BoundField.name = fields.map Field.text := by
  induction h with
  | nil => rfl
  | cons hf _ ih => exact congrArg₂ List.cons hf.name ih

/-- The only field of its name is told by the name. -/
theorem FieldsBind.eq_of_onlyName (h : FieldsBind layout members fields bound) {i : Nat}
    (honly : Codec.OnlyName bound i) {f g : Field Descriptor} (hf : fields[i]? = some f)
    (hg : g ∈ fields) (hname : g.text = f.text) : g = f := by
  obtain ⟨j, hj⟩ := List.mem_iff_getElem?.mp hg
  have hnames := map_name_of_forall₂ h.forall₂
  have hji : j = i := by
    refine honly j ?_
    rw [← List.getElem?_map, ← List.getElem?_map, hnames, List.getElem?_map, List.getElem?_map, hj,
      hf, Option.map_some, Option.map_some, hname]
  subst hji
  exact Option.some.inj (hj.symm.trans hf)

theorem FieldsBind.firstSlots {shapes : List Shape}
    (arity : shapes.length = (Field.values fields).length)
    (h : FieldsBind layout (List.zipWith Field.member (Field.values fields) shapes) fields bound) :
    FirstSlots bound := by
  intro k b hb
  obtain ⟨hlen, hfields⟩ := forall₂_iff_getElem?.mp h.forall₂_values
  have hk : k < (Field.values fields).length := by
    rw [hlen]
    exact (List.getElem?_eq_some_iff.mp hb).1
  have hf := hfields k _ b (List.getElem?_eq_getElem hk) hb
  have hgoes := hf.target
  have hvalue : b.name ≠ typeIdField :=
    of_decide_eq_true (List.mem_filter.mp (List.mem_of_getElem? hb)).2
  rw [map_name_of_forall₂ h.forall₂_values, hf.name]
  cases htarget : b.target with
  | skip =>
    rw [htarget] at hgoes
    cases hgoes with
    | skip typeId => exact (hvalue (hf.name.trans typeId)).elim
  | slot path codec =>
    rw [htarget] at hgoes
    cases hgoes with
    | slot _ resolved _ =>
      obtain ⟨rfl, -⟩ := resolve?_suggested_eq_some arity resolved
      exact ⟨codec, rfl⟩

end

/-- A field that is the only one of its name goes to the member that it suggests. -/
theorem FieldsBind.suggested {layout : RecordLayout} {fields : List (Field Descriptor)}
    {bound : List (BoundField Codec)} {shapes : List Shape}
    (arity : shapes.length = (Field.values fields).length)
    (h : FieldsBind layout (List.zipWith Field.member (Field.values fields) shapes) fields bound)
    {i : Nat} {b : BoundField Codec} {path : StoragePath} {codec : Codec} (hb : bound[i]? = some b)
    (htarget : b.target = .slot path codec) (honly : Codec.OnlyName bound i) :
    ∃ (k : Nat) (f : Field Descriptor) (shape : Shape), fields[i]? = some f ∧
      (Field.values fields)[k]? = some f ∧ shapes[k]? = some shape ∧
        Shape.resolve? (List.zipWith Field.member (Field.values fields) shapes) f.text =
          some (path, (f.member shape).shape) := by
  obtain ⟨f, slotShape, hf, hresolve, -⟩ := resolves_at h.length h.field hb htarget
  obtain ⟨-, g, shape, hg, hshape, hname, rfl⟩ := resolve?_suggested_eq_some arity hresolve
  -- the member that the field goes to is its own, as no other field has its name
  obtain rfl := h.eq_of_onlyName honly hf (List.mem_filter.mp (List.mem_of_getElem? hg)).1 hname
  exact ⟨_, g, shape, hf, hg, hshape, hresolve⟩

/-- The first part of a type that is bound to the shape that it suggests is so, too. -/
theorem Infers.inner {d : Descriptor} {shape : Shape} {codec element : Codec} (h : Infers d shape)
    (hbinds : Binds d shape codec) (hcodec : codec.inner? = some element) :
    ∃ f ∈ d.fields, ∃ inner, shape.inner? = some inner ∧ Infers f.desc inner ∧
      Binds f.desc inner element := by
  obtain ⟨f, rest, inner, fields, hinner, part⟩ := hbinds.inner hcodec
  have hf : f ∈ d.fields := fields ▸ List.mem_cons_self
  cases h with
  | array _ fields' part' | set _ fields' part' | range _ fields' part'
  | multirange _ fields' part' =>
    obtain rfl := Option.some.inj hinner
    obtain ⟨rfl, -⟩ := List.cons.inj (fields.symm.trans fields')
    exact ⟨f, hf, _, rfl, part', part⟩
  | _ => cases hinner

/-- Below fields that are the only ones of their names, a type that is bound to the shape that it
suggests has parts that are bound to the shapes that they suggest. -/
theorem Infers.part {d : Descriptor} {shape : Shape} {part codec : Codec} (h : Infers d shape)
    (hbinds : Binds d shape codec) (hpart : part.OnlyWithin codec) :
    ∃ d' shape', Infers d' shape' ∧ Binds d' shape' part := by
  induction hpart generalizing d shape with
  | whole => exact ⟨d, shape, h, hbinds⟩
  | array _ ih | set _ ih | range _ ih | multirange _ ih =>
    obtain ⟨f, -, inner, -, hitem, hcodec⟩ := h.inner hbinds rfl
    exact ih hitem hcodec
  | tuple mem _ ih =>
    cases hbinds with
    | tuple _ arity length _ items =>
      cases h with
      | tuple _ _ items' =>
        obtain ⟨i, hi⟩ := List.mem_iff_getElem?.mp mem
        obtain ⟨f, inner, hf, hinner⟩ := exists_item arity length hi
        have hitem := items' i f inner hf hinner
        exact ih hitem (hitem.required ▸ items i f inner _ hf hinner hi)
  | @record id layout bound template i b path codec at_ target passes _ ih =>
    cases hbinds with
    | record kind values length fields codecs =>
      cases h with
      | record _ _ arity items =>
        have hbound : FieldsBind _ _ d.fields bound := ⟨length, fields, codecs⟩
        obtain ⟨k, f, inner, hf, hvalue, hinner, hresolve⟩ :=
          hbound.suggested arity at_ target passes
        have hitem := items k f inner hvalue hinner
        have hcodec := codecs i f b path _ codec hf at_ target hresolve
        rw [required_member f hitem.required] at hcodec
        exact ih hitem hcodec

/-- The records of a codec for the shape that a type suggests store their fields in the order of the
wire, below fields that are the only ones of their names. -/
theorem Infers.firstSlots {d : Descriptor} {shape : Shape} {codec : Codec} (h : Infers d shape)
    (hbinds : Binds d shape codec) {id : Uuid} {layout : RecordLayout}
    {fields : List (BoundField Codec)} {template : Record}
    (hpart : (Codec.record id layout fields template).OnlyWithin codec) : FirstSlots fields := by
  obtain ⟨d', shape', hinfers', hbinds'⟩ := h.part hbinds hpart
  obtain ⟨name, members, rfl, -, -, hbound⟩ := hbinds'.record_fields
  cases hinfers' with
  | record _ _ arity _ => exact hbound.firstSlots arity

end Descriptor

end TypedWire
