import TypedWire.Proofs.Binding.Valued
import TypedWire.Proofs.Codec.Size
import TypedWire.Proofs.Render.Conforms

/-!
# What is read from JSON is encoded

A value that is read for the shape that a type suggests lacks nothing that the wire needs, as long
as the wire may leave out what the shape may. The fields of named tuples are always on the wire, so
these must be required by the type; in types that were read from a stream they are.

- `Descriptor.NamedPresent`: the fields of named tuples are required, in all parts.
- `Descriptor.Infers.not_lacks`: then no value of the shape that a type suggests lacks anything.
- `Descriptor.Binds.payload_eq_ok`: a value that lacks nothing is encoded in its size.
- `Descriptor.encode_fromJson`: what is read from JSON is encoded.
-/

namespace TypedWire.Descriptor

/-- The fields of named tuples and of SQL records are required, other than the identifiers of their
types. -/
def NamedPresent (d : Descriptor) : Prop := d.Everywhere fun node =>
  node.kind = .namedTuple ∨ node.kind = .sqlRecord →
    ∀ f ∈ Field.values node.fields, f.required = true

/-- What holds of all that can be reached from a type holds in all its parts. -/
theorem everywhere_of_reaches {P : Descriptor → Prop} {d : Descriptor}
    (h : ∀ d', d.Reaches d' → P d') : d.Everywhere P := by
  induction d using parts_induction with
  | step d ih =>
    exact .node (h d .here) fun f hf => ih f hf fun d' hreaches => h d' (.part hf hreaches)

/-- In types that were read from a stream the fields of named tuples are required. -/
theorem namedPresent_of_parse {dialect : Dialect} {bs : Bytes} {root : Descriptor}
    (h : Descriptor.parse dialect bs = .ok root) : root.NamedPresent := by
  refine everywhere_of_reaches fun d hreaches hkind f hf => ?_
  have hparts := (formed_of_parse h hreaches).parts
  rcases hkind with hkind | hkind
  all_goals
    rw [hkind] at hparts
    exact hparts f (List.mem_filter.mp hf).1

/-- Only the fields of named tuples and of SQL records are there whatever the type says. -/
theorem kind_of_recordLayout {kind : Kind} (h : recordLayout kind = .named) :
    kind = .namedTuple ∨ kind = .sqlRecord := by
  cases kind with
  | namedTuple => exact .inl rfl
  | sqlRecord => exact .inr rfl
  | _ => cases h

/-- Under distinct names the leaf of a bound field is the member that its field suggests. -/
theorem FieldsBind.suggested_leaf {layout : RecordLayout} {fields : List (Field Descriptor)}
    {bound : List (BoundField Codec)} {shapes : List Shape}
    (arity : shapes.length = (Field.values fields).length)
    (h : FieldsBind layout (List.zipWith Field.member (Field.values fields) shapes) fields bound)
    (hnames : ((Field.values fields).map Field.text).Nodup) {b : BoundField Codec}
    {path : StoragePath} {codec : Codec} {slotShape : Shape} (hb : b ∈ bound)
    (htarget : b.target = .slot path codec)
    (hleaf : Leaf (List.zipWith Field.member (Field.values fields) shapes) path slotShape) :
    ∃ (k : Nat) (f : Field Descriptor) (shape : Shape), (Field.values fields)[k]? = some f ∧
      shapes[k]? = some shape ∧ slotShape = (f.member shape).shape ∧
        b.required = (layout = .named || f.required) ∧
          Binds f.desc (f.member shape).shape.required codec := by
  obtain ⟨i, hi⟩ := List.mem_iff_getElem?.mp hb
  obtain ⟨k, f, shape, hf, hvalue, hshape, hresolve⟩ := h.suggested arity hi htarget
    (h.onlyName hnames hi (h.name_ne_typeId hi htarget))
  exact ⟨k, f, shape, hvalue, hshape, hleaf.unique (.of_resolve? hresolve),
    (h.field i f b hf hi).required, h.codec i f b path _ codec hf hi htarget hresolve⟩

/-- If the fields of named tuples are required, no value of the shape that a type suggests lacks a
part that the wire needs. -/
theorem Infers.not_lacks {d : Descriptor} {shape : Shape} {codec : Codec} {what : String}
    {v : Value} (h : Infers d shape) (hbinds : Binds d shape codec) (hnames : d.DistinctNames)
    (hpresent : d.NamedPresent) : ¬codec.Lacks what shape v := by
  intro hlacks
  induction hlacks generalizing d with
  | array _ _ ih | set _ _ ih | range _ _ ih | multirange _ _ _ ih =>
    obtain ⟨f, hf, inner, hinner, hitem, hcodec⟩ := h.inner hbinds rfl
    obtain rfl := Option.some.inj hinner
    exact ih hitem hcodec (hnames.part hf) (hpresent.part hf)
  | item hshape optional _ _ =>
    cases h with
    | tuple _ arity items =>
      have hlt := arity ▸ (List.getElem?_eq_some_iff.mp hshape).1
      have hitem := items _ _ _ (List.getElem?_eq_getElem hlt) hshape
      cases hitem.isOptional_eq_false.symm.trans optional
  | @inItem _ _ _ _ i codec shape v hcodec hshape _ _ ih =>
    cases hbinds with
    | tuple _ arity length _ items =>
      cases h with
      | tuple _ _ items' =>
        obtain ⟨f, inner, hf, -⟩ := exists_item arity length hcodec
        have hmem := List.mem_of_getElem? hf
        have hitem := items' i f shape hf hshape
        exact ih (hitem.required.symm ▸ hitem) (items i f shape codec hf hshape hcodec)
          (hnames.part hmem) (hpresent.part hmem)
  | @member _ _ bound _ _ _ _ b path codec shape mem target required leaf optional _ _ =>
    cases hbinds with
    | record kind _ length fields codecs =>
      cases h with
      | record _ _ arity items =>
        have hbound : FieldsBind _ _ d.fields bound := ⟨length, fields, codecs⟩
        obtain ⟨k, f, inner, hvalue, hinner, rfl, hrequired, -⟩ :=
          hbound.suggested_leaf arity (hnames.here kind) mem target leaf
        -- the wire needs the field as the type requires it, or as one of a named tuple
        have hf : f.required = true := by
          rcases Bool.or_eq_true_iff.mp (hrequired.symm.trans required) with hnamed | hf
          · exact hpresent.here (kind_of_recordLayout (of_decide_eq_true hnamed)) f
              (List.mem_of_getElem? hvalue)
          · exact hf
        rw [Field.member, if_pos hf, (items k f inner hvalue hinner).isOptional_eq_false]
          at optional
        cases optional
  | @inMember _ _ bound _ _ _ _ b path codec shape v mem target leaf _ _ _ ih =>
    cases hbinds with
    | record kind _ length fields codecs =>
      cases h with
      | record _ _ arity items =>
        have hbound : FieldsBind _ _ d.fields bound := ⟨length, fields, codecs⟩
        obtain ⟨k, f, inner, hvalue, hinner, rfl, -, hcodec⟩ :=
          hbound.suggested_leaf arity (hnames.here kind) mem target leaf
        have hitem := items k f inner hvalue hinner
        have hmem := (List.mem_filter.mp (List.mem_of_getElem? hvalue)).1
        rw [required_member f hitem.required] at hcodec ih
        exact ih hitem hcodec (hnames.part hmem) (hpresent.part hmem)

/-- A value of the shape that its codec is bound to is encoded in its size, if it lacks nothing, the
wire has a count of its durations, and four bytes can count its bytes. -/
theorem Binds.payload_eq_ok {d : Descriptor} {shape : Shape} {codec : Codec} {v : Value}
    (h : Binds d shape codec) (hv : v.Sound shape) (hlacks : ∀ what, ¬codec.Lacks what shape v)
    (hsize : codec.size v < Element.absent.toNat) :
    ∃ bytes, codec.payload v = .ok bytes ∧ bytes.length = codec.size v := by
  have hsized := Codec.sized_payload codec v
  cases hpayload : codec.payload v with
  | ok bytes => exact ⟨bytes, rfl, hsized.length hpayload⟩
  | error e =>
    rcases h.fails_causes hv.conforms e hpayload with
      ⟨length, rfl⟩ | ⟨what, -, hlack⟩ | ⟨-, duration, hwithin, hnone⟩
    · have hlimit : Element.absent.toNat < UInt32.size := by decide
      have hlong := hsized.tooLong hpayload
      omega
    · exact (hlacks what hlack).elim
    · cases hwithin.all hv.all with
      | scalar here =>
        obtain ⟨micros, hmicros⟩ := here
        cases hnone.symm.trans hmicros

/-- Whatever is read from JSON for the shape that a type suggests is a value of the shape. The codec
of the type encodes it, unless it leaves out what the wire needs; and this it cannot do if the
fields of named tuples are required, as they are in a type that was read from a stream. -/
theorem encode_fromJson {d : Descriptor} {shape : Shape} {codec : Codec} {json : Json} {v : Value}
    (hnames : d.DistinctNames) (hshape : d.shapeFor true = .ok shape)
    (hbind : d.bind true shape = .ok codec) (hjson : shape.fromJson json = .ok v) :
    v.Conforms shape ∧
      (codec.Complete v ∨ d.NamedPresent ∨
          (∃ dialect bs, Descriptor.parse dialect bs = .ok d) →
        codec.size v < Element.absent.toNat →
          ∃ w bytes, codec.encode v .empty = .ok w ∧ w.intoBytes = .ok bytes ∧
            bytes.length = codec.size v) := by
  obtain ⟨inner, hinner, hsame⟩ := outcome_bind_eq_ok.mp hshape
  obtain rfl : inner = shape := Except.ok.inj hsame
  have hinfers := infers_of_infer d hinner
  have hbinds : Binds d inner codec := hinfers.required ▸ binds_of_bind hbind
  have hsound := Shape.fromJson_sound inner hjson
  refine ⟨hsound.conforms, fun hpresent hsize => ?_⟩
  have hlacks : ∀ what, ¬codec.Lacks what inner v := by
    intro what hlack
    rcases hpresent with hcomplete | hpresent | ⟨dialect, bs, hparse⟩
    · exact hlack.not_complete hcomplete
    · exact hinfers.not_lacks hbinds hnames hpresent hlack
    · exact hinfers.not_lacks hbinds hnames (namedPresent_of_parse hparse) hlack
  obtain ⟨bytes, hpayload, hlength⟩ := hbinds.payload_eq_ok hsound hlacks hsize
  refine ⟨Writer.empty.raw bytes, bytes, ?_, rfl, hlength⟩
  rw [codec.writes_encode v, hpayload]
  rfl

/-- An argument with a pair, and with a note that is left out. -/
theorem encode_fromJson_pair :
    let pair := ofFields .namedTuple .nil
      [.named "x" (ofFields .baseScalar ScalarType.int16.id []) true]
    let d := ofFields .inputShape (.ofNat 1)
      [.named "pair" pair true,
        .named "note" (ofFields .baseScalar ScalarType.str.id []) false]
    let shape := Shape.record d.recordName
      [⟨"pair", none, .record pair.recordName [⟨"x", none, .scalar .int16, false⟩], false⟩,
        ⟨"note", none, .optional (.scalar .str), false⟩]
    let json := Json.object [("pair", .object [("x", .int 7)])]
    let v := Value.record [.record [.scalar (.int16 7)], .null]
    ∃ codec, d.DistinctNames ∧ d.NamedPresent ∧ d.shapeFor true = .ok shape ∧
      d.bind true shape = .ok codec ∧ shape.fromJson json = .ok v ∧ v.Conforms shape ∧
        ∃ w bytes, codec.encode v .empty = .ok w ∧ w.intoBytes = .ok bytes ∧
          bytes.length = codec.size v := by
  intro pair d shape json v
  have hscalar : ∀ {P : Descriptor → Prop} {type : ScalarType},
      P (ofFields .baseScalar type.id []) → (ofFields .baseScalar type.id []).Everywhere P :=
    fun h => .node h (List.forall_mem_nil _)
  have hnames : d.DistinctNames := by
    have hpair : pair.DistinctNames := .node (fun _ => by decide)
      (List.forall_mem_singleton.mpr (hscalar nofun))
    refine .node (fun _ => by decide) (List.forall_mem_cons.mpr ⟨hpair, ?_⟩)
    exact List.forall_mem_singleton.mpr (hscalar nofun)
  have hpresent : d.NamedPresent := by
    have hpair : pair.NamedPresent := .node (fun _ => List.forall_mem_singleton.mpr rfl)
      (List.forall_mem_singleton.mpr (hscalar nofun))
    refine .node nofun (List.forall_mem_cons.mpr ⟨hpair, ?_⟩)
    exact List.forall_mem_singleton.mpr (hscalar nofun)
  have hshape : d.shapeFor true = .ok shape := rfl
  have hbind : d.bind true shape = .ok _ := rfl
  have hjson : shape.fromJson json = .ok v := rfl
  obtain ⟨hv, hencode⟩ := encode_fromJson hnames hshape hbind hjson
  refine ⟨_, hnames, hpresent, hshape, hbind, hjson, hv, ?_⟩
  exact hencode (.inr (.inl hpresent)) (by decide)

/-- A named tuple with a field that is not required. A value of the shape that it suggests may leave
out the field, which the wire needs. -/
theorem encode_fromJson_absent :
    let d := ofFields .namedTuple (.ofNat 1)
      [.named "x" (ofFields .baseScalar ScalarType.int16.id []) false]
    let v := Value.record [.null]
    d.DistinctNames ∧ ∃ shape codec, d.shapeFor true = .ok shape ∧ d.bind true shape = .ok codec ∧
      shape.fromJson (.object []) = .ok v ∧ codec.size v < Element.absent.toNat ∧
        codec.encode v .empty = .error (.missingRequired "x") := by
  intro d v
  have hnames : d.DistinctNames := .node (fun _ => by decide)
    (List.forall_mem_singleton.mpr (.node nofun (List.forall_mem_nil _)))
  exact ⟨hnames, _, _, rfl, rfl, rfl, by decide, rfl⟩

end TypedWire.Descriptor
