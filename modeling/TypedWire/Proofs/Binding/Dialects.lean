import TypedWire.Proofs.Binding.Binds

/-!
# Types of the two dialects that bind alike

The dialects describe one type by different nodes: an object shape is an object without a name in
the first, a scalar type of a schema has its base as a part in the first and as an ancestor in the
second. Binding sees none of it.

- `Descriptor.form`: the kind of a type, whatever its dialect calls it.
- `Descriptor.Corresponds d e`: `d` of the first dialect and `e` of the second stand for one type.
- `Descriptor.Alike`: the same in either order, with its inversion `Alike.cases`.
- `Descriptor.bind_iff_of_corresponds`: the two have the same codec for every shape, or none.
-/

namespace TypedWire.Descriptor

/-- The kind of a type, whatever its dialect calls it. An object with a name is an object type of
the second dialect, which has no values. -/
def form (d : Descriptor) : Kind :=
  match d.kind with
  | .object => if d.name.isSome then .object else .objectShape
  | .baseScalar => if (ScalarType.ofId? d.id).isSome then .scalar else .baseScalar
  | kind => kind

/-- Whether a type is a scalar type of a schema, which stands on another one. -/
def IsCustom (d : Descriptor) : Prop :=
  d.kind = .scalar ∧ ScalarType.ofId? d.id = none

/-- Whether two edges say the same of the parts that they lead to. -/
structure SameEdge (f g : Field Descriptor) : Prop where
  name : f.name = g.name
  required : f.required = g.required
  flags : f.flags = g.flags

/-- Whether two types look the same down to their edges. -/
structure SameNode (d e : Descriptor) : Prop where
  id : d.id = e.id
  form : d.form = e.form
  builtIn : ¬d.IsCustom
  arity : d.fields.length = e.fields.length
  edges : ∀ (i : Nat) f g, d.fields[i]? = some f → e.fields[i]? = some g → SameEdge f g

/-- `d` of the first dialect and `e` of the second stand for one type. Names of types, ancestors and
whatever else a node says are free. -/
inductive Corresponds : Descriptor → Descriptor → Prop
  | node {d e : Descriptor} (same : SameNode d e)
      (parts : ∀ (i : Nat) f g, d.fields[i]? = some f → e.fields[i]? = some g →
        Corresponds f.desc g.desc) : Corresponds d e
  /-- The base of a scalar type of a schema is its only part, or the last of its ancestors. -/
  | custom {d e base : Descriptor} {f : Field Descriptor} (id : d.id = e.id) (first : d.IsCustom)
      (second : e.IsCustom) (part : d.fields = [f]) (noParts : e.fields = [])
      (last : e.ancestors.getLast? = some base) (bases : Corresponds f.desc base) :
      Corresponds d e

/-! ## What a form says of a kind -/

section Form

variable {d e : Descriptor}

theorem form_eq_iff {kind : Kind} (hobject : kind ≠ .object ∧ kind ≠ .objectShape)
    (hscalar : kind ≠ .baseScalar ∧ kind ≠ .scalar) : d.form = kind ↔ d.kind = kind := by
  unfold form
  grind

/-- A form tells the scalar types. -/
theorem isScalar_iff_form : (d.kind = .baseScalar ∨ d.kind = .scalar ∨ d.kind = .enum) ↔
    (d.form = .baseScalar ∨ d.form = .scalar ∨ d.form = .enum) := by
  unfold form
  grind

/-- A form tells the types of records and their layout. -/
theorem isRecord_form : d.form.isRecord = d.kind.isRecord := by
  unfold form
  grind [Kind.isRecord]

theorem recordLayout_form : recordLayout d.form = recordLayout d.kind := by
  unfold form
  grind [recordLayout]

/-- A form tells the object types, which have no values. -/
theorem form_eq_object_iff : d.form = .object ↔ d.kind = .object ∧ d.name.isSome := by
  unfold form
  grind

/-- A scalar type of a schema is no other by its form. -/
theorem isCustom_iff : d.IsCustom ↔ d.form = .scalar ∧ ScalarType.ofId? d.id = none := by
  unfold IsCustom form
  grind

theorem SameNode.symm (h : SameNode d e) : SameNode e d where
  id := h.id.symm
  form := h.form.symm
  builtIn := by
    rw [isCustom_iff, ← h.form, ← h.id, ← isCustom_iff]
    exact h.builtIn
  arity := h.arity.symm
  edges i f g hf hg :=
    have hedge := h.edges i g f hg hf
    ⟨hedge.name.symm, hedge.required.symm, hedge.flags.symm⟩

end Form

/-! ## The scalar types behind types that correspond -/

theorem lastBase_of_getLast? {id : Uuid} {base : Descriptor} (ancestors : List Descriptor)
    (h : ancestors.getLast? = some base) : lastBase id ancestors = base.scalarBase := by
  induction ancestors with
  | nil => cases h
  | cons first ancestors ih =>
    cases ancestors with
    | nil =>
      obtain rfl : first = base := Option.some.inj h
      rw [lastBase]
    | cons second ancestors =>
      rw [lastBase]
      · exact ih h
      · intro hnil
        cases hnil

/-- Behind a type with no base there is the type of its identifier, or a text. -/
theorem scalarBase_of_not_isCustom {d : Descriptor} (h : ¬d.IsCustom) :
    d.scalarBase = match ScalarType.ofId? d.id with
      | some type => .ok type
      | none => if d.kind = .enum then .ok .str else .error (.unsupportedScalar d.id) := by
  obtain ⟨kind, id, fields, name, schemaDefined, ancestors, op⟩ := d
  rw [scalarBase.eq_def]
  dsimp only
  cases hid : ScalarType.ofId? id with
  | some type => rfl
  | none =>
    cases kind with
    | scalar => exact absurd ⟨rfl, hid⟩ h
    | _ => rfl

/-- The scalar type behind a type of a schema is the one behind its base, in the first dialect. -/
theorem IsCustom.scalarBase_part {d : Descriptor} {f : Field Descriptor}
    (h : d.IsCustom) (hpart : d.fields = [f]) : d.scalarBase = f.desc.scalarBase := by
  obtain ⟨kind, id, fields, name, schemaDefined, ancestors, op⟩ := d
  obtain ⟨rfl, hid⟩ := h
  obtain rfl : fields = [f] := hpart
  rw [scalarBase.eq_def]
  dsimp only at hid ⊢
  rw [hid]

/-- The scalar type behind a type of a schema is the one behind its base, in the second dialect. -/
theorem IsCustom.scalarBase_last {d base : Descriptor} (h : d.IsCustom) (hparts : d.fields = [])
    (hlast : d.ancestors.getLast? = some base) : d.scalarBase = base.scalarBase := by
  obtain ⟨kind, id, fields, name, schemaDefined, ancestors, op⟩ := d
  obtain ⟨rfl, hid⟩ := h
  obtain rfl : fields = [] := hparts
  rw [scalarBase.eq_def]
  dsimp only at hid ⊢
  rw [hid]
  exact lastBase_of_getLast? ancestors hlast

/-- Types that correspond stand on one scalar type, or fail for one reason. -/
theorem Corresponds.scalarBase_eq {d e : Descriptor} (h : Corresponds d e) :
    d.scalarBase = e.scalarBase := by
  induction h with
  | @node d e same parts ih =>
    have henum : d.kind = .enum ↔ e.kind = .enum := by
      rw [← form_eq_iff (by simp) (by simp), same.form, form_eq_iff (by simp) (by simp)]
    rw [scalarBase_of_not_isCustom same.builtIn, scalarBase_of_not_isCustom same.symm.builtIn]
    simp only [same.id, henum]
  | custom id first second part noParts last bases ih =>
    rw [first.scalarBase_part part, second.scalarBase_last noParts last, ih]

/-! ## Types alike in either order -/

/-- Two types that correspond, in either order. -/
def Alike (d e : Descriptor) : Prop :=
  Corresponds d e ∨ Corresponds e d

namespace Alike

variable {d e : Descriptor}

/-- Types that are alike are two scalar types of schemas, or they are alike node by node. -/
theorem cases (h : Alike d e) : (d.id = e.id ∧ d.IsCustom ∧ e.IsCustom) ∨
    (SameNode d e ∧ ∀ (i : Nat) f g, d.fields[i]? = some f → e.fields[i]? = some g →
      Alike f.desc g.desc) := by
  rcases h with h | h
  · cases h with
    | node same parts => exact .inr ⟨same, fun i f g hf hg => .inl (parts i f g hf hg)⟩
    | custom id first second => exact .inl ⟨id, first, second⟩
  · cases h with
    | node same parts => exact .inr ⟨same.symm, fun i f g hf hg => .inr (parts i g f hg hf)⟩
    | custom id first second => exact .inl ⟨id.symm, second, first⟩

theorem id_eq (h : Alike d e) : d.id = e.id := by
  rcases h.cases with ⟨hid, -⟩ | ⟨same, -⟩
  · exact hid
  · exact same.id

theorem form_eq (h : Alike d e) : d.form = e.form := by
  rcases h.cases with ⟨-, hd, he⟩ | ⟨same, -⟩
  · rw [(isCustom_iff.mp hd).1, (isCustom_iff.mp he).1]
  · exact same.form

theorem kind_iff (h : Alike d e) (kind : Kind) (hobject : kind ≠ .object ∧ kind ≠ .objectShape)
    (hscalar : kind ≠ .baseScalar ∧ kind ≠ .scalar) : d.kind = kind ↔ e.kind = kind := by
  rw [← form_eq_iff hobject hscalar, h.form_eq, form_eq_iff hobject hscalar]

theorem scalarBase_eq (h : Alike d e) : d.scalarBase = e.scalarBase := by
  rcases h with h | h
  · exact h.scalarBase_eq
  · exact h.scalarBase_eq.symm

/-- Either type may be the type of the bounds of a range, or neither. -/
theorem checkRangeElement_eq (h : Alike d e) : checkRangeElement d = checkRangeElement e := by
  unfold checkRangeElement
  simp only [h.scalarBase_eq, h.kind_iff .enum (by simp) (by simp)]

/-- Types that are alike and no scalar types are alike node by node. -/
theorem node (h : Alike d e) (hd : d.kind ≠ .scalar) : SameNode d e ∧
    ∀ (i : Nat) f g, d.fields[i]? = some f → e.fields[i]? = some g → Alike f.desc g.desc := by
  rcases h.cases with ⟨-, hcustom, -⟩ | h
  · exact absurd hcustom.1 hd
  · exact h

/-- The only part of one type has a partner in the other. -/
theorem first_part (h : Alike d e) (hd : d.kind ≠ .scalar) {f : Field Descriptor}
    {rest : List (Field Descriptor)} (hfields : d.fields = f :: rest) :
    ∃ g rest', e.fields = g :: rest' ∧ Alike f.desc g.desc := by
  obtain ⟨same, hparts⟩ := h.node hd
  have hlen : e.fields.length = rest.length + 1 := by rw [← same.arity, hfields]; rfl
  obtain ⟨g, rest', hg⟩ := List.exists_cons_of_length_eq_add_one hlen
  exact ⟨g, rest', hg, hparts 0 f g (by rw [hfields]; rfl) (by rw [hg]; rfl)⟩

end Alike

/-! ## One codec for both -/

/-- A field goes where one with the same edge goes. -/
theorem FieldOf.congr {layout : RecordLayout} {members : List (Member Shape)}
    {f g : Field Descriptor} {b : BoundField Codec} (h : FieldOf layout members f b)
    (hedge : SameEdge f g) : FieldOf layout members g b where
  name := hedge.name ▸ h.name
  required := hedge.required ▸ h.required
  flags := hedge.flags ▸ h.flags
  target := by
    have hgoes := h.target
    generalize b.target = target at hgoes ⊢
    cases hgoes with
    | skip typeId => exact .skip (hedge.name ▸ typeId)
    | slot value resolved absence =>
      exact .slot (hedge.name ▸ value) (hedge.name ▸ resolved) (hedge.required ▸ absence)

/-- A codec of a type is one of every type alike. -/
theorem Binds.of_alike {d e : Descriptor} {shape : Shape} {codec : Codec} (h : Binds d shape codec)
    (halike : Alike d e) : Binds e shape codec := by
  induction h generalizing e with
  | scalar kind base =>
    rw [halike.id_eq]
    refine .scalar ?_ (halike.scalarBase_eq ▸ base)
    rw [isScalar_iff_form, ← halike.form_eq, ← isScalar_iff_form]
    exact kind
  | array kind fields element ih =>
    obtain ⟨g, rest, hg, hpart⟩ := halike.first_part (by simp [kind]) fields
    rw [halike.id_eq]
    exact .array ((halike.kind_iff _ (by simp) (by simp)).mp kind) hg (ih hpart)
  | set kind fields element ih =>
    obtain ⟨g, rest, hg, hpart⟩ := halike.first_part (by simp [kind]) fields
    rw [halike.id_eq]
    exact .set ((halike.kind_iff _ (by simp) (by simp)).mp kind) hg (ih hpart)
  | setAsArray kind fields element ih =>
    obtain ⟨g, rest, hg, hpart⟩ := halike.first_part (by simp [kind]) fields
    rw [halike.id_eq]
    exact .setAsArray ((halike.kind_iff _ (by simp) (by simp)).mp kind) hg (ih hpart)
  | @tuple d shapes codecs kind arity length scalars items ih =>
    obtain ⟨same, hparts⟩ := halike.node (by simp [kind])
    rw [same.id]
    refine .tuple ((halike.kind_iff _ (by simp) (by simp)).mp kind) (same.arity ▸ arity)
      (same.arity ▸ length) scalars ?_
    intro i g shape codec hg hshape hcodec
    obtain ⟨f, -, hf, -⟩ := exists_item arity length hcodec
    exact ih i f shape codec hf hshape hcodec (hparts i f g hf hg)
  | @record d name members bound kind values length fields codecs ih =>
    obtain ⟨same, hparts⟩ := halike.node (by rintro h; rw [h] at kind; cases kind)
    have hlayout : recordLayout d.kind = recordLayout e.kind := by
      rw [← recordLayout_form, same.form, recordLayout_form]
    have hbound : FieldsBind (recordLayout d.kind) members d.fields bound :=
      ⟨length, fields, codecs⟩
    rw [same.id, hlayout]
    refine .record ?_ ?_ (same.arity ▸ length) ?_ ?_
    · rw [← isRecord_form, ← same.form, isRecord_form]
      exact kind
    · rw [← form_eq_object_iff, ← same.form, form_eq_object_iff]
      exact values
    · intro i g b hg hb
      obtain ⟨f, hf⟩ := hbound.exists_field hb
      rw [← hlayout]
      exact (fields i f b hf hb).congr (same.edges i f g hf hg)
    · intro i g b path shape codec hg hb htarget hresolve
      obtain ⟨f, hf⟩ := hbound.exists_field hb
      rw [← (same.edges i f g hf hg).name] at hresolve
      exact ih i f b path shape codec hf hb htarget hresolve (hparts i f g hf hg)
  | range kind fields ranged element ih =>
    obtain ⟨g, rest, hg, hpart⟩ := halike.first_part (by simp [kind]) fields
    rw [halike.id_eq]
    exact .range ((halike.kind_iff _ (by simp) (by simp)).mp kind) hg
      (hpart.checkRangeElement_eq ▸ ranged) (ih hpart)
  | multirange kind fields ranged element ih =>
    obtain ⟨g, rest, hg, hpart⟩ := halike.first_part (by simp [kind]) fields
    rw [halike.id_eq]
    exact .multirange ((halike.kind_iff _ (by simp) (by simp)).mp kind) hg
      (hpart.checkRangeElement_eq ▸ ranged) (ih hpart)

/-- Types of the two dialects that correspond are bound to the same shapes, with the same codecs. -/
theorem bind_iff_of_corresponds {d e : Descriptor} (h : Corresponds d e) (required : Bool)
    (shape : Shape) (codec : Codec) :
    d.bind required shape = .ok codec ↔ e.bind required shape = .ok codec := by
  rw [bind_eq, bind_eq]
  split
  · constructor <;> rintro ⟨⟩
  · rw [build_ok_iff, build_ok_iff]
    exact ⟨fun hd => hd.of_alike (.inl h), fun he => he.of_alike (.inr h)⟩

/-- An object with a scalar type of the schema, which stands on another one of the schema. -/
theorem bind_iff_of_corresponds_score :
    let points := ofFields .scalar (.ofNat 8)
      [.element (ofFields .baseScalar ScalarType.int64.id [])]
    let first := ofFields .object .nil
      [.named "score" (ofFields .scalar (.ofNat 7) [.element points]) false]
    let int64 : Descriptor := ⟨.scalar, ScalarType.int64.id, [], some "std::int64", false, [], none⟩
    let points' : Descriptor := ⟨.scalar, .ofNat 8, [], some "default::points", true, [int64], none⟩
    let score' : Descriptor := ⟨.scalar, .ofNat 7, [], some "default::score", true,
      [int64, points'], none⟩
    let second := ofFields .objectShape .nil [.named "score" score' false]
    let shape := Shape.record "Result" [⟨"score", none, .optional (.scalar .int64), false⟩]
    Corresponds first second ∧
      ∃ codec, first.bind true shape = .ok codec ∧ second.bind true shape = .ok codec := by
  intro points first int64 points' score' second shape
  have hint64 : Corresponds (ofFields .baseScalar ScalarType.int64.id []) int64 := by
    refine .node ⟨rfl, rfl, ?_, rfl, fun _ _ _ hf => nomatch hf⟩ fun _ _ _ hf => nomatch hf
    rintro ⟨⟨⟩, -⟩
  have hpoints : Corresponds points points' :=
    .custom rfl ⟨rfl, rfl⟩ ⟨rfl, rfl⟩ rfl rfl rfl hint64
  have hscore : Corresponds (ofFields .scalar (.ofNat 7) [.element points]) score' :=
    .custom rfl ⟨rfl, rfl⟩ ⟨rfl, rfl⟩ rfl rfl rfl hpoints
  have hcorresponds : Corresponds first second := by
    refine .node ⟨rfl, rfl, ?_, rfl, ?_⟩ ?_
    · rintro ⟨⟨⟩, -⟩
    · rintro (_ | _) f g ⟨⟩ ⟨⟩
      exact ⟨rfl, rfl, rfl⟩
    · rintro (_ | _) f g ⟨⟩ ⟨⟩
      exact hscore
  have hbind : first.bind true shape = .ok _ := rfl
  exact ⟨hcorresponds, _, hbind, (bind_iff_of_corresponds hcorresponds true shape _).mp hbind⟩

end TypedWire.Descriptor
