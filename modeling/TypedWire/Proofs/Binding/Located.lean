import TypedWire.Proofs.Binding.Infers

/-!
# Where binding fails

A type fails to bind over its own kind, or over the first of its parts, in the order of the wire,
that cannot be bound. Then the failure is that of binding the part alone, seen from the type.

- `BindError.below way e`: the failure `e`, with the way to it before its path.
- `Descriptor.Takes`, `Descriptor.Expects`: the shapes that a type is matched with.
- `Descriptor.Unfit d shape e`: `e` is why the type itself does not fit the shape.
- `Descriptor.FirstMisfit d shape e`: `e` is why the type, or the first of its parts that cannot be
  bound, does not fit.
- `Descriptor.build_at`: binding at a path gives the failures of binding at the root, below the path.
- `Descriptor.build_locates`: binding fails with the first misfit.
-/

namespace TypedWire

/-- The failure as it is seen from further up, with the way down before its path. A failure without
a path stays as it is. -/
def BindError.below (way : List String) : BindError → BindError
  | .shapeMismatch path expected found => .shapeMismatch (way ++ path) expected found
  | .cardinality path found => .cardinality (way ++ path) found
  | .nonScalarTupleElement path index => .nonScalarTupleElement (way ++ path) index
  | e => e

/-- The text of a path starts with its first component, and that of the empty path names the
root. -/
theorem BindError.pathText_cons (component : String) (path : List String) :
    pathText (component :: path) =
      if path = [] then component else component ++ "." ++ pathText path := by
  cases path with
  | nil => rfl
  | cons next path => exact String.intercalate_cons_cons

namespace Descriptor

/-! ## A type itself -/

/-- The shapes that a type is matched with. The shape of a tuple has as many items. -/
inductive Takes (d : Descriptor) : Shape → Prop
  | scalar {type : ScalarType} (kind : d.kind = .baseScalar ∨ d.kind = .scalar ∨ d.kind = .enum)
      (base : d.scalarBase = .ok type) : Takes d (.scalar type)
  | array {inner : Shape} (kind : d.kind = .array) : Takes d (.array inner)
  | set {inner : Shape} (kind : d.kind = .set) : Takes d (.set inner)
  /-- A set may be taken as an array. -/
  | setAsArray {inner : Shape} (kind : d.kind = .set) : Takes d (.array inner)
  | tuple {shapes : List Shape} (kind : d.kind = .tuple)
      (arity : shapes.length = d.fields.length) : Takes d (.tuple shapes)
  | record {name : String} {members : List (Member Shape)} (kind : d.kind.isRecord = true)
      (values : ¬(d.kind = .object ∧ d.name.isSome)) : Takes d (.record name members)
  | range {inner : Shape} (kind : d.kind = .range) : Takes d (.range inner)
  | multirange {inner : Shape} (kind : d.kind = .multirange) : Takes d (.multirange inner)

/-- What the shapes that a type is matched with are called. -/
inductive Expects (d : Descriptor) : String → Prop
  | scalar {type : ScalarType} (kind : d.kind = .baseScalar ∨ d.kind = .scalar ∨ d.kind = .enum)
      (base : d.scalarBase = .ok type) : Expects d type.name
  | tuple (kind : d.kind = .tuple) : Expects d s!"tuple of {d.fields.length}"
  | part (kind : d.kind = .array ∨ d.kind = .set ∨ d.kind = .range ∨ d.kind = .multirange) :
      Expects d d.kind.name
  | record (kind : d.kind.isRecord = true) (values : ¬(d.kind = .object ∧ d.name.isSome)) :
      Expects d d.kind.name

/-- The failure is why the type itself does not fit the shape. -/
inductive Unfit (d : Descriptor) (shape : Shape) : BindError → Prop
  /-- No built-in scalar type is behind a scalar type. -/
  | noBase {e : BindError} (kind : d.kind = .baseScalar ∨ d.kind = .scalar ∨ d.kind = .enum)
      (base : d.scalarBase = .error e) : Unfit d shape e
  /-- The type has no values. -/
  | noValues (kind : d.kind = .compound ∨ d.kind = .object ∧ d.name.isSome) :
      Unfit d shape (.notBindable d.kind)
  /-- The shape is of another kind. -/
  | otherShape {name : String} (expects : d.Expects name) (other : ¬d.Takes shape) :
      Unfit d shape (.shapeMismatch [] name shape.text)
  /-- The type has not the part that it is made of. -/
  | noPart (takes : d.Takes shape)
      (kind : d.kind = .array ∨ d.kind = .set ∨ d.kind = .range ∨ d.kind = .multirange)
      (fields : d.fields = []) : Unfit d shape (.notBindable d.kind)
  /-- There are no ranges over the part of a range. -/
  | noRange {f : Field Descriptor} {rest : List (Field Descriptor)} {e : BindError}
      (takes : d.Takes shape) (kind : d.kind = .range ∨ d.kind = .multirange)
      (fields : d.fields = f :: rest) (ranged : checkRangeElement f.desc = .error e) :
      Unfit d shape e

mutual

/-- Where there is no built-in scalar type behind a type, the failure names a type. -/
theorem scalarBase_eq_error : ∀ (d : Descriptor) {e : BindError}, d.scalarBase = .error e →
    ∃ id, e = .unsupportedScalar id
  | ⟨kind, id, fields, name, schemaDefined, ancestors, op⟩, e, h => by
    rw [scalarBase.eq_def] at h
    dsimp only at h
    split at h
    · cases h
    · cases kind with
      | scalar =>
        cases fields with
        | nil => exact lastBase_eq_error ancestors h
        | cons f rest =>
          obtain ⟨_, base, _, _, _⟩ := f
          exact scalarBase_eq_error base h
      | enum => cases h
      | _ => exact ⟨id, (Except.error.inj h).symm⟩

theorem lastBase_eq_error {id : Uuid} : ∀ (ancestors : List Descriptor) {e : BindError},
    lastBase id ancestors = .error e → ∃ id', e = .unsupportedScalar id'
  | [], e, h => by
    rw [lastBase] at h
    exact ⟨id, (Except.error.inj h).symm⟩
  | [base], e, h => by
    rw [lastBase] at h
    exact scalarBase_eq_error base h
  | _ :: base :: ancestors, e, h => by
    rw [lastBase] at h
    · exact lastBase_eq_error (base :: ancestors) h
    · rintro ⟨⟩

end

/-- A type is no element of ranges as none of the scalar types, or as one of the others. -/
theorem checkRangeElement_eq_error {d : Descriptor} {e : BindError}
    (h : checkRangeElement d = .error e) :
    (∃ id, e = .unsupportedScalar id) ∨ ∃ range, e = .unsupportedRangeType range := by
  rcases outcome_bind_eq_error.mp h with hbase | ⟨type, -, h⟩
  · exact .inl (scalarBase_eq_error d hbase)
  · split at h
    · exact .inr ⟨_, (Except.error.inj h).symm⟩
    · cases h

/-- That a type itself does not fit is told at the root, or without a path. -/
theorem Unfit.at_root {d : Descriptor} {shape : Shape} {e : BindError} (h : d.Unfit shape e) :
    (∃ expected, e = .shapeMismatch [] expected shape.text) ∨ ∀ way, e.below way = e := by
  cases h with
  | noBase _ base =>
    obtain ⟨id, rfl⟩ := scalarBase_eq_error d base
    exact .inr fun _ => rfl
  | otherShape _ _ => exact .inl ⟨_, rfl⟩
  | noRange _ _ _ ranged =>
    rcases checkRangeElement_eq_error ranged with ⟨id, rfl⟩ | ⟨range, rfl⟩ <;>
      exact .inr fun _ => rfl
  | _ => exact .inr fun _ => rfl

/-- A type has no scalar type behind it, or has no values, or there are shapes that it takes. -/
theorem exists_expects (d : Descriptor) :
    ((d.kind = .baseScalar ∨ d.kind = .scalar ∨ d.kind = .enum) ∧ ∃ e, d.scalarBase = .error e) ∨
      (d.kind = .compound ∨ d.kind = .object ∧ d.name.isSome) ∨ ∃ name, d.Expects name := by
  cases hkind : d.kind with
  | baseScalar | scalar | enum =>
    cases hbase : d.scalarBase with
    | ok type => exact .inr (.inr ⟨_, .scalar (by simp [hkind]) hbase⟩)
    | error e => exact .inl ⟨by simp, e, rfl⟩
  | compound => exact .inr (.inl (.inl rfl))
  | tuple => exact .inr (.inr ⟨_, .tuple hkind⟩)
  | array | set | range | multirange => exact .inr (.inr ⟨_, .part (by simp [hkind])⟩)
  | namedTuple | sqlRecord | objectShape | inputShape =>
    exact .inr (.inr ⟨_, .record (by rw [hkind]; rfl) (by simp [hkind])⟩)
  | object =>
    cases hname : d.name with
    | some name => exact .inr (.inl (.inr ⟨rfl, rfl⟩))
    | none => exact .inr (.inr ⟨_, .record (by rw [hkind]; rfl) (by simp [hname])⟩)

/-! ## How binding goes on -/

section

variable {d : Descriptor} {shape : Shape}

theorem build_noBase (kind : d.kind = .baseScalar ∨ d.kind = .scalar ∨ d.kind = .enum)
    {e : BindError} (base : d.scalarBase = .error e) (path : List String) :
    build path d shape = .error e := by
  obtain ⟨_, id, fields, name, schemaDefined, ancestors, op⟩ := d
  rw [build.eq_def]
  rcases kind with rfl | rfl | rfl <;> simp only [base, outcome_bind_error]

theorem build_noValues (kind : d.kind = .compound ∨ d.kind = .object ∧ d.name.isSome)
    (path : List String) : build path d shape = .error (.notBindable d.kind) := by
  obtain ⟨_, id, fields, name, schemaDefined, ancestors, op⟩ := d
  rw [build.eq_def]
  rcases kind with rfl | ⟨rfl, hname⟩
  · rfl
  · exact if_pos ⟨rfl, hname⟩

theorem build_otherShape {name : String} (expects : d.Expects name) (other : ¬d.Takes shape)
    (path : List String) : build path d shape = .error (.shapeMismatch path name shape.text) := by
  obtain ⟨kind', id, fields, objectName, schemaDefined, ancestors, op⟩ := d
  rw [build.eq_def]
  cases expects with
  | @scalar type kind base =>
    have hother : shape ≠ .scalar type := fun h => other (h ▸ .scalar kind base)
    rcases kind with rfl | rfl | rfl <;> simp only [base, outcome_bind_ok] <;>
      cases shape with
      | scalar t => exact if_neg fun h => hother (congrArg Shape.scalar h)
      | _ => rfl
  | tuple kind =>
    obtain rfl := kind
    cases shape with
    | tuple shapes => exact if_neg fun arity => other (.tuple rfl arity)
    | _ => rfl
  | part kind =>
    rcases kind with rfl | rfl | rfl | rfl
    · cases shape with
      | array inner => exact (other (.array rfl)).elim
      | _ => rfl
    · cases shape with
      | set inner => exact (other (.set rfl)).elim
      | array inner => exact (other (.setAsArray rfl)).elim
      | _ => rfl
    · cases shape with
      | range inner => exact (other (.range rfl)).elim
      | _ => rfl
    · cases shape with
      | multirange inner => exact (other (.multirange rfl)).elim
      | _ => rfl
  | record kind values =>
    cases kind' with
    | object | namedTuple | sqlRecord | objectShape | inputShape =>
      dsimp only
      rw [if_neg values]
      cases shape with
      | record record members => exact (other (.record rfl values)).elim
      | _ => rfl
    | _ => cases kind

theorem build_element (takes : d.Takes shape) (kind : d.kind = .array ∨ d.kind = .set) :
    ∃ inner wrap, shape.inner? = some inner ∧
      ∀ path, build path d shape = wrap <$> buildElement path d.kind d.fields inner := by
  obtain ⟨_, id, fields, name, schemaDefined, ancestors, op⟩ := d
  cases takes with
  | @array inner hkind =>
    obtain rfl := hkind
    exact ⟨inner, .array id, rfl, fun path => by rw [build.eq_def]⟩
  | @set inner hkind =>
    obtain rfl := hkind
    exact ⟨inner, .set id, rfl, fun path => by rw [build.eq_def]⟩
  | @setAsArray inner hkind =>
    obtain rfl := hkind
    exact ⟨inner, .array id, rfl, fun path => by rw [build.eq_def]⟩
  | scalar hkind _ | tuple hkind _ | record hkind _ | range hkind | multirange hkind =>
    rcases kind with rfl | rfl <;> simp [Kind.isRecord] at hkind

theorem build_rangeElement (takes : d.Takes shape) (kind : d.kind = .range ∨ d.kind = .multirange) :
    ∃ inner wrap, shape.inner? = some inner ∧
      ∀ path, build path d shape = wrap <$> buildRangeElement path d.kind d.fields inner := by
  obtain ⟨_, id, fields, name, schemaDefined, ancestors, op⟩ := d
  cases takes with
  | @range inner hkind =>
    obtain rfl := hkind
    exact ⟨inner, .range id, rfl, fun path => by rw [build.eq_def]⟩
  | @multirange inner hkind =>
    obtain rfl := hkind
    exact ⟨inner, .multirange id, rfl, fun path => by rw [build.eq_def]⟩
  | scalar hkind _ | tuple hkind _ | record hkind _ | array hkind | set hkind | setAsArray hkind =>
    rcases kind with rfl | rfl <;> simp [Kind.isRecord] at hkind

theorem build_tuple {shapes : List Shape} (takes : d.Takes (.tuple shapes)) (path : List String) :
    build path d (.tuple shapes) = .tuple d.id <$> buildItems path 0 d.fields shapes := by
  obtain ⟨_, id, fields, name, schemaDefined, ancestors, op⟩ := d
  cases takes with
  | tuple kind arity =>
    obtain rfl := kind
    rw [build.eq_def]
    exact if_pos arity

theorem build_record {name : String} {members : List (Member Shape)}
    (takes : d.Takes (.record name members)) (path : List String) :
    build path d (.record name members) =
      (Codec.record d.id (recordLayout d.kind) · (Shape.defaultRecord members)) <$>
        buildFields path (recordLayout d.kind) name members d.fields := by
  obtain ⟨kind', id, fields, objectName, schemaDefined, ancestors, op⟩ := d
  cases takes with
  | record kind values =>
    rw [build.eq_def]
    cases kind' with
    | object | namedTuple | sqlRecord | objectShape | inputShape =>
      dsimp only
      rw [if_neg values]
      rfl
    | _ => cases kind

end

/-! ## Binding at a path -/

/-- Further down the type is bound as it is anywhere, and the failures are the same below the
way. -/
def BuildsBelow (d : Descriptor) : Prop := ∀ (way path : List String) (shape : Shape),
  build (way ++ path) d shape = (build path d shape).mapError (BindError.below way)

theorem buildElement_at {way path : List String} {kind : Kind} {fields : List (Field Descriptor)}
    {shape : Shape} (hparts : ∀ f ∈ fields, f.desc.BuildsBelow) :
    buildElement (way ++ path) kind fields shape =
      (buildElement path kind fields shape).mapError (BindError.below way) := by
  cases fields with
  | nil =>
    rw [buildElement, buildElement]
    rfl
  | cons f rest =>
    obtain ⟨name, desc, required, union, flags⟩ := f
    rw [buildElement, buildElement, List.append_assoc]
    exact hparts _ List.mem_cons_self _ _ _

theorem buildRangeElement_at {way path : List String} {kind : Kind}
    {fields : List (Field Descriptor)} {shape : Shape}
    (hparts : ∀ f ∈ fields, f.desc.BuildsBelow) :
    buildRangeElement (way ++ path) kind fields shape =
      (buildRangeElement path kind fields shape).mapError (BindError.below way) := by
  cases fields with
  | nil =>
    rw [buildRangeElement, buildRangeElement]
    rfl
  | cons f rest =>
    obtain ⟨name, desc, required, union, flags⟩ := f
    rw [buildRangeElement, buildRangeElement, outcome_mapError_bind]
    have hcheck : (checkRangeElement desc).mapError (BindError.below way) =
        checkRangeElement desc := by
      cases hranged : checkRangeElement desc with
      | ok => rfl
      | error e =>
        rcases checkRangeElement_eq_error hranged with ⟨id, rfl⟩ | ⟨range, rfl⟩ <;> rfl
    rw [hcheck, hparts _ List.mem_cons_self]

/-- The codec of an item of a tuple at a position. -/
def itemCodec (path : List String) (index : Nat) (f : Field Descriptor) (shape : Shape) :
    Except BindError Codec := do
  let codec ← build (path ++ [toString index]) f.desc shape.required
  if !codec.isScalar then throw (.nonScalarTupleElement path index)
  return codec

theorem buildItems_cons {path : List String} {index : Nat} {f : Field Descriptor}
    {fields : List (Field Descriptor)} {shape : Shape} {shapes : List Shape} :
    buildItems path index (f :: fields) (shape :: shapes) = do
      let codec ← itemCodec path index f shape
      let codecs ← buildItems path (index + 1) fields shapes
      return codec :: codecs := by
  obtain ⟨name, desc, required, union, flags⟩ := f
  rw [buildItems, itemCodec]
  cases build (path ++ [toString index]) desc shape.required with
  | error e => rfl
  | ok codec => cases hscalar : codec.isScalar <;> simp only [outcome_bind_ok, hscalar] <;> rfl

theorem itemCodec_at {way path : List String} {index : Nat} {f : Field Descriptor} {shape : Shape}
    (hpart : f.desc.BuildsBelow) :
    itemCodec (way ++ path) index f shape =
      (itemCodec path index f shape).mapError (BindError.below way) := by
  rw [itemCodec, itemCodec, List.append_assoc, hpart, outcome_mapError_bind]
  congr 1
  funext codec
  cases hscalar : codec.isScalar <;> rfl

theorem buildItems_at {way path : List String} {fields : List (Field Descriptor)}
    (hparts : ∀ f ∈ fields, f.desc.BuildsBelow)
    {index : Nat} {shapes : List Shape} : buildItems (way ++ path) index fields shapes =
      (buildItems path index fields shapes).mapError (BindError.below way) := by
  induction fields generalizing index shapes with
  | nil =>
    rw [buildItems, buildItems] <;> first | rfl | (intros; contradiction)
  | cons f fields ih =>
    cases shapes with
    | nil => rw [buildItems, buildItems] <;> first | rfl | (intros; contradiction)
    | cons shape shapes =>
      rw [buildItems_cons, buildItems_cons, outcome_mapError_bind,
        itemCodec_at (hparts f List.mem_cons_self)]
      congr 1
      funext codec
      rw [ih fun g hg => hparts g (List.mem_cons_of_mem _ hg), outcome_mapError_bind]
      rfl

/-- What a field of a record becomes. -/
def boundField (path : List String) (layout : RecordLayout) (record : String)
    (members : List (Member Shape)) : Field Descriptor → Except BindError (BoundField Codec)
  | ⟨name, desc, required, _, flags⟩ =>
    let name := name.getD ""
    let required := layout = .named || required
    let flags := if layout = .named then ⟨0⟩ else flags
    if name = typeIdField then .ok ⟨name, required, flags, .skip⟩
    else
      match Shape.resolve? members name with
      | none => .error (.missingMember name record)
      | some (slot, shape) =>
        let path' := path ++ [name]
        if !required && !shape.isOptional then .error (.cardinality path' shape.text)
        else do
          let codec ← build path' desc shape.required
          return ⟨name, required, flags, .slot slot codec⟩

theorem boundField_eq {path : List String} {layout : RecordLayout} {record : String}
    {members : List (Member Shape)} {f : Field Descriptor} :
    boundField path layout record members f =
      if f.text = typeIdField then
        .ok ⟨f.text, layout = .named || f.required, if layout = .named then ⟨0⟩ else f.flags, .skip⟩
      else
        match Shape.resolve? members f.text with
        | none => .error (.missingMember f.text record)
        | some (slot, shape) =>
          if !(layout = .named || f.required) && !shape.isOptional then
            .error (.cardinality (path ++ [f.text]) shape.text)
          else do
            let codec ← build (path ++ [f.text]) f.desc shape.required
            return ⟨f.text, layout = .named || f.required,
              if layout = .named then ⟨0⟩ else f.flags, .slot slot codec⟩ :=
  rfl

theorem buildFields_cons {path : List String} {layout : RecordLayout} {record : String}
    {members : List (Member Shape)} {f : Field Descriptor} {fields : List (Field Descriptor)} :
    buildFields path layout record members (f :: fields) = do
      let b ← boundField path layout record members f
      let bound ← buildFields path layout record members fields
      return b :: bound := by
  obtain ⟨name, desc, required, union, flags⟩ := f
  rw [buildFields, boundField]
  by_cases hname : name.getD "" = typeIdField
  · simp only [if_pos hname]
    rfl
  simp only [if_neg hname]
  rcases Shape.resolve? members (name.getD "") with _ | ⟨slot, shape⟩
  · rfl
  dsimp only
  by_cases habsence : (!(decide (layout = .named) || required) && !shape.isOptional) = true
  · simp only [if_pos habsence]
    rfl
  · simp only [if_neg habsence, bind_assoc, pure_bind]

theorem boundField_at {way path : List String} {layout : RecordLayout} {record : String}
    {members : List (Member Shape)} {f : Field Descriptor} (hpart : f.desc.BuildsBelow) :
    boundField (way ++ path) layout record members f =
      (boundField path layout record members f).mapError (BindError.below way) := by
  rw [boundField_eq, boundField_eq]
  split
  · rfl
  split
  · rfl
  rw [List.append_assoc]
  split
  · rfl
  · rw [hpart, outcome_mapError_bind]
    rfl

theorem buildFields_at {way path : List String} {layout : RecordLayout} {record : String}
    {members : List (Member Shape)} {fields : List (Field Descriptor)}
    (hparts : ∀ f ∈ fields, f.desc.BuildsBelow) :
    buildFields (way ++ path) layout record members fields =
      (buildFields path layout record members fields).mapError (BindError.below way) := by
  induction fields with
  | nil =>
    rw [buildFields, buildFields]
    rfl
  | cons f fields ih =>
    rw [buildFields_cons, buildFields_cons, outcome_mapError_bind,
      boundField_at (hparts f List.mem_cons_self)]
    congr 1
    funext b
    rw [ih fun g hg => hparts g (List.mem_cons_of_mem _ hg), outcome_mapError_bind]
    rfl

theorem buildsBelow (d : Descriptor) : d.BuildsBelow := by
  induction d using parts_induction with
  | step d ih =>
    intro way path shape
    rcases exists_expects d with ⟨kind, e, base⟩ | kind | ⟨name, expects⟩
    · obtain ⟨id, rfl⟩ := scalarBase_eq_error d base
      rw [build_noBase kind base, build_noBase kind base]
      rfl
    · rw [build_noValues kind, build_noValues kind]
      rfl
    by_cases takes : d.Takes shape
    · have htakes := takes
      cases takes with
      | scalar kind base =>
        rw [build_of_binds (.scalar kind base), build_of_binds (.scalar kind base)]
        rfl
      | array kind | set kind | setAsArray kind =>
        obtain ⟨inner, wrap, -, hbuild⟩ := build_element htakes (by simp [kind])
        rw [hbuild, hbuild, buildElement_at ih, outcome_mapError_map]
      | range kind | multirange kind =>
        obtain ⟨inner, wrap, -, hbuild⟩ := build_rangeElement htakes (by simp [kind])
        rw [hbuild, hbuild, buildRangeElement_at ih, outcome_mapError_map]
      | tuple kind arity =>
        rw [build_tuple htakes, build_tuple htakes, buildItems_at ih,
          outcome_mapError_map]
      | record kind values =>
        rw [build_record htakes, build_record htakes, buildFields_at ih, outcome_mapError_map]
    · rw [build_otherShape expects takes, build_otherShape expects takes]
      rfl

/-- Binding at a path gives the failures of binding at the root, below the path. -/
theorem build_at (d : Descriptor) (path : List String) (shape : Shape) :
    build path d shape = (build [] d shape).mapError (BindError.below path) := by
  have h := buildsBelow d path [] shape
  rwa [List.append_nil] at h

theorem build_at_eq_ok_iff {d : Descriptor} {path : List String} {shape : Shape} {codec : Codec} :
    build path d shape = .ok codec ↔ build [] d shape = .ok codec := by
  rw [build_at d path, outcome_mapError_eq_ok]

theorem build_at_eq_error_iff {d : Descriptor} {path : List String} {shape : Shape}
    {e : BindError} :
    build path d shape = .error e ↔ ∃ e', build [] d shape = .error e' ∧ e'.below path = e := by
  rw [build_at d path, outcome_mapError_eq_error]

/-! ## The first part that cannot be bound -/

/-- An item of a tuple is bound, as a scalar. -/
def ItemFits (f : Field Descriptor) (shape : Shape) : Prop :=
  ∃ codec, build [] f.desc shape.required = .ok codec ∧ codec.isScalar = true

/-- The failure is why the item of a tuple at a position cannot be bound. -/
inductive ItemMisfit (index : Nat) (f : Field Descriptor) (shape : Shape) : BindError → Prop
  | within {e : BindError} (fails : build [] f.desc shape.required = .error e) :
      ItemMisfit index f shape (e.below [toString index])
  | notScalar {codec : Codec} (binds : build [] f.desc shape.required = .ok codec)
      (other : codec.isScalar = false) : ItemMisfit index f shape (.nonScalarTupleElement [] index)

/-- A field of a record is bound, or it is the identifier of the type. -/
inductive FieldFits (layout : RecordLayout) (members : List (Member Shape))
    (f : Field Descriptor) : Prop
  | typeId (name : f.text = typeIdField) : FieldFits layout members f
  | member {slot : StoragePath} {shape : Shape} {codec : Codec} (value : f.text ≠ typeIdField)
      (resolved : Shape.resolve? members f.text = some (slot, shape))
      (absence : (layout = .named || f.required) = true ∨ shape.isOptional = true)
      (binds : build [] f.desc shape.required = .ok codec) : FieldFits layout members f

/-- The failure is why a field of a record cannot be bound. -/
inductive FieldMisfit (layout : RecordLayout) (record : String) (members : List (Member Shape))
    (f : Field Descriptor) : BindError → Prop
  /-- No member takes the field. -/
  | missing (value : f.text ≠ typeIdField) (unresolved : Shape.resolve? members f.text = none) :
      FieldMisfit layout record members f (.missingMember f.text record)
  /-- The field may be absent and the member that takes it may not. -/
  | absence {slot : StoragePath} {shape : Shape} (value : f.text ≠ typeIdField)
      (resolved : Shape.resolve? members f.text = some (slot, shape))
      (optional : (layout = .named || f.required) = false) (full : shape.isOptional = false) :
      FieldMisfit layout record members f (.cardinality [f.text] shape.text)
  | within {slot : StoragePath} {shape : Shape} {e : BindError} (value : f.text ≠ typeIdField)
      (resolved : Shape.resolve? members f.text = some (slot, shape))
      (absence : (layout = .named || f.required) = true ∨ shape.isOptional = true)
      (fails : build [] f.desc shape.required = .error e) :
      FieldMisfit layout record members f (e.below [f.text])

/-- The failure is why the type itself does not fit the shape, or else why the first of its parts
that cannot be bound is not. -/
inductive FirstMisfit (d : Descriptor) : Shape → BindError → Prop
  | itself {shape : Shape} {e : BindError} (unfit : d.Unfit shape e) : FirstMisfit d shape e
  | element {shape inner : Shape} {f : Field Descriptor} {rest : List (Field Descriptor)}
      {e : BindError} (takes : d.Takes shape) (kind : d.kind = .array ∨ d.kind = .set)
      (fields : d.fields = f :: rest) (element : shape.inner? = some inner)
      (fails : build [] f.desc inner = .error e) : FirstMisfit d shape (e.below ["[]"])
  | bound {shape inner : Shape} {f : Field Descriptor} {rest : List (Field Descriptor)}
      {e : BindError} (takes : d.Takes shape) (kind : d.kind = .range ∨ d.kind = .multirange)
      (fields : d.fields = f :: rest) (ranged : checkRangeElement f.desc = .ok ())
      (element : shape.inner? = some inner) (fails : build [] f.desc inner = .error e) :
      FirstMisfit d shape e
  | item {shapes : List Shape} {i : Nat} {f : Field Descriptor} {shape : Shape} {e : BindError}
      (takes : d.Takes (.tuple shapes)) (field : d.fields[i]? = some f)
      (item : shapes[i]? = some shape) (fails : ItemMisfit i f shape e)
      (before : ∀ j < i, ∀ g s, d.fields[j]? = some g → shapes[j]? = some s → ItemFits g s) :
      FirstMisfit d (.tuple shapes) e
  | field {name : String} {members : List (Member Shape)} {i : Nat} {f : Field Descriptor}
      {e : BindError} (takes : d.Takes (.record name members)) (field : d.fields[i]? = some f)
      (fails : FieldMisfit (recordLayout d.kind) name members f e)
      (before : ∀ j < i, ∀ g, d.fields[j]? = some g → FieldFits (recordLayout d.kind) members g) :
      FirstMisfit d (.record name members) e

theorem buildElement_eq_error_iff {kind : Kind} {fields : List (Field Descriptor)} {shape : Shape}
    {e : BindError} : buildElement [] kind fields shape = .error e ↔
      fields = [] ∧ e = .notBindable kind ∨ ∃ f rest e', fields = f :: rest ∧
        build [] f.desc shape = .error e' ∧ e'.below ["[]"] = e := by
  cases fields with
  | nil =>
    rw [buildElement]
    simp [eq_comm]
  | cons f rest =>
    obtain ⟨name, desc, required, union, flags⟩ := f
    rw [buildElement, List.nil_append, build_at_eq_error_iff]
    simp

theorem buildRangeElement_eq_error_iff {kind : Kind} {fields : List (Field Descriptor)}
    {shape : Shape} {e : BindError} : buildRangeElement [] kind fields shape = .error e ↔
      fields = [] ∧ e = .notBindable kind ∨ ∃ f rest, fields = f :: rest ∧
        (checkRangeElement f.desc = .error e ∨
          checkRangeElement f.desc = .ok () ∧ build [] f.desc shape = .error e) := by
  cases fields with
  | nil =>
    rw [buildRangeElement]
    simp [eq_comm]
  | cons f rest =>
    obtain ⟨name, desc, required, union, flags⟩ := f
    rw [buildRangeElement, outcome_bind_eq_error]
    constructor
    · rintro (hranged | ⟨⟨⟩, hranged, hfails⟩)
      · exact .inr ⟨_, rest, rfl, .inl hranged⟩
      · exact .inr ⟨_, rest, rfl, .inr ⟨hranged, hfails⟩⟩
    · rintro (⟨⟨⟩, -⟩ | ⟨_, _, ⟨⟩, hranged | ⟨hranged, hfails⟩⟩)
      · exact .inl hranged
      · exact .inr ⟨(), hranged, hfails⟩

theorem itemCodec_eq_error_iff {i : Nat} {f : Field Descriptor} {shape : Shape} {e : BindError} :
    itemCodec [] i f shape = .error e ↔ ItemMisfit i f shape e := by
  rw [itemCodec, List.nil_append, outcome_bind_eq_error]
  constructor
  · rintro (h | ⟨codec, hcodec, h⟩)
    · obtain ⟨e', hfails, rfl⟩ := build_at_eq_error_iff.mp h
      exact .within hfails
    · have hbinds := build_at_eq_ok_iff.mp hcodec
      cases hscalar : codec.isScalar with
      | true =>
        rw [hscalar] at h
        cases h
      | false =>
        rw [hscalar] at h
        obtain rfl := Except.error.inj h
        exact .notScalar hbinds hscalar
  · rintro (⟨fails⟩ | ⟨binds, other⟩)
    · exact .inl (build_at_eq_error_iff.mpr ⟨_, fails, rfl⟩)
    · exact .inr ⟨_, build_at_eq_ok_iff.mpr binds, by rw [other]; rfl⟩

theorem exists_itemCodec_iff {i : Nat} {f : Field Descriptor} {shape : Shape} :
    (∃ codec, itemCodec [] i f shape = .ok codec) ↔ ItemFits f shape := by
  constructor
  · rintro ⟨codec, h⟩
    obtain ⟨codec', hcodec, h⟩ := outcome_bind_eq_ok.mp h
    cases hscalar : codec'.isScalar with
    | true => exact ⟨codec', build_at_eq_ok_iff.mp hcodec, hscalar⟩
    | false =>
      rw [hscalar] at h
      cases h
  · rintro ⟨codec, hcodec, hscalar⟩
    refine ⟨codec, outcome_bind_eq_ok.mpr ⟨codec, build_at_eq_ok_iff.mpr hcodec, ?_⟩⟩
    rw [hscalar]
    rfl

theorem buildItems_eq_error_iff {fields : List (Field Descriptor)} {shapes : List Shape}
    (arity : shapes.length = fields.length) {e : BindError} :
    buildItems [] 0 fields shapes = .error e ↔ ∃ (i : Nat) (f : Field Descriptor) (shape : Shape),
      fields[i]? = some f ∧ shapes[i]? = some shape ∧ ItemMisfit i f shape e ∧
        ∀ j < i, ∀ g s, fields[j]? = some g → shapes[j]? = some s → ItemFits g s := by
  -- the steps are over the items together with their shapes
  have hsteps := @steps_eq_error_iff BindError (Field Descriptor × Shape) Codec
    (fun k item => itemCodec [] k item.1 item.2)
    (fun k items => buildItems [] k (items.map Prod.fst) (items.map Prod.snd))
    (fun k => by simp [buildItems]) (fun k item items => buildItems_cons) (fields.zip shapes) 0 e
  rw [List.map_fst_zip (Nat.le_of_eq arity.symm), List.map_snd_zip (Nat.le_of_eq arity)] at hsteps
  simp only [Nat.zero_add, itemCodec_eq_error_iff, exists_itemCodec_iff, Prod.exists,
    List.getElem?_zip_eq_some, Prod.forall, and_assoc, and_imp] at hsteps
  exact hsteps

theorem not_absent_iff {layout : RecordLayout} {required optional : Bool} :
    ¬(!(decide (layout = .named) || required) && !optional) = true ↔
      (layout = .named || required) = true ∨ optional = true := by
  cases decide (layout = .named) || required <;> cases optional <;> decide

theorem boundField_eq_error_iff {layout : RecordLayout} {record : String}
    {members : List (Member Shape)} {f : Field Descriptor} {e : BindError} :
    boundField [] layout record members f = .error e ↔ FieldMisfit layout record members f e := by
  rw [boundField_eq]
  constructor
  · intro h
    split at h
    · cases h
    rename_i hvalue
    split at h
    · rename_i hresolve
      obtain rfl := Except.error.inj h
      exact .missing hvalue hresolve
    rename_i slot shape hresolve
    split at h
    · rename_i habsence
      obtain rfl := Except.error.inj h
      rw [Bool.and_eq_true, Bool.not_eq_true', Bool.not_eq_true'] at habsence
      exact .absence hvalue hresolve habsence.1 habsence.2
    · rename_i habsence
      rcases outcome_bind_eq_error.mp h with hbuild | ⟨codec, -, hok⟩
      · obtain ⟨e', hfails, rfl⟩ := build_at_eq_error_iff.mp hbuild
        exact .within hvalue hresolve (not_absent_iff.mp habsence) hfails
      · cases hok
  · intro h
    cases h with
    | missing value unresolved => rw [if_neg value, unresolved]
    | absence value resolved optional full =>
      rw [if_neg value, resolved]
      exact if_pos (by rw [optional, full]; rfl)
    | within value resolved absence fails =>
      rw [if_neg value, resolved]
      refine (if_neg (not_absent_iff.mpr absence)).trans ?_
      exact outcome_bind_eq_error.mpr (.inl (build_at_eq_error_iff.mpr ⟨_, fails, rfl⟩))

theorem exists_boundField_iff {layout : RecordLayout} {record : String}
    {members : List (Member Shape)} {f : Field Descriptor} :
    (∃ b, boundField [] layout record members f = .ok b) ↔ FieldFits layout members f := by
  rw [boundField_eq]
  constructor
  · rintro ⟨b, h⟩
    split at h
    · rename_i hname
      exact .typeId hname
    rename_i hvalue
    split at h
    · cases h
    rename_i slot shape hresolve
    split at h
    · cases h
    rename_i habsence
    obtain ⟨codec, hcodec, -⟩ := outcome_bind_eq_ok.mp h
    exact .member hvalue hresolve (not_absent_iff.mp habsence) (build_at_eq_ok_iff.mp hcodec)
  · intro h
    cases h with
    | typeId name => exact ⟨_, if_pos name⟩
    | member value resolved absence binds =>
      rw [if_neg value, resolved]
      dsimp only
      rw [if_neg (not_absent_iff.mpr absence), build_at_eq_ok_iff.mpr binds]
      exact ⟨_, rfl⟩

theorem buildFields_eq_error_iff {layout : RecordLayout} {record : String}
    {members : List (Member Shape)} {fields : List (Field Descriptor)} {e : BindError} :
    buildFields [] layout record members fields = .error e ↔
      ∃ (i : Nat) (f : Field Descriptor), fields[i]? = some f ∧
        FieldMisfit layout record members f e ∧
          ∀ j < i, ∀ g, fields[j]? = some g → FieldFits layout members g := by
  have hsteps := @steps_eq_error_iff BindError (Field Descriptor) (BoundField Codec)
    (fun _ f => boundField [] layout record members f)
    (fun _ fields => buildFields [] layout record members fields)
    (fun _ => by rw [buildFields]) (fun _ f fields => buildFields_cons) fields 0 e
  simpa only [boundField_eq_error_iff, exists_boundField_iff] using hsteps

/-- What binding fails with is the first misfit. -/
theorem firstMisfit_of_build {d : Descriptor} {shape : Shape} {e : BindError}
    (h : build [] d shape = .error e) : d.FirstMisfit shape e := by
  rcases exists_expects d with ⟨kind, e', base⟩ | kind | ⟨name, expects⟩
  · rw [build_noBase kind base] at h
    obtain rfl := Except.error.inj h
    exact .itself (.noBase kind base)
  · rw [build_noValues kind] at h
    obtain rfl := Except.error.inj h
    exact .itself (.noValues kind)
  by_cases takes : d.Takes shape
  · have htakes := takes
    cases takes with
    | scalar kind base =>
      rw [build_of_binds (.scalar kind base)] at h
      cases h
    | array kind | set kind | setAsArray kind =>
      have hkind : d.kind = .array ∨ d.kind = .set := by simp [kind]
      obtain ⟨inner, wrap, hinner, hbuild⟩ := build_element htakes hkind
      rw [hbuild, outcome_map_eq_error, buildElement_eq_error_iff] at h
      rcases h with ⟨hnone, rfl⟩ | ⟨f, rest, e', hfields, hfails, rfl⟩
      · exact .itself (.noPart htakes (by simp [kind]) hnone)
      · exact .element htakes hkind hfields hinner hfails
    | range kind | multirange kind =>
      have hkind : d.kind = .range ∨ d.kind = .multirange := by simp [kind]
      obtain ⟨inner, wrap, hinner, hbuild⟩ := build_rangeElement htakes hkind
      rw [hbuild, outcome_map_eq_error, buildRangeElement_eq_error_iff] at h
      rcases h with ⟨hnone, rfl⟩ | ⟨f, rest, hfields, hranged | ⟨hranged, hfails⟩⟩
      · exact .itself (.noPart htakes (by simp [kind]) hnone)
      · exact .itself (.noRange htakes hkind hfields hranged)
      · exact .bound htakes hkind hfields hranged hinner hfails
    | tuple kind arity =>
      rw [build_tuple htakes, outcome_map_eq_error, buildItems_eq_error_iff arity] at h
      obtain ⟨i, f, shape, hf, hshape, hfails, hbefore⟩ := h
      exact .item htakes hf hshape hfails hbefore
    | record kind values =>
      rw [build_record htakes, outcome_map_eq_error, buildFields_eq_error_iff] at h
      obtain ⟨i, f, hf, hfails, hbefore⟩ := h
      exact .field htakes hf hfails hbefore
  · rw [build_otherShape expects takes] at h
    obtain rfl := Except.error.inj h
    exact .itself (.otherShape expects takes)

/-- Binding fails with the first misfit. -/
theorem build_of_firstMisfit {d : Descriptor} {shape : Shape} {e : BindError}
    (h : d.FirstMisfit shape e) : build [] d shape = .error e := by
  cases h with
  | itself unfit =>
    cases unfit with
    | noBase kind base => exact build_noBase kind base _
    | noValues kind => exact build_noValues kind _
    | otherShape expects other => exact build_otherShape expects other _
    | noPart takes kind fields =>
      have hkind : (d.kind = .array ∨ d.kind = .set) ∨ d.kind = .range ∨ d.kind = .multirange := by
        rwa [or_assoc]
      rcases hkind with hkind | hkind
      · obtain ⟨inner, wrap, -, hbuild⟩ := build_element takes hkind
        rw [hbuild, outcome_map_eq_error, buildElement_eq_error_iff]
        exact .inl ⟨fields, rfl⟩
      · obtain ⟨inner, wrap, -, hbuild⟩ := build_rangeElement takes hkind
        rw [hbuild, outcome_map_eq_error, buildRangeElement_eq_error_iff]
        exact .inl ⟨fields, rfl⟩
    | noRange takes kind fields ranged =>
      obtain ⟨inner, wrap, -, hbuild⟩ := build_rangeElement takes kind
      rw [hbuild, outcome_map_eq_error, buildRangeElement_eq_error_iff]
      exact .inr ⟨_, _, fields, .inl ranged⟩
  | element takes kind fields element fails =>
    obtain ⟨inner, wrap, hinner, hbuild⟩ := build_element takes kind
    obtain rfl := Option.some.inj (hinner.symm.trans element)
    rw [hbuild, outcome_map_eq_error, buildElement_eq_error_iff]
    exact .inr ⟨_, _, _, fields, fails, rfl⟩
  | bound takes kind fields ranged element fails =>
    obtain ⟨inner, wrap, hinner, hbuild⟩ := build_rangeElement takes kind
    obtain rfl := Option.some.inj (hinner.symm.trans element)
    rw [hbuild, outcome_map_eq_error, buildRangeElement_eq_error_iff]
    exact .inr ⟨_, _, fields, .inr ⟨ranged, fails⟩⟩
  | item takes field item fails before =>
    rw [build_tuple takes, outcome_map_eq_error]
    cases takes with
    | tuple _ arity =>
      exact (buildItems_eq_error_iff arity).mpr ⟨_, _, _, field, item, fails, before⟩
  | field takes field fails before =>
    rw [build_record takes, outcome_map_eq_error, buildFields_eq_error_iff]
    exact ⟨_, _, field, fails, before⟩

theorem build_eq_error_iff {d : Descriptor} {shape : Shape} {e : BindError} :
    build [] d shape = .error e ↔ d.FirstMisfit shape e :=
  ⟨firstMisfit_of_build, build_of_firstMisfit⟩

/-- Binding a type to a shape fails exactly with the first misfit: with the reason why the type
itself does not fit, which is at the root or has no path, or else with that of the first part, in
the order of the wire, that cannot be bound. If the reason lies in the part, it is that of binding
the part alone, with the way to the part before its path, and whatever the path from the root is,
that path comes before it. The walk that binds a type gives at every path what binding gives there,
and leaves that path if it succeeds. At the root the shape has to let a value be absent that may
be. -/
theorem build_locates (d : Descriptor) (shape : Shape) :
    (∀ e, build [] d shape = .error e ↔ d.FirstMisfit shape e) ∧
      (∀ e, d.Unfit shape e → (∃ expected, e = .shapeMismatch [] expected shape.text) ∨
        ∀ way, e.below way = e) ∧
      (∀ path, build path d shape = (build [] d shape).mapError (BindError.below path)) ∧
      (∀ path, (∀ codec left, (Binder.build d shape).run path = (.ok codec, left) ↔
          build path d shape = .ok codec ∧ left = path) ∧
        ∀ e, (∃ left, (Binder.build d shape).run path = (.error e, left)) ↔
          build path d shape = .error e) ∧
      (∀ required e, d.bind required shape = .error e ↔
        (required = false ∧ shape.isOptional = false) ∧ e = .cardinality [] shape.text ∨
        (required = true ∨ shape.isOptional = true) ∧ d.FirstMisfit shape.required e) ∧
      BindError.pathText [] = "<root>" ∧
      ∀ component path, BindError.pathText (component :: path) =
        if path = [] then component else component ++ "." ++ BindError.pathText path := by
  have hdoes := Binder.does_build d shape
  refine ⟨fun _ => build_eq_error_iff, fun _ => Unfit.at_root, fun path => build_at d path shape,
    fun path => ⟨fun _ _ => hdoes.run_eq_ok_iff, fun _ => hdoes.run_eq_error_iff⟩,
    fun required e => ?_, rfl, BindError.pathText_cons⟩
  rw [bind_eq, ← build_eq_error_iff]
  cases required <;> cases shape.isOptional <;> simp [eq_comm]

/-- The elements of a field are of another type than the shape asks for. -/
example :
    let texts := ofFields .array .nil [.element (ofFields .baseScalar ScalarType.str.id [])]
    let d := ofFields .namedTuple .nil [.named "tags" texts true]
    d.bind true (.record "User" [⟨"tags", none, .array (.scalar .int32), false⟩]) =
      .error (.shapeMismatch ["tags", "[]"] "std::str" "std::int32") :=
  rfl

end Descriptor

end TypedWire
