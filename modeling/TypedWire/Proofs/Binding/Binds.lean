import Mathlib.Data.List.Forall2
import TypedWire.Proofs.Binding.Build
import TypedWire.Proofs.Shape.Resolve

/-!
# Which codecs bind a type to a shape

Binding as a relation between a type, a shape and a codec, with one rule for each way in which a
type meets a shape. The relation knows no failures, and no path from the root.

- `Descriptor.FieldOf`: what a field of a type becomes in the codec of a record.
- `Descriptor.Binds d shape codec`: `codec` is the codec of the type for the shape.
- `Descriptor.build_ok_iff`: binding gives exactly the codecs of the relation, at every path.
- `Descriptor.exists_item`, `Descriptor.resolves_of_mem`: where the parts of codecs come from.
- `Descriptor.FieldsBind.path_eq_iff_name`: which fields of a record share a slot.
-/

namespace TypedWire

theorem forall₂_iff_getElem? {α β : Type} {R : α → β → Prop} {l : List α} {l' : List β} :
    List.Forall₂ R l l' ↔ l.length = l'.length ∧
      ∀ (i : Nat) a b, l[i]? = some a → l'[i]? = some b → R a b := by
  rw [List.forall₂_iff_get]
  refine and_congr_right fun _ => ?_
  constructor
  · intro h i a b ha hb
    obtain ⟨hi, rfl⟩ := List.getElem?_eq_some_iff.mp ha
    obtain ⟨hi', rfl⟩ := List.getElem?_eq_some_iff.mp hb
    exact h i hi hi'
  · intro h i hi hi'
    exact h i _ _ (List.getElem?_eq_getElem hi) (List.getElem?_eq_getElem hi')

/-- Whether the types of a kind are bound to record shapes. -/
def Kind.isRecord : Kind → Bool
  | .object | .namedTuple | .sqlRecord | .objectShape | .inputShape => true
  | _ => false

namespace Descriptor

/-- Where a field goes in a record of the members. -/
inductive Goes (layout : RecordLayout) (members : List (Member Shape)) (f : Field Descriptor) :
    Target Codec → Prop
  | skip (typeId : f.name.getD "" = typeIdField) : Goes layout members f .skip
  | slot {path : StoragePath} {shape : Shape} {codec : Codec}
      (value : f.name.getD "" ≠ typeIdField)
      (resolved : Shape.resolve? members (f.name.getD "") = some (path, shape))
      (absence : (layout = .named || f.required) = true ∨ shape.isOptional = true) :
      Goes layout members f (.slot path codec)

/-- What a field of a type becomes in the codec of a record. The codec of its slot is left open. -/
structure FieldOf (layout : RecordLayout) (members : List (Member Shape)) (f : Field Descriptor)
    (b : BoundField Codec) : Prop where
  name : b.name = f.name.getD ""
  required : b.required = (layout = .named || f.required)
  flags : b.flags = if layout = .named then ⟨0⟩ else f.flags
  target : Goes layout members f b.target

/-- What has a slot is more than the identifier of its type. -/
theorem FieldOf.name_ne_typeId {layout : RecordLayout} {members : List (Member Shape)}
    {f : Field Descriptor} {b : BoundField Codec} (h : FieldOf layout members f b)
    {path : StoragePath} {codec : Codec} (htarget : b.target = .slot path codec) :
    b.name ≠ typeIdField := by
  have hgoes := h.target
  rw [htarget] at hgoes
  cases hgoes with
  | slot value _ _ => exact h.name.trans_ne value

/-- `codec` is the codec of the type for the shape. -/
inductive Binds : Descriptor → Shape → Codec → Prop
  | scalar {d : Descriptor} {type : ScalarType}
      (kind : d.kind = .baseScalar ∨ d.kind = .scalar ∨ d.kind = .enum)
      (base : d.scalarBase = .ok type) : Binds d (.scalar type) (.scalar d.id type)
  | array {d : Descriptor} {f : Field Descriptor} {rest : List (Field Descriptor)} {inner : Shape}
      {codec : Codec} (kind : d.kind = .array) (fields : d.fields = f :: rest)
      (element : Binds f.desc inner codec) : Binds d (.array inner) (.array d.id codec)
  | set {d : Descriptor} {f : Field Descriptor} {rest : List (Field Descriptor)} {inner : Shape}
      {codec : Codec} (kind : d.kind = .set) (fields : d.fields = f :: rest)
      (element : Binds f.desc inner codec) : Binds d (.set inner) (.set d.id codec)
  /-- A set may be taken as an array. -/
  | setAsArray {d : Descriptor} {f : Field Descriptor} {rest : List (Field Descriptor)}
      {inner : Shape} {codec : Codec} (kind : d.kind = .set) (fields : d.fields = f :: rest)
      (element : Binds f.desc inner codec) : Binds d (.array inner) (.array d.id codec)
  | tuple {d : Descriptor} {shapes : List Shape} {codecs : List Codec} (kind : d.kind = .tuple)
      (arity : shapes.length = d.fields.length) (length : codecs.length = d.fields.length)
      (scalars : ∀ codec ∈ codecs, codec.isScalar = true)
      (items : ∀ (i : Nat) f shape codec, d.fields[i]? = some f → shapes[i]? = some shape →
        codecs[i]? = some codec → Binds f.desc shape.required codec) :
      Binds d (.tuple shapes) (.tuple d.id codecs)
  | record {d : Descriptor} {name : String} {members : List (Member Shape)}
      {bound : List (BoundField Codec)} (kind : d.kind.isRecord = true)
      (values : ¬(d.kind = .object ∧ d.name.isSome)) (length : bound.length = d.fields.length)
      (fields : ∀ (i : Nat) f b, d.fields[i]? = some f → bound[i]? = some b →
        FieldOf (recordLayout d.kind) members f b)
      (codecs : ∀ (i : Nat) f b path shape codec, d.fields[i]? = some f → bound[i]? = some b →
        b.target = .slot path codec → Shape.resolve? members (f.name.getD "") = some (path, shape) →
          Binds f.desc shape.required codec) :
      Binds d (.record name members)
        (.record d.id (recordLayout d.kind) bound (Shape.defaultRecord members))
  | range {d : Descriptor} {f : Field Descriptor} {rest : List (Field Descriptor)} {inner : Shape}
      {codec : Codec} (kind : d.kind = .range) (fields : d.fields = f :: rest)
      (ranged : checkRangeElement f.desc = .ok ()) (element : Binds f.desc inner codec) :
      Binds d (.range inner) (.range d.id codec)
  | multirange {d : Descriptor} {f : Field Descriptor} {rest : List (Field Descriptor)}
      {inner : Shape} {codec : Codec} (kind : d.kind = .multirange) (fields : d.fields = f :: rest)
      (ranged : checkRangeElement f.desc = .ok ()) (element : Binds f.desc inner codec) :
      Binds d (.multirange inner) (.multirange d.id codec)

/-! ## Binding gives codecs of the relation -/

/-- The codec for the only part of a type. -/
inductive ElementBinds : List (Field Descriptor) → Shape → Codec → Prop
  | first {f : Field Descriptor} {rest : List (Field Descriptor)} {shape : Shape} {codec : Codec}
      (h : Binds f.desc shape codec) : ElementBinds (f :: rest) shape codec

/-- The codecs for the fields of a record. -/
structure FieldsBind (layout : RecordLayout) (members : List (Member Shape))
    (fields : List (Field Descriptor)) (bound : List (BoundField Codec)) : Prop where
  length : bound.length = fields.length
  field : ∀ (i : Nat) f b, fields[i]? = some f → bound[i]? = some b → FieldOf layout members f b
  codec : ∀ (i : Nat) f b path shape codec, fields[i]? = some f → bound[i]? = some b →
    b.target = .slot path codec → Shape.resolve? members (f.name.getD "") = some (path, shape) →
      Binds f.desc shape.required codec

theorem FieldsBind.nil {layout : RecordLayout} {members : List (Member Shape)} :
    FieldsBind layout members [] [] where
  length := rfl
  field _ _ _ hf := nomatch hf
  codec _ _ _ _ _ _ hf := nomatch hf

theorem FieldsBind.cons {layout : RecordLayout} {members : List (Member Shape)}
    {f : Field Descriptor} {fields : List (Field Descriptor)} {b : BoundField Codec}
    {bound : List (BoundField Codec)} (hf : FieldOf layout members f b)
    (hcodec : ∀ path shape codec, b.target = .slot path codec →
      Shape.resolve? members (f.name.getD "") = some (path, shape) →
        Binds f.desc shape.required codec)
    (h : FieldsBind layout members fields bound) :
    FieldsBind layout members (f :: fields) (b :: bound) where
  length := congrArg (· + 1) h.length
  field
    | 0, _, _, rfl, rfl => hf
    | i + 1, f, b, hi, hi' => h.field i f b hi hi'
  codec
    | 0, _, _, path, shape, codec, rfl, rfl => hcodec path shape codec
    | i + 1, f, b, path, shape, codec, hi, hi' => h.codec i f b path shape codec hi hi'

mutual

theorem binds_of_build {path : List String} : ∀ (d : Descriptor) {shape : Shape} {codec : Codec},
    build path d shape = .ok codec → Binds d shape codec
  | ⟨kind, id, fields, name, schemaDefined, ancestors, op⟩, shape, codec, h => by
    rw [build.eq_def] at h
    cases kind with
    | baseScalar | scalar | enum =>
      obtain ⟨type, hbase, h⟩ := outcome_bind_eq_ok.mp h
      cases shape with
      | scalar t =>
        dsimp only at h
        split at h
        · rename_i htype
          subst htype
          obtain rfl := Except.ok.inj h
          exact .scalar (by simp) hbase
        · cases h
      | _ => cases h
    | array =>
      cases shape with
      | array inner =>
        obtain ⟨element, helement, rfl⟩ := outcome_map_eq_ok.mp h
        cases binds_of_buildElement fields helement with
        | first h => exact .array rfl rfl h
      | _ => cases h
    | set =>
      cases shape with
      | set inner =>
        obtain ⟨element, helement, rfl⟩ := outcome_map_eq_ok.mp h
        cases binds_of_buildElement fields helement with
        | first h => exact .set rfl rfl h
      | array inner =>
        obtain ⟨element, helement, rfl⟩ := outcome_map_eq_ok.mp h
        cases binds_of_buildElement fields helement with
        | first h => exact .setAsArray rfl rfl h
      | _ => cases h
    | tuple =>
      cases shape with
      | tuple shapes =>
        dsimp only at h
        split at h
        · rename_i harity
          obtain ⟨codecs, hcodecs, rfl⟩ := outcome_map_eq_ok.mp h
          obtain ⟨hlen, hscalars, hitems⟩ := binds_of_buildItems fields harity hcodecs
          exact .tuple rfl harity hlen hscalars hitems
        · cases h
      | _ => cases h
    | object | namedTuple | sqlRecord | objectShape | inputShape =>
      dsimp only at h
      split at h
      · cases h
      · rename_i hvalues
        cases shape with
        | record record members =>
          obtain ⟨bound, hbound, hcodec⟩ := outcome_bind_eq_ok.mp h
          obtain rfl := Except.ok.inj hcodec
          have hfields := binds_of_buildFields fields hbound
          exact .record rfl hvalues hfields.length hfields.field hfields.codec
        | _ => cases h
    | range =>
      cases shape with
      | range inner =>
        obtain ⟨element, helement, rfl⟩ := outcome_map_eq_ok.mp h
        obtain ⟨f, rest, rfl, hranged, h⟩ := binds_of_buildRangeElement fields helement
        exact .range rfl rfl hranged h
      | _ => cases h
    | multirange =>
      cases shape with
      | multirange inner =>
        obtain ⟨element, helement, rfl⟩ := outcome_map_eq_ok.mp h
        obtain ⟨f, rest, rfl, hranged, h⟩ := binds_of_buildRangeElement fields helement
        exact .multirange rfl rfl hranged h
      | _ => cases h
    | compound => cases h

theorem binds_of_buildElement {path : List String} {kind : Kind} :
    ∀ (fields : List (Field Descriptor)) {shape : Shape} {codec : Codec},
      buildElement path kind fields shape = .ok codec → ElementBinds fields shape codec
  | [], _, _, h => nomatch h
  | ⟨_, element, _, _, _⟩ :: _, _, _, h => by
    rw [buildElement] at h
    exact .first (binds_of_build element h)

theorem binds_of_buildRangeElement {path : List String} {kind : Kind} :
    ∀ (fields : List (Field Descriptor)) {shape : Shape} {codec : Codec},
      buildRangeElement path kind fields shape = .ok codec → ∃ f rest, fields = f :: rest ∧
        checkRangeElement f.desc = .ok () ∧ Binds f.desc shape codec
  | [], _, _, h => nomatch h
  | ⟨name, element, required, union, flags⟩ :: rest, _, _, h => by
    rw [buildRangeElement] at h
    obtain ⟨⟨⟩, hranged, h⟩ := outcome_bind_eq_ok.mp h
    exact ⟨_, rest, rfl, hranged, binds_of_build element h⟩

theorem binds_of_buildItems {path : List String} : ∀ (fields : List (Field Descriptor))
    {index : Nat} {shapes : List Shape} {codecs : List Codec}, shapes.length = fields.length →
      buildItems path index fields shapes = .ok codecs → codecs.length = fields.length ∧
        (∀ codec ∈ codecs, codec.isScalar = true) ∧
        ∀ (i : Nat) f shape codec, fields[i]? = some f → shapes[i]? = some shape →
          codecs[i]? = some codec → Binds f.desc shape.required codec
  | [], _, _, _, _, h => by
    rw [buildItems] at h
    · obtain rfl := Except.ok.inj h
      exact ⟨rfl, fun _ hc => (List.not_mem_nil hc).elim, fun _ _ _ _ hf => nomatch hf⟩
    · intros
      contradiction
  | _ :: _, _, [], _, hlen, _ => nomatch hlen
  | ⟨_, item, _, _, _⟩ :: fields, index, shape :: shapes, codecs, hlen, h => by
    rw [buildItems] at h
    obtain ⟨codec, hcodec, h⟩ := outcome_bind_eq_ok.mp h
    have hitem := binds_of_build item hcodec
    cases hscalar : codec.isScalar with
    | false =>
      rw [hscalar] at h
      cases h
    | true =>
      rw [hscalar] at h
      obtain ⟨codecs', hcodecs, h⟩ := outcome_bind_eq_ok.mp h
      obtain rfl := Except.ok.inj h
      obtain ⟨hlen', hscalars, hitems⟩ :=
        binds_of_buildItems fields (Nat.succ.inj hlen) hcodecs
      refine ⟨congrArg (· + 1) hlen', ?_, ?_⟩
      · rintro c (_ | ⟨_, hc⟩)
        · exact hscalar
        · exact hscalars c hc
      · rintro (_ | i) f shape' codec' hf hshape hc
        · obtain rfl := Option.some.inj hf
          obtain rfl := Option.some.inj hshape
          obtain rfl := Option.some.inj hc
          exact hitem
        · exact hitems i f shape' codec' hf hshape hc

theorem binds_of_buildFields {path : List String} {layout : RecordLayout} {record : String}
    {members : List (Member Shape)} : ∀ (fields : List (Field Descriptor))
      {bound : List (BoundField Codec)},
      buildFields path layout record members fields = .ok bound →
        FieldsBind layout members fields bound
  | [], _, h => by
    rw [buildFields] at h
    obtain rfl := Except.ok.inj h
    exact .nil
  | ⟨name, desc, required, union, flags⟩ :: fields, bound, h => by
    rw [buildFields] at h
    dsimp only at h
    split at h
    · rename_i hname
      obtain ⟨rest, hrest, h⟩ := outcome_bind_eq_ok.mp h
      obtain rfl := Except.ok.inj h
      refine .cons ⟨rfl, rfl, rfl, .skip hname⟩ ?_ (binds_of_buildFields fields hrest)
      exact fun _ _ _ htarget => nomatch htarget
    · rename_i hname
      split at h
      · cases h
      · rename_i slot shape hresolve
        split at h
        · cases h
        rename_i habsence
        obtain ⟨codec, hcodec, h⟩ := outcome_bind_eq_ok.mp h
        obtain ⟨rest, hrest, h⟩ := outcome_bind_eq_ok.mp h
        obtain rfl := Except.ok.inj h
        -- binding has rejected a field that may be absent and whose slot always holds a value
        have hpresent : (layout = .named || required) = true ∨ shape.isOptional = true := by
          cases hrequired : (decide (layout = .named) || required) with
          | true => exact .inl rfl
          | false =>
            rw [hrequired] at habsence
            exact .inr (by simpa using habsence)
        have hdesc := binds_of_build desc hcodec
        refine .cons ⟨rfl, rfl, rfl, .slot hname hresolve hpresent⟩ ?_
          (binds_of_buildFields fields hrest)
        intro path' shape' codec' htarget hresolve'
        obtain ⟨rfl, rfl⟩ := Target.slot.inj htarget
        obtain ⟨-, rfl⟩ := Prod.mk.inj (Option.some.inj (hresolve.symm.trans hresolve'))
        exact hdesc

end

/-! ## Codecs of the relation are found -/

theorem buildItems_of_build {path : List String} (fields : List (Field Descriptor)) {index : Nat}
    {shapes : List Shape} {codecs : List Codec} (hshapes : shapes.length = fields.length)
    (hcodecs : codecs.length = fields.length) (hscalars : ∀ codec ∈ codecs, codec.isScalar = true)
    (hitems : ∀ (i : Nat) f shape codec, fields[i]? = some f → shapes[i]? = some shape →
      codecs[i]? = some codec → ∀ path, build path f.desc shape.required = .ok codec) :
    buildItems path index fields shapes = .ok codecs := by
  induction fields generalizing index shapes codecs with
  | nil =>
    obtain rfl := List.eq_nil_of_length_eq_zero hcodecs
    obtain rfl := List.eq_nil_of_length_eq_zero hshapes
    rw [buildItems]
    intros
    contradiction
  | cons f fields ih =>
    obtain ⟨shape, shapes, rfl⟩ := List.exists_cons_of_length_eq_add_one hshapes
    obtain ⟨codec, codecs, rfl⟩ := List.exists_cons_of_length_eq_add_one hcodecs
    have hfirst := hitems 0 f shape codec rfl rfl rfl (path ++ [toString index])
    have hrest : buildItems path (index + 1) fields shapes = .ok codecs :=
      ih (Nat.succ.inj hshapes) (Nat.succ.inj hcodecs)
        (fun c hc => hscalars c (List.mem_cons_of_mem _ hc)) fun i => hitems (i + 1)
    rw [buildItems, hfirst, outcome_bind_ok, hscalars codec List.mem_cons_self, hrest]
    rfl

theorem buildFields_of_build {path : List String} {layout : RecordLayout} {record : String}
    {members : List (Member Shape)} (fields : List (Field Descriptor))
    {bound : List (BoundField Codec)} (hlen : bound.length = fields.length)
    (hfields : ∀ (i : Nat) f b, fields[i]? = some f → bound[i]? = some b →
      FieldOf layout members f b)
    (hcodecs : ∀ (i : Nat) f b slot shape codec, fields[i]? = some f → bound[i]? = some b →
      b.target = .slot slot codec → Shape.resolve? members (f.name.getD "") = some (slot, shape) →
        ∀ path, build path f.desc shape.required = .ok codec) :
    buildFields path layout record members fields = .ok bound := by
  induction fields generalizing bound with
  | nil =>
    obtain rfl := List.eq_nil_of_length_eq_zero hlen
    rw [buildFields]
  | cons f fields ih =>
    obtain ⟨b, bound, rfl⟩ := List.exists_cons_of_length_eq_add_one hlen
    have hf := hfields 0 f b rfl rfl
    have hcodec := hcodecs 0 f b
    have hrest : buildFields path layout record members fields = .ok bound :=
      ih (Nat.succ.inj hlen) (fun i => hfields (i + 1)) fun i => hcodecs (i + 1)
    obtain ⟨name, required, flags, target⟩ := b
    obtain ⟨rfl, rfl, rfl, htarget⟩ := hf
    rw [buildFields, hrest]
    cases htarget with
    | skip typeId =>
      dsimp only
      rw [if_pos typeId]
      rfl
    | slot value resolved absence =>
      dsimp only
      rw [if_neg value, resolved]
      dsimp only
      rw [hcodec _ _ _ rfl rfl rfl resolved, if_neg]
      · rfl
      · rw [Bool.and_eq_true, Bool.not_eq_true', Bool.not_eq_true']
        rintro ⟨hrequired, hoptional⟩
        rcases absence with h | h
        · cases hrequired.symm.trans h
        · cases hoptional.symm.trans h

theorem build_of_binds {d : Descriptor} {shape : Shape} {codec : Codec} (h : Binds d shape codec) :
    ∀ path, build path d shape = .ok codec := by
  induction h with
  | @scalar d type kind base =>
    intro path
    obtain ⟨_, id, fields, name, schemaDefined, ancestors, op⟩ := d
    rw [build.eq_def]
    rcases kind with rfl | rfl | rfl <;> simp only [base, outcome_bind_ok, if_pos] <;> rfl
  | @array d f rest inner codec kind fields element ih =>
    intro path
    obtain ⟨_, id, _, name, schemaDefined, ancestors, op⟩ := d
    obtain rfl := kind
    obtain rfl := fields
    rw [build.eq_def]
    simp only [buildElement, ih]
    rfl
  | @set d f rest inner codec kind fields element ih
  | @setAsArray d f rest inner codec kind fields element ih =>
    intro path
    obtain ⟨_, id, _, name, schemaDefined, ancestors, op⟩ := d
    obtain rfl := kind
    obtain rfl := fields
    rw [build.eq_def]
    simp only [buildElement, ih]
    rfl
  | @tuple d shapes codecs kind arity length scalars items ih =>
    intro path
    obtain ⟨_, id, fields, name, schemaDefined, ancestors, op⟩ := d
    obtain rfl := kind
    rw [build.eq_def]
    simp only [if_pos arity, buildItems_of_build fields arity length scalars ih]
    rfl
  | @record d record members bound kind values length fields codecs ih =>
    intro path
    obtain ⟨kind', id, parts, name, schemaDefined, ancestors, op⟩ := d
    rw [build.eq_def]
    -- the induction hypothesis gives the codec of each field at every path
    have hbound : buildFields path (recordLayout kind') record members parts = .ok bound :=
      buildFields_of_build parts length fields ih
    cases kind' with
    | object | namedTuple | sqlRecord | objectShape | inputShape =>
      dsimp only
      rw [if_neg values, hbound]
      rfl
    | _ => cases kind
  | @range d f rest inner codec kind fields ranged element ih
  | @multirange d f rest inner codec kind fields ranged element ih =>
    intro path
    obtain ⟨_, id, _, name, schemaDefined, ancestors, op⟩ := d
    obtain rfl := kind
    obtain rfl := fields
    rw [build.eq_def]
    simp only [buildRangeElement, ranged, outcome_bind_ok, ih]
    rfl

/-- Binding gives exactly the codecs of the relation, at every path. -/
theorem build_ok_iff {path : List String} {d : Descriptor} {shape : Shape} {codec : Codec} :
    build path d shape = .ok codec ↔ Binds d shape codec :=
  ⟨binds_of_build d, fun h => build_of_binds h path⟩

/-- A codec of which there is always one value, or at most one, is one for the shape of a present
value. -/
theorem binds_of_bind {d : Descriptor} {required : Bool} {shape : Shape} {codec : Codec}
    (h : d.bind required shape = .ok codec) : Binds d shape.required codec := by
  rw [bind_eq] at h
  split at h
  · cases h
  · exact build_ok_iff.mp h

/-! ## The parts of tuples and records -/

/-- Behind the codec of an item of a tuple there are a part of the type and a shape. -/
theorem exists_item {fields : List (Field Descriptor)} {shapes : List Shape} {codecs : List Codec}
    (arity : shapes.length = fields.length) (length : codecs.length = fields.length) {i : Nat}
    {codec : Codec} (h : codecs[i]? = some codec) :
    ∃ f shape, fields[i]? = some f ∧ shapes[i]? = some shape := by
  have hi : i < fields.length := length ▸ (List.getElem?_eq_some_iff.mp h).1
  exact ⟨fields[i], shapes[i], List.getElem?_eq_getElem hi, List.getElem?_eq_getElem (arity ▸ hi)⟩

/-- A bound field with a slot comes from the field of the type at its position, which resolves to
the slot; only a slot that may be empty has a field that may be absent. -/
theorem resolves_at {layout : RecordLayout} {members : List (Member Shape)}
    {fields : List (Field Descriptor)} {bound : List (BoundField Codec)}
    (length : bound.length = fields.length)
    (hfields : ∀ (i : Nat) f b, fields[i]? = some f → bound[i]? = some b →
      FieldOf layout members f b)
    {i : Nat} {b : BoundField Codec} {path : StoragePath} {codec : Codec} (hi : bound[i]? = some b)
    (htarget : b.target = .slot path codec) :
    ∃ (f : Field Descriptor) (shape : Shape), fields[i]? = some f ∧
      Shape.resolve? members (f.name.getD "") = some (path, shape) ∧
        (b.required = true ∨ shape.isOptional = true) := by
  have hlt : i < fields.length := length ▸ (List.getElem?_eq_some_iff.mp hi).1
  have hf := List.getElem?_eq_getElem hlt
  obtain ⟨-, hrequired, -, hgoes⟩ := hfields i _ b hf hi
  rw [htarget] at hgoes
  cases hgoes with
  | slot _ resolved absence => exact ⟨_, _, hf, resolved, hrequired ▸ absence⟩

/-- A bound field with a slot comes from a field of the type that resolves to the slot. -/
theorem resolves_of_mem {layout : RecordLayout} {members : List (Member Shape)}
    {fields : List (Field Descriptor)} {bound : List (BoundField Codec)}
    (length : bound.length = fields.length)
    (hfields : ∀ (i : Nat) f b, fields[i]? = some f → bound[i]? = some b →
      FieldOf layout members f b)
    {b : BoundField Codec} {path : StoragePath} {codec : Codec} (hb : b ∈ bound)
    (htarget : b.target = .slot path codec) :
    ∃ (i : Nat) (f : Field Descriptor) (shape : Shape), fields[i]? = some f ∧ bound[i]? = some b ∧
      Shape.resolve? members (f.name.getD "") = some (path, shape) ∧
        (b.required = true ∨ shape.isOptional = true) := by
  obtain ⟨i, hi⟩ := List.mem_iff_getElem?.mp hb
  obtain ⟨f, shape, hf, hresolve, habsence⟩ := resolves_at length hfields hi htarget
  exact ⟨i, f, shape, hf, hi, hresolve, habsence⟩

section

variable {layout : RecordLayout} {members : List (Member Shape)}
  {fields : List (Field Descriptor)} {bound : List (BoundField Codec)}

/-- The codec of a record binds a record to the shape of one, field by field. -/
theorem Binds.record_fields {d : Descriptor} {shape : Shape} {id : Uuid} {template : Record}
    (h : Binds d shape (.record id layout bound template)) :
    ∃ name members, shape = .record name members ∧ template = Shape.defaultRecord members ∧
      d.kind.isRecord = true ∧ FieldsBind layout members d.fields bound := by
  cases h with
  | record kind _ length fields codecs =>
    exact ⟨_, _, rfl, rfl, kind, length, fields, codecs⟩

/-- The bound field at a position comes from a field of the type. -/
theorem FieldsBind.exists_field (h : FieldsBind layout members fields bound) {k : Nat}
    {b : BoundField Codec} (hb : bound[k]? = some b) : ∃ f, fields[k]? = some f :=
  ⟨_, List.getElem?_eq_getElem (h.length ▸ (List.getElem?_eq_some_iff.mp hb).1)⟩

/-- The fields of the type and the bound fields stand side by side. -/
theorem FieldsBind.forall₂ (h : FieldsBind layout members fields bound) :
    List.Forall₂ (FieldOf layout members) fields bound :=
  forall₂_iff_getElem?.mpr ⟨h.length.symm, h.field⟩

/-- A bound field with a slot is more than the identifier of its type. -/
theorem FieldsBind.name_ne_typeId (h : FieldsBind layout members fields bound) {k : Nat}
    {b : BoundField Codec} {path : StoragePath} {codec : Codec} (hb : bound[k]? = some b)
    (htarget : b.target = .slot path codec) : b.name ≠ typeIdField := by
  obtain ⟨f, hf⟩ := h.exists_field hb
  exact (h.field k f b hf hb).name_ne_typeId htarget

/-- Fields of one name have one slot, and fields of different names have different ones. -/
theorem FieldsBind.path_eq_iff (h : FieldsBind layout members fields bound) {i k : Nat}
    {f g : Field Descriptor} {b c : BoundField Codec} {path path' : StoragePath}
    {codec codec' : Codec} (hf : fields[i]? = some f) (hg : fields[k]? = some g)
    (hb : bound[i]? = some b) (hc : bound[k]? = some c) (htarget : b.target = .slot path codec)
    (htarget' : c.target = .slot path' codec') :
    path = path' ↔ f.name.getD "" = g.name.getD "" := by
  have hgoes := (h.field i f b hf hb).target
  have hgoes' := (h.field k g c hg hc).target
  rw [htarget] at hgoes
  rw [htarget'] at hgoes'
  cases hgoes with
  | slot _ hresolve _ =>
    cases hgoes' with
    | slot _ hresolve' _ =>
      constructor
      · rintro rfl
        exact Shape.resolve?_inj hresolve hresolve'
      · intro hname
        rw [hname] at hresolve
        exact (Prod.mk.inj (Option.some.inj (hresolve.symm.trans hresolve'))).1

/-- Fields share a slot exactly if they have one name. -/
theorem FieldsBind.path_eq_iff_name (h : FieldsBind layout members fields bound) {i j : Nat}
    {b c : BoundField Codec} {path path' : StoragePath} {codec codec' : Codec}
    (hb : bound[i]? = some b) (hc : bound[j]? = some c) (htarget : b.target = .slot path codec)
    (htarget' : c.target = .slot path' codec') : path = path' ↔ b.name = c.name := by
  obtain ⟨f, hf⟩ := h.exists_field hb
  obtain ⟨g, hg⟩ := h.exists_field hc
  rw [(h.field i f b hf hb).name, (h.field j g c hg hc).name]
  exact h.path_eq_iff hf hg hb hc htarget htarget'

end

end Descriptor

end TypedWire
