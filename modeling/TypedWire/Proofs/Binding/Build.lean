import TypedWire.Binding.Bind
import TypedWire.Proofs.Outcome

/-!
# Binding without a path to keep

The walk that binds a type pushes a component of the path before each part and pops it behind the
part. With the path as an argument there is nothing to push and to pop: what the walk does is what
binding at its path gives, and a walk that succeeds leaves the path as it was.

- `Descriptor.build`: the codec of a type for a shape, at a path from the root.
- `Binder.Does b f`: started at a path, the step `b` of the walk gives what `f` gives at the path,
  and if that is a success it leaves the path.
- `Binder.does_build`: the walk gives what binding at its path gives.
- `Descriptor.bind_eq`: binding is binding at the root.
-/

namespace TypedWire

/-! ## Binding at a path -/

namespace Descriptor

/-- A shape of another kind than the type. -/
def mismatch {α : Type} (path : List String) (expected : String) (found : Shape) :
    Except BindError α :=
  .error (.shapeMismatch path expected found.text)

mutual

/-- The codec of a type for a shape, at a path from the root. -/
def build (path : List String) : Descriptor → Shape → Except BindError Codec
  | d@⟨kind, id, fields, name, _, _, _⟩, shape =>
    match kind with
    | .baseScalar | .scalar | .enum => do
      let type ← d.scalarBase
      match shape with
      | .scalar t => if t = type then return .scalar id type else mismatch path type.name shape
      | _ => mismatch path type.name shape
    | .array =>
      match shape with
      | .array inner => .array id <$> buildElement path kind fields inner
      | _ => mismatch path "array" shape
    | .set =>
      match shape with
      | .set inner => .set id <$> buildElement path kind fields inner
      | .array inner => .array id <$> buildElement path kind fields inner
      | _ => mismatch path "set" shape
    | .tuple =>
      match shape with
      | .tuple items =>
        if items.length = fields.length then .tuple id <$> buildItems path 0 fields items
        else mismatch path s!"tuple of {fields.length}" shape
      | _ => mismatch path s!"tuple of {fields.length}" shape
    | .object | .namedTuple | .sqlRecord | .objectShape | .inputShape =>
      if kind = .object ∧ name.isSome then .error (.notBindable kind)
      else
        match shape with
        | .record record members => do
          let layout := recordLayout kind
          let bound ← buildFields path layout record members fields
          return .record id layout bound (Shape.defaultRecord members)
        | _ => mismatch path kind.name shape
    | .range =>
      match shape with
      | .range inner => .range id <$> buildRangeElement path kind fields inner
      | _ => mismatch path "range" shape
    | .multirange =>
      match shape with
      | .multirange inner => .multirange id <$> buildRangeElement path kind fields inner
      | _ => mismatch path "multirange" shape
    | .compound => .error (.notBindable kind)

/-- The codec of the elements of an array or a set. -/
def buildElement (path : List String) (kind : Kind) :
    List (Field Descriptor) → Shape → Except BindError Codec
  | [], _ => .error (.notBindable kind)
  | ⟨_, element, _, _, _⟩ :: _, shape => build (path ++ ["[]"]) element shape

/-- The codec of the bounds of a range. -/
def buildRangeElement (path : List String) (kind : Kind) :
    List (Field Descriptor) → Shape → Except BindError Codec
  | [], _ => .error (.notBindable kind)
  | ⟨_, element, _, _, _⟩ :: _, shape => do
    checkRangeElement element
    build path element shape

/-- The codecs of the items of a tuple, the first of them at a position. -/
def buildItems (path : List String) (index : Nat) :
    List (Field Descriptor) → List Shape → Except BindError (List Codec)
  | ⟨_, item, _, _, _⟩ :: fields, shape :: shapes => do
    let codec ← build (path ++ [toString index]) item shape.required
    if !codec.isScalar then throw (.nonScalarTupleElement path index)
    let codecs ← buildItems path (index + 1) fields shapes
    return codec :: codecs
  | _, _ => .ok []

/-- The targets of the fields of a record. The fields of a named tuple are always present. -/
def buildFields (path : List String) (layout : RecordLayout) (record : String)
    (members : List (Member Shape)) :
    List (Field Descriptor) → Except BindError (List (BoundField Codec))
  | [] => .ok []
  | ⟨name, desc, required, _, flags⟩ :: fields => do
    let name := name.getD ""
    let required := layout = .named || required
    let flags := if layout = .named then ⟨0⟩ else flags
    if name = typeIdField then
      let rest ← buildFields path layout record members fields
      return ⟨name, required, flags, .skip⟩ :: rest
    else
      match Shape.resolve? members name with
      | none => throw (.missingMember name record)
      | some (slot, shape) =>
        let path' := path ++ [name]
        if !required && !shape.isOptional then throw (.cardinality path' shape.text)
        let codec ← build path' desc shape.required
        let rest ← buildFields path layout record members fields
        return ⟨name, required, flags, .slot slot codec⟩ :: rest

end

end Descriptor

/-! ## Steps of the walk -/

namespace Binder

variable {α β : Type}

/-- Started at a path, the step gives what the function gives at the path. A step that succeeds
leaves the path as it was. -/
structure Does (b : Binder α) (f : List String → Except BindError α) : Prop where
  ok : ∀ {path : List String} {a : α}, f path = .ok a → b.run path = (.ok a, path)
  error : ∀ {path : List String} {e : BindError}, f path = .error e →
    ∃ left, b.run path = (.error e, left)

/-- A part is walked at the longer path, and behind it the last component is gone. -/
theorem run_inside (component : String) (b : Binder α) (g : α → Binder β) (path : List String) :
    ExceptT.run (do
      push component
      let a ← b
      pop
      g a) path = match b.run (path ++ [component]) with
        | (.ok a, left) => (g a).run left.dropLast
        | (.error e, left) => (.error e, left) := by
  have hpush : (push component).run path = (.ok (), path ++ [component]) := rfl
  rw [run_bind, hpush]
  dsimp only
  rw [run_bind]
  rcases b.run (path ++ [component]) with ⟨_ | a, left⟩
  · rfl
  · rfl

namespace Does

theorem run_eq_ok_iff {b : Binder α} {f : List String → Except BindError α} (h : Does b f)
    {path left : List String} {a : α} :
    b.run path = (.ok a, left) ↔ f path = .ok a ∧ left = path := by
  constructor
  · intro hrun
    cases hf : f path with
    | ok a' =>
      obtain ⟨ha, rfl⟩ := Prod.mk.inj ((h.ok hf).symm.trans hrun)
      exact ⟨ha, rfl⟩
    | error e =>
      obtain ⟨left', hleft⟩ := h.error hf
      cases hleft.symm.trans hrun
  · rintro ⟨hf, rfl⟩
    exact h.ok hf

theorem run_eq_error_iff {b : Binder α} {f : List String → Except BindError α} (h : Does b f)
    {path : List String} {e : BindError} :
    (∃ left, b.run path = (.error e, left)) ↔ f path = .error e := by
  constructor
  · rintro ⟨left, hrun⟩
    cases hf : f path with
    | ok a => cases (h.ok hf).symm.trans hrun
    | error e' =>
      obtain ⟨left', hleft⟩ := h.error hf
      exact (Prod.mk.inj (hleft.symm.trans hrun)).1
  · exact h.error

theorem pure (a : α) : Does (pure a) fun _ => .ok a where
  ok h := by
    obtain rfl := Except.ok.inj h
    rfl
  error h := nomatch h

theorem throw (e : BindError) : Does (throw e : Binder α) fun _ => .error e where
  ok h := nomatch h
  error h := by
    obtain rfl := Except.error.inj h
    exact ⟨_, rfl⟩

theorem lift (outcome : Except BindError α) : Does (lift outcome) fun _ => outcome := by
  cases outcome with
  | ok a => exact pure a
  | error e => exact throw e

/-- A failure that tells the path. -/
theorem throwAt (e : List String → BindError) :
    Does (do MonadExcept.throw (e (← Binder.path)) : Binder α) fun path => .error (e path) where
  ok h := nomatch h
  error h := by
    obtain rfl := Except.error.inj h
    exact ⟨_, rfl⟩

theorem mismatch (expected : String) (found : Shape) :
    Does (mismatch expected found : Binder α) fun path =>
      Descriptor.mismatch path expected found :=
  throwAt fun path => .shapeMismatch path expected found.text

theorem bind {b : Binder α} {f : List String → Except BindError α} {g : α → Binder β}
    {h : α → List String → Except BindError β} (hb : Does b f) (hg : ∀ a, Does (g a) (h a)) :
    Does (b >>= g) fun path => f path >>= fun a => h a path where
  ok {path c} hc := by
    obtain ⟨a, ha, hc⟩ := outcome_bind_eq_ok.mp hc
    rw [run_bind, hb.ok ha]
    exact (hg a).ok hc
  error {path e} he := by
    rw [run_bind]
    rcases outcome_bind_eq_error.mp he with he | ⟨a, ha, he⟩
    · obtain ⟨left, hleft⟩ := hb.error he
      exact ⟨left, by rw [hleft]⟩
    · rw [hb.ok ha]
      exact (hg a).error he

theorem map {b : Binder α} {f : List String → Except BindError α} (k : α → β) (hb : Does b f) :
    Does (k <$> b) fun path => k <$> f path :=
  hb.bind fun a => pure (k a)

/-- A part is walked with a component more, which is taken away again behind it. -/
theorem inside {b : Binder α} {f : List String → Except BindError α} {g : α → Binder β}
    {h : α → List String → Except BindError β} (component : String) (hb : Does b f)
    (hg : ∀ a, Does (g a) (h a)) :
    Does
      (do
        push component
        let a ← b
        pop
        g a)
      fun path => f (path ++ [component]) >>= fun a => h a path where
  ok hc := by
    obtain ⟨a, ha, hc⟩ := outcome_bind_eq_ok.mp hc
    rw [run_inside, hb.ok ha]
    dsimp only
    rw [List.dropLast_concat]
    exact (hg a).ok hc
  error he := by
    rw [run_inside]
    rcases outcome_bind_eq_error.mp he with he | ⟨a, ha, he⟩
    · obtain ⟨left, hleft⟩ := hb.error he
      exact ⟨left, by rw [hleft]⟩
    · rw [hb.ok ha]
      dsimp only
      rw [List.dropLast_concat]
      exact (hg a).error he

end Does

/-! ## The walk -/

mutual

/-- The walk gives what binding at its path gives. -/
theorem does_build : ∀ (d : Descriptor) (shape : Shape),
    Does (build d shape) fun path => Descriptor.build path d shape
  | ⟨kind, id, fields, name, schemaDefined, ancestors, op⟩, shape => by
    unfold build Descriptor.build
    cases kind with
    | baseScalar | scalar | enum =>
      refine (Does.lift _).bind fun type => ?_
      cases shape with
      | scalar t =>
        dsimp only
        split
        · exact .pure _
        · exact .mismatch _ _
      | _ => exact .mismatch _ _
    | array =>
      cases shape with
      | array inner => exact (does_buildArray _ fields inner).map _
      | _ => exact .mismatch _ _
    | set =>
      cases shape with
      | set inner | array inner => exact (does_buildArray _ fields inner).map _
      | _ => exact .mismatch _ _
    | tuple =>
      cases shape with
      | tuple items =>
        dsimp only
        split
        · exact (does_buildItems 0 fields items).map _
        · exact .mismatch _ _
      | _ => exact .mismatch _ _
    | object | namedTuple | sqlRecord | objectShape | inputShape =>
      dsimp only
      split
      · exact .throw _
      · cases shape with
        | record record members =>
          exact (does_buildFields _ record members fields).bind fun bound => .pure _
        | _ => exact .mismatch _ _
    | range =>
      cases shape with
      | range inner => exact (does_buildRange _ fields inner).map _
      | _ => exact .mismatch _ _
    | multirange =>
      cases shape with
      | multirange inner => exact (does_buildRange _ fields inner).map _
      | _ => exact .mismatch _ _
    | compound => exact .throw _

theorem does_buildArray (kind : Kind) : ∀ (fields : List (Field Descriptor)) (shape : Shape),
    Does (buildArray kind fields shape) fun path => Descriptor.buildElement path kind fields shape
  | [], _ => .throw _
  | ⟨_, element, _, _, _⟩ :: _, shape => by
    -- behind the element comes the pop, and then nothing but its codec
    have hpath : ∀ path, Descriptor.build (path ++ ["[]"]) element shape =
        Descriptor.build (path ++ ["[]"]) element shape >>= fun codec => .ok codec := by
      intro path
      cases Descriptor.build (path ++ ["[]"]) element shape <;> rfl
    unfold buildArray Descriptor.buildElement
    rw [funext hpath]
    exact (does_build element shape).inside "[]" fun codec => .pure codec

theorem does_buildRange (kind : Kind) : ∀ (fields : List (Field Descriptor)) (shape : Shape),
    Does (buildRange kind fields shape) fun path =>
      Descriptor.buildRangeElement path kind fields shape
  | [], _ => .throw _
  | ⟨_, element, _, _, _⟩ :: _, shape => (Does.lift _).bind fun _ => does_build element shape

theorem does_buildItems (index : Nat) : ∀ (fields : List (Field Descriptor)) (shapes : List Shape),
    Does (buildItems index fields shapes) fun path => Descriptor.buildItems path index fields shapes
  | ⟨_, item, _, _, _⟩ :: fields, shape :: shapes => by
    unfold buildItems Descriptor.buildItems
    refine (does_build item shape.required).inside (toString index) fun codec => ?_
    cases codec.isScalar with
    | false => exact .throwAt fun path => .nonScalarTupleElement path index
    | true => exact (does_buildItems (index + 1) fields shapes).bind fun codecs => .pure _
  | [], _ => .pure []
  | _ :: _, [] => .pure []

theorem does_buildFields (layout : RecordLayout) (record : String) (members : List (Member Shape)) :
    ∀ fields : List (Field Descriptor), Does (buildFields layout record members fields) fun path =>
      Descriptor.buildFields path layout record members fields
  | [] => .pure []
  | ⟨name, desc, required, _, flags⟩ :: fields => by
    unfold buildFields Descriptor.buildFields
    dsimp only
    have hrest := does_buildFields layout record members fields
    split
    · exact hrest.bind fun rest => .pure _
    · cases Shape.resolve? members (name.getD "") with
      | none => exact .throw _
      | some found =>
        obtain ⟨slot, shape⟩ := found
        dsimp only
        cases (!(decide (layout = .named) || required) && !shape.isOptional) with
        | true =>
          -- the failure tells the path with the name, though the name is popped before it
          constructor
          · intro path bound h
            cases h
          · intro path e h
            obtain rfl := Except.error.inj h
            exact ⟨_, rfl⟩
        | false =>
          exact (does_build desc shape.required).inside (name.getD "") fun codec =>
            hrest.bind fun rest => .pure _

end

end Binder

/-- Binding is binding at the root. -/
theorem Descriptor.bind_eq (d : Descriptor) (required : Bool) (shape : Shape) :
    d.bind required shape =
      if !required && !shape.isOptional then .error (.cardinality [] shape.text)
      else build [] d shape.required := by
  have hwalk := Binder.does_build d shape.required
  unfold bind
  split
  · rfl
  · cases hbuild : build [] d shape.required with
    | ok codec => rw [hwalk.ok hbuild]
    | error e =>
      obtain ⟨left, hleft⟩ := hwalk.error hbuild
      rw [hleft]

end TypedWire
