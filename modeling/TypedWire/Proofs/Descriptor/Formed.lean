import TypedWire.Proofs.Descriptor.Parse

/-!
# Types as they are read

A type that is read from a stream has the parts that its kind calls for, and so have all types that
can be reached from it. Inference and binding rely on this when they go by the kind alone.

- `Descriptor.Reaches`: the types among the parts and the ancestors of a type, at any depth.
- `Descriptor.PartsFit`: the parts that types of a kind have; `Descriptor.Formed`: all that is said
  of one type.
- `Grammar.Body.formed`: a node gives a formed type.
- `Descriptor.formed_of_parse`: so does a stream, wherever one looks.
-/

namespace TypedWire

namespace Descriptor

/-- The second type is the first, or one of its parts or ancestors leads to it. -/
inductive Reaches : Descriptor → Descriptor → Prop
  | here {d : Descriptor} : Reaches d d
  | part {d d' : Descriptor} {f : Field Descriptor} (mem : f ∈ d.fields)
      (h : Reaches f.desc d') : Reaches d d'
  | ancestor {d d' a : Descriptor} (mem : a ∈ d.ancestors) (h : Reaches a d') : Reaches d d'

/-- The parts that the types of a kind have. -/
def PartsFit (dialect : Dialect) (fields : List (Field Descriptor)) : Kind → Prop
  | .set | .array | .range | .multirange =>
    ∃ f, fields = [f] ∧ f.name = none ∧ f.required = true
  | .baseScalar | .enum => fields = []
  | .scalar =>
    match dialect with
    | .v1 => ∃ f, fields = [f]
    | .v2 => fields = []
  | .tuple => ∀ (i : Nat) f, fields[i]? = some f → f.name = some (toString i) ∧ f.required = true
  | .namedTuple | .sqlRecord => ∀ f ∈ fields, f.required = true
  | .object =>
    match dialect with
    | .v1 => True
    | .v2 => fields = []
  | .objectShape | .inputShape | .compound => True

/-- What holds of a type that a stream describes, apart from its parts. -/
structure Formed (dialect : Dialect) (d : Descriptor) : Prop where
  /-- A tag of the dialect introduces the type. -/
  kind : ∃ tag ∈ Tag.all.take (Tag.count dialect), d.kind = tag.kind dialect
  parts : PartsFit dialect d.fields d.kind
  op : d.op.isSome = true ↔ d.kind = .compound
  union : ∀ f ∈ d.fields, f.union = true ↔ d.op = some .union
  /-- The first dialect sends neither names nor ancestors. -/
  bare : dialect = .v1 → d.name = none ∧ d.ancestors = []
  /-- In the second dialect an object is the type of objects, not the shape of one. -/
  object : dialect = .v2 → d.kind = .object → d.name.isSome = true

theorem formed_emptyTuple (dialect : Dialect) : emptyTuple.Formed dialect where
  kind := ⟨.tuple, by cases dialect <;> decide, rfl⟩
  parts _ _ hf := nomatch hf
  op := ⟨nofun, nofun⟩
  union := List.forall_mem_nil _
  bare _ := ⟨rfl, rfl⟩
  object _ h := nomatch h

end Descriptor

/-! ## Nodes -/

namespace Grammar

theorem Info.about?_ancestors {dialect : Dialect} {type? : Position → Option Descriptor}
    (info : Info dialect) {about : TypeInfo} (h : info.about? type? = some about) :
    ∀ a ∈ about.ancestors, ∃ p, type? p = some a := by
  cases info with
  | bare =>
    obtain rfl := Option.some.inj h
    exact List.forall_mem_nil _
  | full name schemaDefined ancestors =>
    obtain ⟨types, htypes, rfl⟩ := Option.map_eq_some_iff.mp h
    intro a ha
    obtain ⟨p, -, hp⟩ := exists_of_mem_mapM htypes a ha
    exact ⟨p, hp⟩

namespace Body

open Descriptor (PartsFit)

variable {dialect : Dialect} {tag : Tag} {type? : Position → Option Descriptor}

theorem kind_eq (body : Body dialect tag) : body.kind = tag.kind dialect := by
  cases body <;> rfl

theorem op?_isSome_iff (body : Body dialect tag) :
    body.op?.isSome = true ↔ body.kind = .compound := by
  cases body with
  | compound => exact ⟨fun _ => rfl, fun _ => rfl⟩
  | _ => exact ⟨nofun, nofun⟩

theorem partsFit (body : Body dialect tag) {fields : List (Field Descriptor)}
    (h : body.fields? type? = some fields) : PartsFit dialect fields body.kind := by
  cases body with
  | set | array | range | multirange =>
    obtain ⟨desc, -, rfl⟩ := Option.map_eq_some_iff.mp h
    exact ⟨_, rfl, rfl, rfl⟩
  | derivedScalar =>
    obtain ⟨desc, -, rfl⟩ := Option.map_eq_some_iff.mp h
    exact ⟨_, rfl⟩
  | baseScalar | scalar | enum | objectType =>
    obtain rfl := Option.some.inj h
    exact rfl
  | tuple =>
    obtain ⟨types, -, rfl⟩ := Option.map_eq_some_iff.mp h
    intro i f hf
    rw [List.getElem?_map, List.getElem?_zipIdx, Option.map_map, Nat.zero_add] at hf
    obtain ⟨desc, -, rfl⟩ := Option.map_eq_some_iff.mp hf
    exact ⟨rfl, rfl⟩
  | namedTuple | sqlRecord =>
    intro f hf
    obtain ⟨p, -, hp⟩ := exists_of_mem_mapM h f hf
    obtain ⟨desc, -, rfl⟩ := Option.map_eq_some_iff.mp hp
    exact rfl
  | shape | objectShape | inputShape | compound => trivial

/-- The components of a union are marked, and nothing else is. -/
theorem union_iff (body : Body dialect tag) {fields : List (Field Descriptor)}
    (h : body.fields? type? = some fields) :
    ∀ f ∈ fields, f.union = true ↔ body.op? = some .union := by
  cases body with
  | set | array | range | multirange | derivedScalar =>
    obtain ⟨desc, -, rfl⟩ := Option.map_eq_some_iff.mp h
    exact (List.forall_mem_singleton).mpr ⟨nofun, nofun⟩
  | baseScalar | scalar | enum | objectType =>
    obtain rfl := Option.some.inj h
    exact List.forall_mem_nil _
  | tuple =>
    obtain ⟨types, -, rfl⟩ := Option.map_eq_some_iff.mp h
    rintro f hf
    obtain ⟨item, -, rfl⟩ := List.mem_map.mp hf
    exact ⟨nofun, nofun⟩
  | shape | inputShape | objectShape | namedTuple | sqlRecord =>
    intro f hf
    obtain ⟨p, -, hp⟩ := exists_of_mem_mapM h f hf
    obtain ⟨desc, -, rfl⟩ := Option.map_eq_some_iff.mp hp
    exact ⟨nofun, nofun⟩
  | compound _ _ op _ =>
    obtain ⟨types, -, rfl⟩ := Option.map_eq_some_iff.mp h
    rintro f hf
    obtain ⟨desc, -, rfl⟩ := List.mem_map.mp hf
    cases op with
    | union => exact ⟨fun _ => rfl, fun _ => rfl⟩
    | intersection => exact ⟨nofun, nofun⟩

theorem about?_bare {tag : Tag} (body : Body .v1 tag) {about : TypeInfo}
    (h : body.about? type? = some about) : about.name = none ∧ about.ancestors = [] := by
  cases body with
  | tuple info | namedTuple info | array info | enum info | range info =>
    cases info
    obtain rfl := Option.some.inj h
    exact ⟨rfl, rfl⟩
  | set | shape | baseScalar | derivedScalar | inputShape =>
    obtain rfl := Option.some.inj h
    exact ⟨rfl, rfl⟩

theorem about?_object {tag : Tag} (body : Body .v2 tag) {about : TypeInfo}
    (h : body.about? type? = some about) (hkind : body.kind = .object) :
    about.name.isSome = true := by
  cases body with
  | objectType =>
    obtain rfl := Option.some.inj h
    exact rfl
  | _ => cases hkind

/-- The ancestors are the types at positions of the node. -/
theorem about?_ancestors (body : Body dialect tag) {about : TypeInfo}
    (h : body.about? type? = some about) : ∀ a ∈ about.ancestors, ∃ p, type? p = some a := by
  cases body with
  | scalar info | tuple info | namedTuple info | array info | enum info | range info
  | multirange info => exact info.about?_ancestors h
  | objectShape =>
    obtain ⟨desc, -, rfl⟩ := Option.map_eq_some_iff.mp h
    exact List.forall_mem_nil _
  | set | shape | baseScalar | derivedScalar | inputShape | objectType | compound | sqlRecord =>
    obtain rfl := Option.some.inj h
    exact List.forall_mem_nil _

/-- A node gives a formed type, whose parts and ancestors are types at positions of the node. -/
theorem formed {id : Uuid} (body : Body dialect tag) {d : Descriptor}
    (h : body.resolve? type? id = some d) :
    d.Formed dialect ∧ (∀ f ∈ d.fields, ∃ p, type? p = some f.desc) ∧
      ∀ a ∈ d.ancestors, ∃ p, type? p = some a := by
  have hparts := body.mapM_parts h
  obtain ⟨about, habout, h⟩ := Option.bind_eq_some_iff.mp h
  obtain ⟨fields, hfields, h⟩ := Option.bind_eq_some_iff.mp h
  obtain rfl := Option.some.inj h
  refine ⟨⟨⟨tag, body.tag_mem, body.kind_eq⟩, body.partsFit hfields, body.op?_isSome_iff,
    body.union_iff hfields, ?_, ?_⟩, ?_, body.about?_ancestors habout⟩
  · rintro rfl
    exact body.about?_bare habout
  · rintro rfl hkind
    exact body.about?_object habout hkind
  · intro f hf
    obtain ⟨p, -, hp⟩ := exists_of_mem_mapM hparts f.desc (List.mem_map_of_mem hf)
    exact ⟨p, hp⟩

end Body

end Grammar

/-! ## Streams -/

namespace Descriptor

open Grammar

/-- All types that can be reached from one at a place of a stream are formed: what a node refers to
is at an earlier place. -/
theorem formed_of_typeAt? {dialect : Dialect} {stream : List (Node dialect)} (i : Nat)
    {d d' : Descriptor} (h : typeAt? stream i = some d) (hreaches : d.Reaches d') :
    d'.Formed dialect := by
  induction i using Nat.strongRecOn generalizing d with
  | ind i ih =>
    have hearlier : ∀ (p : Position) (a : Descriptor),
        (if _h : p.toNat < i then typeAt? stream p.toNat else none) = some a →
          a.Reaches d' → d'.Formed dialect := by
      intro p a hp hreaches
      split at hp
      · rename_i hlt
        exact ih _ hlt hp hreaches
      · cases hp
    rw [typeAt?] at h
    split at h
    · obtain ⟨hformed, hparts, hancestors⟩ := Body.formed _ h
      cases hreaches with
      | here => exact hformed
      | part hmem hreaches =>
        obtain ⟨p, hp⟩ := hparts _ hmem
        exact hearlier p _ hp hreaches
      | ancestor hmem hreaches =>
        obtain ⟨p, hp⟩ := hancestors _ hmem
        exact hearlier p _ hp hreaches
    · cases h
    · cases h

/-- All types that can be reached from the root of a stream are formed. -/
theorem formed_of_parse {dialect : Dialect} {bs : Bytes} {root d : Descriptor}
    (h : Descriptor.parse dialect bs = .ok root) (hreaches : root.Reaches d) :
    d.Formed dialect := by
  cases bs with
  | nil =>
    obtain rfl := Except.ok.inj h
    cases hreaches with
    | here => exact formed_emptyTuple dialect
    | part hmem => cases hmem
    | ancestor hmem => cases hmem
  | cons b bs =>
    obtain ⟨stream, -, -, i, hroot, -⟩ := (parse_eq_ok_iff (List.cons_ne_nil b bs)).mp h
    exact formed_of_typeAt? i hroot hreaches

end Descriptor

end TypedWire
