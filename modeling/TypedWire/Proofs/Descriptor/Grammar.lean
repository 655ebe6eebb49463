import TypedWire.Descriptor.Stream
import TypedWire.Proofs.Wire.Reads

/-!
# The grammar of descriptor streams

What the nodes of a stream say, how they are spelled, and which types they stand for, apart from any
reader.

- `Body`: what a type says after its tag and identifier, with a constructor for each layout.
- `tagByte`, `Body.spell`: how a type is spelled; `Body.references`: the positions in it.
- `Body.resolve?`: the type, with the types at the positions in their places.
- `Node`: a type or an annotation; `Node.Written`: how the dialect sends it.
- `RefersBack`: every position in a stream is the one of an earlier type.
- `typeAt?`, `IsRoot`: the type at a position, and the last one.
-/

namespace TypedWire.Grammar

/-! ## What nodes are made of -/

/-- Bytes with their count in four bytes. -/
structure Block where
  bytes : Bytes
  fits : bytes.length < UInt32.size

def Block.spell (block : Block) : Bytes := Read.spellBlock block.bytes

/-- A text, sent as a block. -/
structure Name where
  text : String
  fits : (Utf8.encode text).length < UInt32.size

def Name.spell (name : Name) : Bytes := Read.spellBlock (Utf8.encode name.text)

/-- Items with their count in two bytes. -/
structure Counted (σ : Type) where
  items : List σ
  fits : items.length < UInt16.size

def Counted.spell {σ : Type} (spell : σ → Bytes) (counted : Counted σ) : Bytes :=
  BigEndian.encode 2 counted.items.length ++ counted.items.flatMap spell

/-- The place of a node in its stream. -/
abbrev Position := UInt16

def spellPosition (p : Position) : Bytes := BigEndian.encode 2 p.toNat

/-- How many values a field may have. -/
inductive Cardinality where
  | atMostOne
  | many
  | one
  | atLeastOne

namespace Cardinality

def byte : Cardinality → UInt8
  | .atMostOne => 0x6f
  | .many => 0x6d
  | .one => 0x41
  | .atLeastOne => 0x4d

/-- Whether the field is always present. -/
def required : Cardinality → Bool
  | .atMostOne | .many => false
  | .one | .atLeastOne => true

end Cardinality

/-- A field of a shape. -/
structure Element where
  flags : UInt32
  cardinality : Cardinality
  name : Name
  part : Position

def Element.spell (e : Element) : Bytes :=
  BigEndian.encode 4 e.flags.toNat ++ e.cardinality.byte :: (e.name.spell ++ spellPosition e.part)

/-- A field of an object shape of the second dialect. The type that the field comes from is not
looked at. -/
structure SourcedElement where
  element : Element
  source : UInt16

def SourcedElement.spell (e : SourcedElement) : Bytes :=
  e.element.spell ++ BigEndian.encode 2 e.source.toNat

/-- A part with a name. -/
structure NamedPart where
  name : Name
  part : Position

def NamedPart.spell (p : NamedPart) : Bytes := p.name.spell ++ spellPosition p.part

def spellSize (size : Int32) : Bytes := BigEndian.encode 4 size.toUInt32.toNat

/-- The sizes of the dimensions of an array, which are not looked at. -/
structure Sizes where
  counted : Counted Int32
  nonempty : counted.items ≠ []

def Sizes.spell (sizes : Sizes) : Bytes := sizes.counted.spell spellSize

/-- The byte of an operator. -/
def opByte : CompoundOp → UInt8
  | .union => 1
  | .intersection => 2

/-- What stands before the parts of a type that has a name. -/
inductive Info : Dialect → Type
  | bare : Info .v1
  | full (name : Name) (schemaDefined : UInt8) (ancestors : Counted Position) : Info .v2

namespace Info

variable {dialect : Dialect}

def spell : Info dialect → Bytes
  | .bare => []
  | .full name schemaDefined ancestors =>
    name.spell ++ schemaDefined :: ancestors.spell spellPosition

def ancestors : Info dialect → List Position
  | .bare => []
  | .full _ _ ancestors => ancestors.items

end Info

/-! ## Types -/

/-- The byte of a tag. -/
def tagByte : Tag → UInt8
  | .set => 0
  | .shape => 1
  | .baseScalar => 2
  | .scalar => 3
  | .tuple => 4
  | .namedTuple => 5
  | .array => 6
  | .enum => 7
  | .inputShape => 8
  | .range => 9
  | .objectType => 10
  | .compound => 11
  | .multirange => 12
  | .sqlRecord => 13

/-- What a type with a tag says after its identifier: the tags that a dialect has, and the layouts
that they have in it. -/
inductive Body : Dialect → Tag → Type
  | set {dialect} (part : Position) : Body dialect .set
  | shape (elements : Counted Element) : Body .v1 .shape
  | objectShape (ephemeral : UInt8) (object : Position) (elements : Counted SourcedElement) :
      Body .v2 .shape
  | baseScalar {dialect} : Body dialect .baseScalar
  | derivedScalar (base : Position) : Body .v1 .scalar
  | scalar (info : Info .v2) : Body .v2 .scalar
  | tuple {dialect} (info : Info dialect) (parts : Counted Position) : Body dialect .tuple
  | namedTuple {dialect} (info : Info dialect) (parts : Counted NamedPart) :
      Body dialect .namedTuple
  | array {dialect} (info : Info dialect) (part : Position) (sizes : Sizes) : Body dialect .array
  | enum {dialect} (info : Info dialect) (members : Counted Block) : Body dialect .enum
  | inputShape {dialect} (elements : Counted Element) : Body dialect .inputShape
  | range {dialect} (info : Info dialect) (part : Position) : Body dialect .range
  | objectType (name : Name) (schemaDefined : UInt8) : Body .v2 .objectType
  | compound (name : Name) (schemaDefined : UInt8) (op : CompoundOp)
      (components : Counted Position) : Body .v2 .compound
  | multirange (info : Info .v2) (part : Position) : Body .v2 .multirange
  | sqlRecord (parts : Counted NamedPart) : Body .v2 .sqlRecord

namespace Body

variable {dialect : Dialect} {tag : Tag}

/-- What follows the identifier. -/
def spell : Body dialect tag → Bytes
  | .set part => spellPosition part
  | .shape elements => elements.spell Element.spell
  | .objectShape ephemeral object elements =>
    ephemeral :: (spellPosition object ++ elements.spell SourcedElement.spell)
  | .baseScalar => []
  | .derivedScalar base => spellPosition base
  | .scalar info => info.spell
  | .tuple info parts => info.spell ++ parts.spell spellPosition
  | .namedTuple info parts => info.spell ++ parts.spell NamedPart.spell
  | .array info part sizes => info.spell ++ (spellPosition part ++ sizes.spell)
  | .enum info members => info.spell ++ members.spell Block.spell
  | .inputShape elements => elements.spell Element.spell
  | .range info part => info.spell ++ spellPosition part
  | .objectType name schemaDefined => name.spell ++ [schemaDefined]
  | .compound name schemaDefined op components =>
    name.spell ++ schemaDefined :: opByte op :: components.spell spellPosition
  | .multirange info part => info.spell ++ spellPosition part
  | .sqlRecord parts => parts.spell NamedPart.spell

/-- The positions of the ancestors, and the one of the object type of an object shape. -/
def relatives : Body dialect tag → List Position
  | .objectShape _ object _ => [object]
  | .scalar info | .tuple info _ | .namedTuple info _ | .array info _ _ | .enum info _
  | .range info _ | .multirange info _ => info.ancestors
  | .set _ | .shape _ | .baseScalar | .derivedScalar _ | .inputShape _ | .objectType ..
  | .compound .. | .sqlRecord _ => []

/-- The positions of the parts. -/
def parts : Body dialect tag → List Position
  | .set part | .derivedScalar part | .array _ part _ | .range _ part | .multirange _ part =>
    [part]
  | .shape elements | .inputShape elements => elements.items.map Element.part
  | .objectShape _ _ elements => elements.items.map fun e => e.element.part
  | .tuple _ parts | .compound _ _ _ parts => parts.items
  | .namedTuple _ parts | .sqlRecord parts => parts.items.map NamedPart.part
  | .baseScalar | .scalar _ | .enum .. | .objectType .. => []

/-- The positions that stand for types. -/
def references (body : Body dialect tag) : List Position := body.relatives ++ body.parts

/-- The kind of the type. -/
def kind : Body dialect tag → Kind
  | .set _ => .set
  | .shape _ => .object
  | .objectShape .. => .objectShape
  | .baseScalar => .baseScalar
  | .derivedScalar _ | .scalar _ => .scalar
  | .tuple .. => .tuple
  | .namedTuple .. => .namedTuple
  | .array .. => .array
  | .enum .. => .enum
  | .inputShape _ => .inputShape
  | .range .. => .range
  | .objectType .. => .object
  | .compound .. => .compound
  | .multirange .. => .multirange
  | .sqlRecord _ => .sqlRecord

/-- The operator of a compound type. -/
def op? : Body dialect tag → Option CompoundOp
  | .compound _ _ op _ => some op
  | _ => none

end Body

/-! ## The types that nodes stand for -/

section Resolve

variable {dialect : Dialect} {tag : Tag} (type? : Position → Option Descriptor)

def Element.field? (e : Element) : Option (Field Descriptor) :=
  (type? e.part).map fun desc =>
    { Field.named e.name.text desc e.cardinality.required with flags := ⟨e.flags⟩ }

def NamedPart.field? (p : NamedPart) : Option (Field Descriptor) :=
  (type? p.part).map fun desc => .named p.name.text desc true

def Info.about? : Info dialect → Option TypeInfo
  | .bare => some ⟨none, false, []⟩
  | .full name schemaDefined ancestors =>
    (ancestors.items.mapM type?).map fun types => ⟨some name.text, schemaDefined != 0, types⟩

namespace Body

/-- What is said about the type. An object shape has the name of its object type. -/
def about? : Body dialect tag → Option TypeInfo
  | .scalar info | .tuple info _ | .namedTuple info _ | .array info _ _ | .enum info _
  | .range info _ | .multirange info _ => info.about? type?
  | .objectType name schemaDefined | .compound name schemaDefined _ _ =>
    some ⟨some name.text, schemaDefined != 0, []⟩
  | .objectShape _ object _ => (type? object).map fun desc => ⟨desc.name, false, []⟩
  | .set _ | .shape _ | .baseScalar | .derivedScalar _ | .inputShape _ | .sqlRecord _ =>
    some ⟨none, false, []⟩

/-- The parts, in the order in which they are sent. The parts of a tuple are named by their places,
the values of an enumeration are no parts. -/
def fields? : Body dialect tag → Option (List (Field Descriptor))
  | .set part | .derivedScalar part | .array _ part _ | .range _ part | .multirange _ part =>
    (type? part).map fun desc => [.element desc]
  | .shape elements | .inputShape elements => elements.items.mapM (Element.field? type?)
  | .objectShape _ _ elements => elements.items.mapM fun e => e.element.field? type?
  | .baseScalar | .scalar _ | .enum .. | .objectType .. => some []
  | .tuple _ parts =>
    (parts.items.mapM type?).map fun types =>
      types.zipIdx.map fun (desc, i) => .named (toString i) desc true
  | .namedTuple _ parts | .sqlRecord parts => parts.items.mapM (NamedPart.field? type?)
  | .compound _ _ op components =>
    (components.items.mapM type?).map fun types =>
      types.map fun desc => { Field.element desc with union := op == .union }

/-- The type, when there is one at every position in it. -/
def resolve? (id : Uuid) (body : Body dialect tag) : Option Descriptor := do
  let about ← body.about? type?
  let fields ← body.fields? type?
  return {
    kind := body.kind
    id
    fields
    name := about.name
    schemaDefined := about.schemaDefined
    ancestors := about.ancestors
    op := body.op? }

end Body

end Resolve

/-! ## Nodes and streams -/

/-- A node of a stream; a remark is an annotation, which is passed over. -/
inductive Node (dialect : Dialect) where
  | type {tag : Tag} (id : Uuid) (body : Body dialect tag)
  | remark (tag : UInt8) (marked : 0x80 ≤ tag) (id : Uuid) (payload : Block)

namespace Node

variable {dialect : Dialect}

def isType : Node dialect → Bool
  | .type .. => true
  | .remark .. => false

def references : Node dialect → List Position
  | .type _ body => body.references
  | .remark .. => []

/-- The bytes of a node without a length. -/
def spell : Node dialect → Bytes
  | @type _ tag id body => tagByte tag :: (id.toBytes ++ body.spell)
  | .remark tag _ id payload => tag :: (id.toBytes ++ payload.spell)

/-- The bytes that a node is sent as: bare in the first dialect, with a length that covers the node
in the second. -/
def Written : {dialect : Dialect} → Bytes → Node dialect → Prop
  | .v1, bytes, node => bytes = node.spell
  | .v2, bytes, node => bytes = Read.spellBlock node.spell ∧ node.spell.length < UInt32.size

/-- The type that a node stands for; an annotation stands for none. -/
def resolve? (type? : Position → Option Descriptor) : Node dialect → Option (Option Descriptor)
  | .type id body => (body.resolve? type? id).map some
  | .remark .. => some none

end Node

section Streams

variable {dialect : Dialect}

/-- A type, and no annotation, has this place. -/
def IsType (stream : List (Node dialect)) (i : Nat) : Prop :=
  ∃ node, stream[i]? = some node ∧ node.isType = true

/-- Every position in a node is the one of an earlier type. Annotations have positions, too. -/
def RefersBack (stream : List (Node dialect)) : Prop :=
  ∀ (i : Nat) (node : Node dialect), stream[i]? = some node →
    ∀ p ∈ node.references, p.toNat < i ∧ IsType stream p.toNat

/-- The type at a place: its node, with the type at its place for every position in the node. -/
def typeAt? (stream : List (Node dialect)) (i : Nat) : Option Descriptor :=
  match stream[i]? with
  | some (.type id body) =>
    body.resolve? (fun p => if _h : p.toNat < i then typeAt? stream p.toNat else none) id
  | some (.remark ..) => none
  | none => none
termination_by i

/-- The last type of a stream. -/
def IsRoot (stream : List (Node dialect)) (root : Descriptor) : Prop :=
  ∃ i, typeAt? stream i = some root ∧ ∀ j, IsType stream j → j ≤ i

end Streams

/-! ## The types in the places of positions -/

section Items

variable {α β γ δ : Type}

theorem mapM_cons_eq_some {f : α → Option β} {x : α} {xs : List α} {ys : List β} :
    (x :: xs).mapM f = some ys ↔ ∃ z zs, f x = some z ∧ xs.mapM f = some zs ∧ ys = z :: zs := by
  rw [List.mapM_cons]
  constructor
  · intro h
    obtain ⟨z, hz, h⟩ := Option.bind_eq_some_iff.mp h
    obtain ⟨zs, hzs, h⟩ := Option.bind_eq_some_iff.mp h
    exact ⟨z, zs, hz, hzs, (Option.some.inj h).symm⟩
  · rintro ⟨z, zs, hz, hzs, rfl⟩
    rw [hz, hzs]
    rfl

theorem mapM_isSome_iff {f : α → Option β} {xs : List α} :
    (xs.mapM f).isSome ↔ ∀ x ∈ xs, (f x).isSome := by
  induction xs with
  | nil => exact ⟨fun _ => List.forall_mem_nil _, fun _ => rfl⟩
  | cons x xs ih =>
    rw [List.forall_mem_cons, ← ih, Option.isSome_iff_exists]
    constructor
    · rintro ⟨ys, h⟩
      obtain ⟨z, zs, hz, hzs, -⟩ := mapM_cons_eq_some.mp h
      exact ⟨hz ▸ rfl, hzs ▸ rfl⟩
    · rintro ⟨hx, hxs⟩
      obtain ⟨z, hz⟩ := Option.isSome_iff_exists.mp hx
      obtain ⟨zs, hzs⟩ := Option.isSome_iff_exists.mp hxs
      exact ⟨_, mapM_cons_eq_some.mpr ⟨z, zs, hz, hzs, rfl⟩⟩

theorem length_of_mapM {f : α → Option β} {xs : List α} {ys : List β}
    (h : xs.mapM f = some ys) : ys.length = xs.length := by
  induction xs generalizing ys with
  | nil =>
    obtain rfl := Option.some.inj h
    rfl
  | cons x xs ih =>
    obtain ⟨z, zs, -, hzs, rfl⟩ := mapM_cons_eq_some.mp h
    rw [List.length_cons, List.length_cons, ih hzs]

theorem exists_of_mem_mapM {f : α → Option β} {xs : List α} {ys : List β}
    (h : xs.mapM f = some ys) : ∀ y ∈ ys, ∃ x ∈ xs, f x = some y := by
  induction xs generalizing ys with
  | nil =>
    obtain rfl := Option.some.inj h
    exact List.forall_mem_nil _
  | cons x xs ih =>
    obtain ⟨z, zs, hz, hzs, rfl⟩ := mapM_cons_eq_some.mp h
    intro y hy
    rcases List.mem_cons.mp hy with rfl | hy
    · exact ⟨x, List.mem_cons_self, hz⟩
    · obtain ⟨x', hx', hy⟩ := ih hzs y hy
      exact ⟨x', List.mem_cons_of_mem _ hx', hy⟩

/-- Results that are looked at through `g` are the results for items that are looked at
through `k`. -/
theorem map_mapM {f : α → Option β} {g : β → γ} {k : α → δ} {f' : δ → Option γ}
    (h : ∀ x, (f x).map g = f' (k x)) (xs : List α) :
    (xs.mapM f).map (List.map g) = (xs.map k).mapM f' := by
  induction xs with
  | nil => rfl
  | cons x xs ih =>
    rw [List.map_cons, List.mapM_cons, List.mapM_cons, ← h x, ← ih]
    cases f x with
    | none => rfl
    | some z =>
      cases xs.mapM f with
      | none => rfl
      | some zs => rfl

end Items

section Resolve

variable {dialect : Dialect} {tag : Tag} {type? : Position → Option Descriptor}

theorem Info.about?_isSome_iff (info : Info dialect) :
    (info.about? type?).isSome ↔ ∀ p ∈ info.ancestors, (type? p).isSome := by
  cases info with
  | bare => exact ⟨fun _ => List.forall_mem_nil _, fun _ => rfl⟩
  | full name schemaDefined ancestors =>
    rw [Info.about?, Option.isSome_map]
    exact mapM_isSome_iff

theorem Element.map_field? (e : Element) :
    (e.field? type?).map Field.desc = type? e.part := by
  rw [Element.field?, Option.map_map]
  exact Option.map_id'

theorem NamedPart.map_field? (p : NamedPart) :
    (p.field? type?).map Field.desc = type? p.part := by
  rw [NamedPart.field?, Option.map_map]
  exact Option.map_id'

namespace Body

theorem about?_isSome_iff (body : Body dialect tag) :
    (body.about? type?).isSome ↔ ∀ p ∈ body.relatives, (type? p).isSome := by
  cases body with
  | scalar info | tuple info | namedTuple info | array info | enum info | range info
  | multirange info => exact info.about?_isSome_iff
  | objectShape ephemeral object elements =>
    rw [about?, relatives, Option.isSome_map, List.forall_mem_singleton]
  | set | shape | baseScalar | derivedScalar | inputShape | objectType | compound | sqlRecord =>
    exact ⟨fun _ => List.forall_mem_nil _, fun _ => rfl⟩

/-- The types of the parts are the types at the positions of the parts, in their order. -/
theorem map_fields? (body : Body dialect tag) :
    (body.fields? type?).map (List.map Field.desc) = body.parts.mapM type? := by
  cases body with
  | set part | derivedScalar part | array _ part | range _ part | multirange _ part =>
    rw [fields?, parts, Option.map_map, List.mapM_cons]
    cases type? part with
    | none => rfl
    | some desc => rfl
  | shape elements | inputShape elements => exact map_mapM Element.map_field? _
  | objectShape _ _ elements => exact map_mapM (fun e => e.element.map_field?) _
  | namedTuple _ parts | sqlRecord parts => exact map_mapM NamedPart.map_field? _
  | baseScalar | scalar | enum | objectType => rfl
  | tuple _ parts =>
    rw [fields?, Body.parts, Option.map_map]
    refine (Option.map_congr fun types _ => ?_).trans Option.map_id'
    rw [Function.comp_apply, List.map_map]
    exact List.zipIdx_map_fst 0 types
  | compound _ _ _ components =>
    rw [fields?, Body.parts, Option.map_map]
    refine (Option.map_congr fun types _ => ?_).trans Option.map_id'
    rw [Function.comp_apply, List.map_map]
    exact List.map_id types

theorem fields?_isSome_iff (body : Body dialect tag) :
    (body.fields? type?).isSome ↔ ∀ p ∈ body.parts, (type? p).isSome := by
  rw [← mapM_isSome_iff, ← map_fields?, Option.isSome_map]

/-- A node stands for a type exactly if there is a type at every position in it. -/
theorem resolve?_isSome_iff (id : Uuid) (body : Body dialect tag) :
    (body.resolve? type? id).isSome ↔ ∀ p ∈ body.references, (type? p).isSome := by
  rw [references, List.forall_mem_append, ← about?_isSome_iff, ← fields?_isSome_iff, resolve?]
  cases body.about? type? with
  | none => simp
  | some about =>
    cases body.fields? type? with
    | none => simp
    | some fields => simp

/-- Two bytes count the parts of a type. -/
theorem length_parts (body : Body dialect tag) : body.parts.length < UInt16.size := by
  cases body with
  | set | derivedScalar | array | range | multirange =>
    show 1 < UInt16.size
    decide
  | baseScalar | scalar | enum | objectType =>
    show 0 < UInt16.size
    decide
  | shape elements | inputShape elements | objectShape _ _ elements =>
    rw [parts, List.length_map]
    exact elements.fits
  | tuple _ parts | compound _ _ _ parts => exact parts.fits
  | namedTuple _ parts | sqlRecord parts =>
    rw [Body.parts, List.length_map]
    exact parts.fits

theorem mapM_parts {id : Uuid} {body : Body dialect tag} {d : Descriptor}
    (h : body.resolve? type? id = some d) :
    body.parts.mapM type? = some (d.fields.map Field.desc) := by
  obtain ⟨about, -, h⟩ := Option.bind_eq_some_iff.mp h
  obtain ⟨fields, hfields, h⟩ := Option.bind_eq_some_iff.mp h
  obtain rfl := Option.some.inj h
  rw [← map_fields?, hfields]
  rfl

end Body

end Resolve

/-! ## The types of a stream -/

section Streams

variable {dialect : Dialect} {stream before rest : List (Node dialect)} {node : Node dialect}

theorem typeAt?_of_le {i : Nat} (h : stream.length ≤ i) : typeAt? stream i = none := by
  rw [typeAt?, List.getElem?_eq_none h]

/-- What follows does not change the type at a place. -/
theorem typeAt?_append_left (i : Nat) (h : i < before.length) :
    typeAt? (before ++ rest) i = typeAt? before i := by
  induction i using Nat.strongRecOn with
  | ind i ih =>
    -- the positions in the node are those of earlier nodes, where the hypothesis applies
    have hearlier : (fun p : Position => if _h : p.toNat < i then
          typeAt? (before ++ rest) p.toNat else none) =
        fun p => if _h : p.toNat < i then typeAt? before p.toNat else none := by
      funext p
      split
      · rename_i hp
        exact ih _ hp (by omega)
      · rfl
    rw [typeAt?, typeAt?, List.getElem?_append_left h, hearlier]

/-- The type at the last place is the one that the last node stands for. -/
theorem typeAt?_length :
    typeAt? (before ++ node :: rest) before.length =
      (node.resolve? fun p => typeAt? before p.toNat).join := by
  -- at the last place every node before is an earlier one
  have hearlier : (fun p : Position => if _h : p.toNat < before.length then
        typeAt? (before ++ node :: rest) p.toNat else none) =
      fun p => typeAt? before p.toNat := by
    funext p
    split
    · rename_i hp
      exact typeAt?_append_left _ hp
    · rename_i hp
      exact (typeAt?_of_le (by omega)).symm
  rw [typeAt?, List.getElem?_append_right (Nat.le_refl _), Nat.sub_self, List.getElem?_cons_zero,
    hearlier]
  cases node with
  | remark tag marked id payload => rfl
  | type id body =>
    show body.resolve? _ id = ((body.resolve? _ id).map some).join
    cases body.resolve? _ id with
    | none => rfl
    | some d => rfl

theorem IsType.lt {i : Nat} (h : IsType stream i) : i < stream.length := by
  obtain ⟨node, hnode, -⟩ := h
  exact (List.getElem?_eq_some_iff.mp hnode).1

theorem isType_append_left {i : Nat} (h : i < before.length) :
    IsType (before ++ rest) i ↔ IsType before i := by
  rw [IsType, IsType, List.getElem?_append_left h]

theorem isType_of_typeAt? {i : Nat} {d : Descriptor} (h : typeAt? stream i = some d) :
    IsType stream i := by
  rw [typeAt?] at h
  split at h
  · rename_i id body hnode
    exact ⟨_, hnode, rfl⟩
  · cases h
  · cases h

/-- Where every position is the one of an earlier type, every type node stands for a type. -/
theorem RefersBack.typeAt?_isSome (h : RefersBack stream) (i : Nat) (hi : IsType stream i) :
    (typeAt? stream i).isSome := by
  induction i using Nat.strongRecOn with
  | ind i ih =>
    obtain ⟨node, hnode, htype⟩ := hi
    cases node with
    | remark => cases htype
    | type id body =>
      rw [typeAt?, hnode]
      refine (body.resolve?_isSome_iff id).mpr fun p hp => ?_
      obtain ⟨hlt, hp⟩ := h i _ hnode p hp
      rw [dif_pos hlt]
      exact ih _ hlt hp

theorem RefersBack.of_append (h : RefersBack (before ++ rest)) : RefersBack before := by
  intro i node hnode p hp
  obtain ⟨hi, -⟩ := List.getElem?_eq_some_iff.mp hnode
  obtain ⟨hlt, htype⟩ := h i node (by rw [List.getElem?_append_left hi, hnode]) p hp
  exact ⟨hlt, (isType_append_left (by omega)).mp htype⟩

theorem refersBack_snoc_iff : RefersBack (before ++ [node]) ↔
    RefersBack before ∧ ∀ p ∈ node.references, IsType before p.toNat := by
  have hlast : (before ++ [node])[before.length]? = some node := by
    rw [List.getElem?_append_right (Nat.le_refl _), Nat.sub_self, List.getElem?_cons_zero]
  constructor
  · intro h
    refine ⟨h.of_append, fun p hp => ?_⟩
    obtain ⟨hlt, htype⟩ := h _ node hlast p hp
    exact (isType_append_left hlt).mp htype
  · rintro ⟨h, hnode⟩ i node' hi p hp
    by_cases hlt : i < before.length
    · rw [List.getElem?_append_left hlt] at hi
      obtain ⟨hpi, htype⟩ := h i node' hi p hp
      exact ⟨hpi, (isType_append_left (by omega)).mpr htype⟩
    · -- the node at the last place is the new one
      obtain ⟨hlen, -⟩ := List.getElem?_eq_some_iff.mp hi
      rw [List.length_append, List.length_singleton] at hlen
      obtain rfl : i = before.length := by omega
      obtain rfl := Option.some.inj (hlast.symm.trans hi)
      have htype := hnode p hp
      exact ⟨htype.lt, (isType_append_left htype.lt).mpr htype⟩

theorem Node.resolve?_isSome_iff {type? : Position → Option Descriptor} :
    (node.resolve? type?).isSome ↔ ∀ p ∈ node.references, (type? p).isSome := by
  cases node with
  | type id body =>
    rw [Node.resolve?, Option.isSome_map]
    exact body.resolve?_isSome_iff id
  | remark => exact ⟨fun _ => List.forall_mem_nil _, fun _ => rfl⟩

/-! ### The types as a list -/

/-- The type at every place, with nothing at the places of annotations. -/
def types (stream : List (Node dialect)) : Nodes :=
  (List.range stream.length).map (typeAt? stream)

/-- The type at a position among some nodes. -/
def typeIn (seen : Nodes) (p : Position) : Option Descriptor :=
  seen[p.toNat]?.join

theorem join_types (i : Nat) : (types stream)[i]?.join = typeAt? stream i := by
  rw [types, List.getElem?_map]
  by_cases hlt : i < stream.length
  · rw [List.getElem?_range hlt]
    rfl
  · rw [List.getElem?_eq_none (by rw [List.length_range]; omega), typeAt?_of_le (by omega)]
    rfl

theorem typeIn_types : typeIn (types stream) = fun p => typeAt? stream p.toNat :=
  funext fun p => join_types p.toNat

/-- After one more node there is one more type, or nothing for an annotation. -/
theorem types_snoc {found : Option Descriptor}
    (h : node.resolve? (typeIn (types before)) = some found) :
    types (before ++ [node]) = types before ++ [found] := by
  rw [typeIn_types] at h
  have hbefore : (List.range before.length).map (typeAt? (before ++ [node])) = types before :=
    List.map_congr_left fun i hi => typeAt?_append_left i (List.mem_range.mp hi)
  rw [types, List.length_append, List.length_singleton, List.range_succ, List.map_append, hbefore,
    List.map_singleton, typeAt?_length, h]
  rfl

/-- A node can follow exactly if it stands for a type or is an annotation. -/
theorem RefersBack.snoc_iff (h : RefersBack before) :
    RefersBack (before ++ [node]) ↔ (node.resolve? (typeIn (types before))).isSome := by
  rw [refersBack_snoc_iff, Node.resolve?_isSome_iff, typeIn_types]
  constructor
  · rintro ⟨-, hnode⟩ p hp
    exact h.typeAt?_isSome _ (hnode p hp)
  · intro hnode
    refine ⟨h, fun p hp => ?_⟩
    obtain ⟨d, hd⟩ := Option.isSome_iff_exists.mp (hnode p hp)
    exact isType_of_typeAt? hd

/-- The root is the last type among some nodes. -/
theorem root?_eq_some_iff {found : Nodes} {root : Descriptor} :
    Stream.root? found = some root ↔
      ∃ i : Nat, found[i]?.join = some root ∧ ∀ j, i < j → found[j]?.join = none := by
  rw [Stream.root?, List.getLast?_filterMap, List.findSome?_eq_some_iff]
  constructor
  · rintro ⟨later, last, earlier, hsplit, hlast, hlater⟩
    -- seen from the end the root is the first type
    obtain rfl : last = some root := hlast
    have hfound : found = earlier.reverse ++ some root :: later.reverse := by
      rw [← List.reverse_reverse found, hsplit, List.reverse_append, List.reverse_cons,
        List.append_assoc, List.singleton_append]
    refine ⟨earlier.reverse.length, ?_, fun j hj => ?_⟩
    · rw [hfound, List.getElem?_append_right (Nat.le_refl _), Nat.sub_self,
        List.getElem?_cons_zero]
      rfl
    · obtain ⟨k, rfl⟩ := Nat.exists_eq_add_of_lt hj
      rw [hfound, List.getElem?_append_right (by omega), Nat.add_assoc, Nat.add_sub_cancel_left,
        List.getElem?_cons_succ]
      cases hk : later.reverse[k]? with
      | none => rfl
      | some x => exact hlater x (List.mem_reverse.mp (List.mem_of_getElem? hk))
  · rintro ⟨i, hi, hlater⟩
    obtain ⟨hlt, hroot⟩ := List.getElem?_eq_some_iff.mp (Option.join_eq_some_iff.mp hi)
    have hsplit : found.take i ++ some root :: found.drop (i + 1) = found := by
      rw [← hroot, ← List.drop_eq_getElem_cons hlt, List.take_append_drop]
    refine ⟨(found.drop (i + 1)).reverse, some root, (found.take i).reverse, ?_, rfl, ?_⟩
    · calc found.reverse
          = (found.take i ++ some root :: found.drop (i + 1)).reverse := by rw [hsplit]
        _ = (found.drop (i + 1)).reverse ++ some root :: (found.take i).reverse := by
            rw [List.reverse_append, List.reverse_cons, List.append_assoc,
              List.singleton_append]
    · intro x hx
      obtain ⟨k, hk⟩ := List.getElem?_of_mem (List.mem_reverse.mp hx)
      rw [List.getElem?_drop] at hk
      have hnone := hlater (i + 1 + k) (by omega)
      rwa [hk] at hnone

theorem root?_types_iff (h : RefersBack stream) {root : Descriptor} :
    Stream.root? (types stream) = some root ↔ IsRoot stream root := by
  rw [root?_eq_some_iff, IsRoot]
  refine exists_congr fun i => ?_
  rw [join_types]
  refine and_congr_right fun _ => ?_
  constructor
  · intro hlater j hj
    refine Nat.le_of_not_lt fun hlt => ?_
    have hsome := h.typeAt?_isSome j hj
    rw [← join_types, hlater j hlt] at hsome
    cases hsome
  · intro hlast j hlt
    rw [join_types, Option.eq_none_iff_forall_ne_some]
    intro d hd
    exact absurd (hlast j (isType_of_typeAt? hd)) (Nat.not_le_of_lt hlt)

theorem isType_of_isRoot {root : Descriptor} (h : IsRoot stream root) : ∃ i, IsType stream i := by
  obtain ⟨i, hi, -⟩ := h
  exact ⟨i, isType_of_typeAt? hi⟩

/-- Where there is a type, there is a last one. -/
theorem RefersBack.exists_root (h : RefersBack stream) {i : Nat} (hi : IsType stream i) :
    ∃ root, IsRoot stream root := by
  obtain ⟨d, hd⟩ := Option.isSome_iff_exists.mp (h.typeAt?_isSome i hi)
  rw [← join_types, Option.join_eq_some_iff] at hd
  have hmem : d ∈ (types stream).filterMap id :=
    List.mem_filterMap.mpr ⟨some d, List.mem_of_getElem? hd, rfl⟩
  have hroot := List.getLast?_eq_some_getLast (List.ne_nil_of_mem hmem)
  exact ⟨_, (root?_types_iff h).mp hroot⟩

end Streams

end TypedWire.Grammar
