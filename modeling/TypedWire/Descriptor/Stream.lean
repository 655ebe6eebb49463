import TypedWire.Descriptor.Dialect
import TypedWire.Descriptor.Error
import TypedWire.Wire.Reader

/-!
# Descriptor streams

A stream is a list of nodes. A node names its parts by the positions of earlier nodes, so that one
pass builds the tree; the last type is the root. Annotations have a position but are no types.

- `Nodes`: what was read so far, with nothing in the places of annotations.
- `Naming`: which names and ancestors stand before the parts of a node, by dialect and tag.
- `Stream.node`: one node; `Stream.parts`: its parts.
- `Descriptor.parse`: the root of a stream; no bytes are the empty tuple.
-/

namespace TypedWire

/-- The nodes read so far; nothing stands for an annotation. -/
abbrev Nodes := List (Option Descriptor)

/-- A wire read as a part of a descriptor read. -/
instance : MonadLift (Read DecodeError) (Read ParseError) where
  monadLift p := p.mapError .malformed

/-- What a node says about its name and its ancestors. -/
inductive Naming where
  | nothing
  | name
  | nameAndAncestors

/-- The naming of a tag's nodes. -/
def Tag.naming (dialect : Dialect) : Tag → Naming
  | .set | .shape | .baseScalar | .inputShape | .sqlRecord => .nothing
  | .objectType | .compound => .name
  | .scalar | .tuple | .namedTuple | .array | .enum | .range | .multirange =>
    match dialect with
    | .v1 => .nothing
    | .v2 => .nameAndAncestors

/-- The names and ancestors of a node. -/
structure TypeInfo where
  name : Option String
  schemaDefined : Bool
  ancestors : List Descriptor

/-- What a node's own fields say about it. -/
structure Parts where
  fields : List (Field Descriptor)
  /-- The name of the object type whose shape the node is. -/
  objectName : Option String
  op : Option CompoundOp

namespace Stream

/-- The type at an earlier position. -/
def reference (seen : Nodes) : Read ParseError Descriptor := do
  let index ← Read.uint16
  match seen[index.toNat]? with
  | some (some d) => pure d
  | _ => throw (.invalidReference index seen.length)

/-- A count of two bytes and then that many items. -/
def counted {α : Type} (item : Read ParseError α) : Read ParseError (List α) := do
  let count ← Read.uint16
  Read.times count.toNat item

/-- One field of a shape. The type that a field of an object shape comes from is not kept. -/
def shapeField (seen : Nodes) (hasSource : Bool) : Read ParseError (Field Descriptor) := do
  let flags ← Read.uint32
  let card ← Read.uint8
  match Cardinality.required? card with
  | none => throw (.invalidCardinality card)
  | some required =>
    let name ← Read.text
    let desc ← reference seen
    if hasSource then
      let _ ← Read.uint16
    return { Field.named name desc required with flags := ⟨flags⟩ }

/-- One part with a name. -/
def namedField (seen : Nodes) : Read ParseError (Field Descriptor) := do
  let name ← Read.text
  let desc ← reference seen
  return .named name desc true

/-- The only part of a type. -/
def onlyField (seen : Nodes) : Read ParseError (List (Field Descriptor)) := do
  let desc ← reference seen
  return [.element desc]

/-- The parts of a tuple, named by their positions. -/
def tupleFields (seen : Nodes) : Read ParseError (List (Field Descriptor)) := do
  let parts ← counted (reference seen)
  return parts.zipIdx.map fun (desc, i) => .named (toString i) desc true

/-- The element of an array, and its dimensions, which are not kept. -/
def arrayFields (seen : Nodes) : Read ParseError (List (Field Descriptor)) := do
  let desc ← reference seen
  let dimensions ← Read.uint16
  if dimensions = 0 then throw (.invalidDimensions dimensions)
  Read.skip (4 * dimensions.toNat)
  return [.element desc]

/-- The operator of a compound type. -/
def compoundOp : Read ParseError CompoundOp := do
  let byte ← Read.uint8
  if byte = 1 then return .union
  else if byte = 2 then return .intersection
  else throw (.invalidCompoundOp byte)

/-- The operator of a compound type and its components. -/
def compoundParts (seen : Nodes) : Read ParseError Parts := do
  let op ← compoundOp
  let components ← counted (reference seen)
  let fields := components.map fun desc => { Field.element desc with union := op == .union }
  return ⟨fields, none, some op⟩

/-- Parts without more. -/
def ofFields (fields : List (Field Descriptor)) : Parts := ⟨fields, none, none⟩

/-- The parts of a node. The values of an enumeration are passed over: they travel as texts. -/
def parts (dialect : Dialect) (seen : Nodes) : Tag → Read ParseError Parts
  | .set | .range | .multirange => ofFields <$> onlyField seen
  | .scalar =>
    match dialect with
    | .v1 => ofFields <$> onlyField seen
    | .v2 => pure (ofFields [])
  | .baseScalar | .objectType => pure (ofFields [])
  | .shape =>
    match dialect with
    | .v1 => ofFields <$> counted (shapeField seen false)
    | .v2 => do
      let _ ← Read.uint8
      let object ← reference seen
      let fields ← counted (shapeField seen true)
      return ⟨fields, object.name, none⟩
  | .inputShape => ofFields <$> counted (shapeField seen false)
  | .tuple => ofFields <$> tupleFields seen
  | .namedTuple | .sqlRecord => ofFields <$> counted (namedField seen)
  | .array => ofFields <$> arrayFields seen
  | .enum => do
    let _ ← counted (liftM Read.block)
    return ofFields []
  | .compound => compoundParts seen

/-- The names and ancestors of a node. -/
def typeInfo (seen : Nodes) : Naming → Read ParseError TypeInfo
  | .nothing => pure ⟨none, false, []⟩
  | .name => do
    let name ← Read.text
    let schemaDefined ← Read.uint8
    return ⟨some name, schemaDefined != 0, []⟩
  | .nameAndAncestors => do
    let name ← Read.text
    let schemaDefined ← Read.uint8
    let ancestors ← counted (reference seen)
    return ⟨some name, schemaDefined != 0, ancestors⟩

/-- A type after its tag and identifier. -/
def type (dialect : Dialect) (seen : Nodes) (tag : Tag) (id : Uuid) :
    Read ParseError Descriptor := do
  let info ← typeInfo seen (tag.naming dialect)
  let parts ← parts dialect seen tag
  return {
    kind := tag.kind dialect
    id
    fields := parts.fields
    name := info.name.or parts.objectName
    schemaDefined := info.schemaDefined
    ancestors := info.ancestors
    op := parts.op }

/-- A node after its tag. -/
def body (dialect : Dialect) (seen : Nodes) (tag : UInt8) :
    Read ParseError (Option Descriptor) := do
  let id ← Read.uuid
  if isAnnotationTag tag then
    let _ ← Read.block
    return none
  else
    match Tag.ofByte? dialect tag with
    | some tag => some <$> type dialect seen tag id
    | none => throw (.unknownTag tag)

/-- A node: a type, or nothing for an annotation. -/
def node (dialect : Dialect) (seen : Nodes) : Read ParseError (Option Descriptor) := do
  let tag ← Read.uint8
  body dialect seen tag

/-- A node that is sent with its length and has to fill it. -/
def framedNode (dialect : Dialect) (seen : Nodes) : Read ParseError (Option Descriptor) := do
  let length ← Read.uint32
  let bytes ← Read.take length.toNat
  Read.inside bytes do
    let found ← node dialect seen
    Read.finish
    return found

/-- The next node as the dialect sends it. -/
def next : Dialect → Nodes → Read ParseError (Option Descriptor)
  | .v1 => node .v1
  | .v2 => framedNode .v2

/-! ## A node takes bytes -/

open Read (TakesFront)

theorem takesFront_lift {α : Type} {p : Read DecodeError α} (hp : TakesFront p) :
    TakesFront (liftM p : Read ParseError α) :=
  hp.mapError _

theorem takesFront_reference (seen : Nodes) : TakesFront (reference seen) := by
  refine (takesFront_lift .uint16).bind fun index => ?_
  split
  · exact .pure _
  · exact .throw _

theorem takesFront_counted {α : Type} {item : Read ParseError α} (h : TakesFront item) :
    TakesFront (counted item) :=
  (takesFront_lift .uint16).bind fun count => h.times count.toNat

theorem takesFront_shapeField (seen : Nodes) (hasSource : Bool) :
    TakesFront (shapeField seen hasSource) := by
  refine (takesFront_lift .uint32).bind fun flags => (takesFront_lift .uint8).bind fun card => ?_
  split
  · exact .throw _
  · refine (takesFront_lift .text).bind fun name => (takesFront_reference seen).bind fun desc => ?_
    split
    · exact (takesFront_lift .uint16).bind fun _ => .pure _
    · exact .pure _

theorem takesFront_namedField (seen : Nodes) : TakesFront (namedField seen) :=
  (takesFront_lift .text).bind fun _ => (takesFront_reference seen).bind fun _ => .pure _

theorem takesFront_arrayFields (seen : Nodes) : TakesFront (arrayFields seen) := by
  refine (takesFront_reference seen).bind fun desc =>
    (takesFront_lift .uint16).bind fun dimensions => ?_
  split
  · exact TakesFront.bind (.throw _) fun _ => (takesFront_lift (.skip _)).bind fun _ => .pure _
  · exact (takesFront_lift (.skip _)).bind fun _ => .pure _

theorem takesFront_compoundOp : TakesFront compoundOp := by
  refine (takesFront_lift .uint8).bind fun byte => ?_
  split
  · exact .pure _
  · split
    · exact .pure _
    · exact .throw _

theorem takesFront_parts (dialect : Dialect) (seen : Nodes) (tag : Tag) :
    TakesFront (parts dialect seen tag) := by
  have hreference := takesFront_reference seen
  have honly : TakesFront (onlyField seen) := hreference.bind fun _ => .pure _
  have hshape := fun hasSource => takesFront_counted (takesFront_shapeField seen hasSource)
  have hnamed := takesFront_counted (takesFront_namedField seen)
  cases tag with
  | set | range | multirange => exact honly.map _
  | scalar =>
    cases dialect with
    | v1 => exact honly.map _
    | v2 => exact .pure _
  | baseScalar | objectType => exact .pure _
  | shape =>
    cases dialect with
    | v1 => exact (hshape false).map _
    | v2 =>
      exact (takesFront_lift .uint8).bind fun _ => hreference.bind fun _ =>
        (hshape true).bind fun _ => .pure _
  | inputShape => exact (hshape false).map _
  | tuple =>
    exact ((takesFront_counted hreference).bind fun _ => TakesFront.pure _).map _
  | namedTuple | sqlRecord => exact hnamed.map _
  | array => exact (takesFront_arrayFields seen).map _
  | enum => exact (takesFront_counted (takesFront_lift .block)).bind fun _ => .pure _
  | compound =>
    exact takesFront_compoundOp.bind fun _ => (takesFront_counted hreference).bind fun _ =>
      .pure _

theorem takesFront_typeInfo (seen : Nodes) (naming : Naming) :
    TakesFront (typeInfo seen naming) := by
  cases naming with
  | nothing => exact .pure _
  | name =>
    exact (takesFront_lift .text).bind fun _ => (takesFront_lift .uint8).bind fun _ => .pure _
  | nameAndAncestors =>
    exact (takesFront_lift .text).bind fun _ => (takesFront_lift .uint8).bind fun _ =>
      (takesFront_counted (takesFront_reference seen)).bind fun _ => .pure _

theorem takesFront_body (dialect : Dialect) (seen : Nodes) (tag : UInt8) :
    TakesFront (body dialect seen tag) := by
  refine (takesFront_lift .uuid).bind fun id => ?_
  split
  · exact (takesFront_lift .block).bind fun _ => .pure _
  · split
    · rename_i tag _
      have htype : TakesFront (type dialect seen tag id) :=
        (takesFront_typeInfo seen _).bind fun _ =>
          (takesFront_parts dialect seen tag).bind fun _ => .pure _
      exact htype.map _
    · exact .throw _

/-- What is left after a node is shorter. -/
theorem next_shrinks {dialect : Dialect} {seen : Nodes} {bs left : Bytes}
    {found : Option Descriptor} (h : next dialect seen bs = .ok (found, left)) :
    left.length < bs.length := by
  cases dialect with
  | v1 =>
    obtain ⟨tag, mid, htag, hbody⟩ := Read.bind_eq_ok h
    have hmid := Read.length_uint8 (Read.mapError_eq_ok htag)
    have hleft := ((takesFront_body .v1 seen tag).suffix hbody).length_le
    omega
  | v2 =>
    obtain ⟨length, mid, hlength, hrest⟩ := Read.bind_eq_ok h
    have hmid := Read.length_uint32 (Read.mapError_eq_ok hlength)
    obtain ⟨bytes, after, htake, hnode⟩ := Read.bind_eq_ok hrest
    have hafter := Read.length_take (Read.mapError_eq_ok htake)
    have hleft := ((TakesFront.inside bytes _).suffix hnode).length_le
    omega

/-! ## Whole streams -/

/-- All nodes of a stream, after those already seen. -/
def nodes (dialect : Dialect) (seen : Nodes) (bs : Bytes) : Except ParseError Nodes :=
  if bs.isEmpty then .ok seen
  else
    match _h : next dialect seen bs with
    | .error e => .error e
    | .ok (found, left) => nodes dialect (seen ++ [found]) left
termination_by bs.length
decreasing_by exact next_shrinks _h

/-- The last type among some nodes. -/
def root? (found : Nodes) : Option Descriptor :=
  (found.filterMap id).getLast?

end Stream

/-- The type that a stream describes. -/
def Descriptor.parse (dialect : Dialect) (bs : Bytes) : Except ParseError Descriptor :=
  if bs.isEmpty then .ok .emptyTuple
  else do
    let found ← Stream.nodes dialect [] bs
    match Stream.root? found with
    | some d => return d
    | none => throw .missingRoot

end TypedWire
