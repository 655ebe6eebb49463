import TypedWire.Value

/-!
# Shapes

A shape says what values a caller wants a type to be decoded into.

- `Member`: a member of a record shape, with the name that it has on the wire.
- `Shape`: a shape; `Shape.text` is its description.
- `Shape.default`: what fresh storage of a shape holds.
- `Member.resolve?`: the slot of a record that takes a field of the wire. A record's own members
  come before those of its embedded records, and these in the order of the members.
- `Shape.same_iff`: shapes can be told apart.
-/

namespace TypedWire

/-- A member of a record shape. An embedded record stands for its own members. -/
structure Member (σ : Type) where
  name : String
  /-- The name on the wire, if it is another. -/
  wireAlias : Option String
  shape : σ
  embedded : Bool

/-- The name of a member on the wire. -/
def Member.wireName {σ : Type} (m : Member σ) : String := m.wireAlias.getD m.name

/-- What values a type is to be decoded into. -/
inductive Shape where
  | scalar (type : ScalarType)
  /-- May be absent. -/
  | optional (inner : Shape)
  | array (element : Shape)
  | set (element : Shape)
  | tuple (items : List Shape)
  | record (name : String) (members : List (Member Shape))
  | range (element : Shape)
  | multirange (element : Shape)

namespace Shape

/-- Whether a value may be absent. -/
def isOptional : Shape → Bool
  | .optional _ => true
  | _ => false

/-- The shape of a present value. -/
def required : Shape → Shape
  | .optional inner => inner
  | shape => shape

mutual

/-- The description of a shape. -/
def text : Shape → String
  | .scalar type => type.name
  | .optional inner => "optional<" ++ inner.text ++ ">"
  | .array element => "array<" ++ element.text ++ ">"
  | .set element => "set<" ++ element.text ++ ">"
  | .tuple items => "tuple<" ++ ", ".intercalate (texts items) ++ ">"
  | .record name _ => "record " ++ name
  | .range element => "range<" ++ element.text ++ ">"
  | .multirange element => "multirange<" ++ element.text ++ ">"

/-- The descriptions of some shapes. -/
def texts : List Shape → List String
  | [] => []
  | shape :: shapes => shape.text :: texts shapes

end

/-! ## Fresh storage -/

mutual

/-- What fresh storage of a shape holds. -/
def default : Shape → Value
  | .scalar type => .scalar type.zero
  | .optional _ => .null
  | .array _ => .array []
  | .set _ => .set []
  | .tuple items => .tuple (defaults items)
  | .record _ members => .record (defaultRecord members)
  | .range _ => .range .nothing
  | .multirange _ => .multirange []

/-- What fresh storage of some shapes holds. -/
def defaults : List Shape → List Value
  | [] => []
  | shape :: shapes => shape.default :: defaults shapes

/-- The slots of a fresh record. -/
def defaultRecord : List (Member Shape) → Record
  | [] => []
  | ⟨_, _, shape, _⟩ :: members => shape.default :: defaultRecord members

end

/-! ## Resolving names -/

/-- The position and the shape of the first own member with a name, counting from `i`. -/
def ownMember? (wireName : String) : Nat → List (Member Shape) → Option (StoragePath × Shape)
  | _, [] => none
  | i, m :: members =>
    if !m.embedded ∧ m.wireName = wireName then some ([i], m.shape)
    else ownMember? wireName (i + 1) members

mutual

/-- The slot inside an embedded record. -/
def embeddedSlot? (wireName : String) (i : Nat) : Shape → Option (StoragePath × Shape)
  | .record _ members =>
    ((ownMember? wireName 0 members).or (firstEmbedded? wireName 0 members)).map
      fun (path, shape) => (i :: path, shape)
  | _ => none

/-- The slot inside the first embedded record that has one, counting from `i`. -/
def firstEmbedded? (wireName : String) : Nat → List (Member Shape) → Option (StoragePath × Shape)
  | _, [] => none
  | i, ⟨_, _, shape, embedded⟩ :: members =>
    (if embedded then embeddedSlot? wireName i shape else none).or
      (firstEmbedded? wireName (i + 1) members)

end

/-- The path to the slot that takes a field of the wire, and the slot's shape. -/
def resolve? (members : List (Member Shape)) (wireName : String) : Option (StoragePath × Shape) :=
  (ownMember? wireName 0 members).or (firstEmbedded? wireName 0 members)

/-! ## Telling shapes apart -/

mutual

/-- Whether two shapes are the same. -/
def same : Shape → Shape → Bool
  | .scalar a, .scalar b => a = b
  | .optional a, .optional b => same a b
  | .array a, .array b => same a b
  | .set a, .set b => same a b
  | .tuple as, .tuple bs => sameItems as bs
  | .record n as, .record m bs => n = m && sameMembers as bs
  | .range a, .range b => same a b
  | .multirange a, .multirange b => same a b
  | _, _ => false

/-- Whether two lists of shapes are the same. -/
def sameItems : List Shape → List Shape → Bool
  | [], [] => true
  | a :: as, b :: bs => same a b && sameItems as bs
  | _, _ => false

/-- Whether two lists of members are the same. -/
def sameMembers : List (Member Shape) → List (Member Shape) → Bool
  | [], [] => true
  | ⟨n, w, a, e⟩ :: as, ⟨n', w', b, e'⟩ :: bs =>
    n = n' && w = w' && same a b && e = e' && sameMembers as bs
  | _, _ => false

end

mutual

/-- Shapes are the same exactly if they are equal. -/
theorem same_iff : ∀ s t : Shape, same s t = true ↔ s = t
  | .scalar a, t => by cases t <;> simp [same]
  | .optional a, t => by cases t <;> simp [same, same_iff a]
  | .array a, t => by cases t <;> simp [same, same_iff a]
  | .set a, t => by cases t <;> simp [same, same_iff a]
  | .tuple as, t => by cases t <;> simp [same, sameItems_iff as]
  | .record n as, t => by cases t <;> simp [same, sameMembers_iff as]
  | .range a, t => by cases t <;> simp [same, same_iff a]
  | .multirange a, t => by cases t <;> simp [same, same_iff a]

theorem sameItems_iff : ∀ as bs : List Shape, sameItems as bs = true ↔ as = bs
  | [], bs => by cases bs <;> simp [sameItems]
  | a :: as, bs => by cases bs <;> simp [sameItems, same_iff a, sameItems_iff as]

theorem sameMembers_iff : ∀ as bs : List (Member Shape), sameMembers as bs = true ↔ as = bs
  | [], bs => by cases bs <;> simp [sameMembers]
  | ⟨n, w, a, e⟩ :: as, [] => by simp [sameMembers]
  | ⟨n, w, a, e⟩ :: as, ⟨n', w', b, e'⟩ :: bs => by
    simp [sameMembers, same_iff a, sameMembers_iff as, and_assoc]

end

instance : DecidableEq Shape := fun s t => decidable_of_iff _ (same_iff s t)

end Shape

end TypedWire
