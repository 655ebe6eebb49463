import TypedWire.Codec.Basic
import TypedWire.Proofs.Codec.Scalar
import TypedWire.Proofs.Shape.Leaf

/-!
# What the wire says of a value

The wire carries the slots of a record that fields go to, and nothing of the others. It carries
scalars up to what their payloads can say, and of an empty range only that it is empty.

- `Value.All P Q`: all scalars of a value are `P` and all of its ranges `Q`.
- `Record.all_of_leaves`, `Shape.all_default`: records by their leaves, and fresh storage.
- `Codec.Covers codec shape v`: the codec's fields cover `v`: all other leaves hold their defaults.
- `Value.Exact`: the wire can say the scalars and ranges of a value without loss.
-/

namespace TypedWire

/-- A range that is the one that holds nothing if it is empty. -/
def Range.Plain {α : Type} (r : Range α) : Prop := r.empty = true → r = .nothing

/-- All scalars of a value have one property and all of its ranges another, at every depth. -/
inductive Value.All (P : Scalar → Prop) (Q : Range Value → Prop) : Value → Prop
  | null : All P Q .null
  | scalar {s : Scalar} (here : P s) : All P Q (.scalar s)
  | array {items : List Value} (h : ∀ v ∈ items, All P Q v) : All P Q (.array items)
  | set {items : List Value} (h : ∀ v ∈ items, All P Q v) : All P Q (.set items)
  | tuple {items : List Value} (h : ∀ v ∈ items, All P Q v) : All P Q (.tuple items)
  | record {slots : List Value} (h : ∀ v ∈ slots, All P Q v) : All P Q (.record slots)
  | range {r : Range Value} (here : Q r) (h : ∀ v ∈ r.bounds, All P Q v) : All P Q (.range r)
  | multirange {ranges : List (Range Value)} (here : ∀ r ∈ ranges, Q r)
      (h : ∀ r ∈ ranges, ∀ v ∈ r.bounds, All P Q v) : All P Q (.multirange ranges)

/-- The wire can say the scalars and the ranges of a value without loss. -/
def Value.Exact (v : Value) : Prop := v.All Scalar.Exact Range.Plain

/-- The fields of a codec cover a value of the shape: in every record that the codec handles within
it, a leaf that no field goes to holds its default. -/
inductive Codec.Covers : Codec → Shape → Value → Prop
  | scalar {id : Uuid} {type : ScalarType} {shape : Shape} {v : Value} :
      Covers (.scalar id type) shape v
  | array {id : Uuid} {element : Codec} {inner : Shape} {items : List Value}
      (h : ∀ v ∈ items, Covers element inner v) :
      Covers (.array id element) (.array inner) (.array items)
  | set {id : Uuid} {element : Codec} {inner : Shape} {items : List Value}
      (h : ∀ v ∈ items, Covers element inner v) :
      Covers (.set id element) (.set inner) (.set items)
  | tuple {id : Uuid} {elements : List Codec} {shapes : List Shape} {items : List Value}
      (h : ∀ (i : Nat) codec shape v, elements[i]? = some codec → shapes[i]? = some shape →
        items[i]? = some v → v.isNull = false → Covers codec shape.required v) :
      Covers (.tuple id elements) (.tuple shapes) (.tuple items)
  | record {id : Uuid} {layout : RecordLayout} {fields : List (BoundField Codec)}
      {template rec : Record} {name : String} {members : List (Member Shape)}
      (others : ∀ path shape, Leaf members path shape →
        (∀ b ∈ fields, ∀ codec, b.target ≠ .slot path codec) →
          rec.slot? path = some shape.default)
      (slots : ∀ b ∈ fields, ∀ path codec shape v, b.target = .slot path codec →
        Leaf members path shape → rec.slot? path = some v → v.isNull = false →
          Covers codec shape.required v) :
      Covers (.record id layout fields template) (.record name members) (.record rec)
  | range {id : Uuid} {element : Codec} {inner : Shape} {r : Range Value}
      (h : ∀ v ∈ r.bounds, Covers element inner v) :
      Covers (.range id element) (.range inner) (.range r)
  | multirange {id : Uuid} {element : Codec} {inner : Shape} {ranges : List (Range Value)}
      (h : ∀ r ∈ ranges, ∀ v ∈ r.bounds, Covers element inner v) :
      Covers (.multirange id element) (.multirange inner) (.multirange ranges)

/-- What is in a slot of a record has the properties that all of the record has. -/
theorem Record.slot?_all {P : Scalar → Prop} {Q : Range Value → Prop} {path : StoragePath}
    {rec : Record} {v : Value} (hall : ∀ w ∈ rec, w.All P Q) (h : rec.slot? path = some v) :
    v.All P Q := by
  induction path generalizing rec with
  | nil => cases h
  | cons i path ih =>
    cases path with
    | nil => exact hall v (List.mem_of_getElem? h)
    | cons j path =>
      simp only [Record.slot?] at h
      split at h
      · rename_i inner hinner
        cases hall _ (List.mem_of_getElem? hinner) with
        | record hall' => exact ih hall' h
      · cases h

/-- What holds of all leaves of a record holds of all of the record. -/
theorem Record.all_of_leaves {P : Scalar → Prop} {Q : Range Value → Prop}
    {members : List (Member Shape)} : ∀ {rec : Record}, rec.Conforms members →
      (∀ path shape v, Leaf members path shape → rec.slot? path = some v → v.All P Q) →
        ∀ v ∈ rec, v.All P Q := by
  induction members using members_induction with
  | step members ih =>
    intro rec hrec hleaves v hv
    obtain ⟨i, hi⟩ := List.mem_iff_getElem?.mp hv
    have hlt : i < members.length := hrec.length ▸ (List.getElem?_eq_some_iff.mp hi).1
    have hm := List.getElem?_eq_getElem hlt
    -- a slot is a leaf, or an embedded record whose leaves are leaves of the whole
    cases hnested : members[i].nested? with
    | none => exact hleaves [i] _ v (.own hm hnested) hi
    | some inner =>
      obtain ⟨sub, hsub, hconforms⟩ := hrec.nested hm hnested
      obtain rfl := Option.some.inj (hi.symm.trans hsub)
      refine .record (ih i _ inner hm hnested hconforms fun path shape w hleaf hw => ?_)
      refine hleaves (i :: path) shape w (.inside hm hnested hleaf) ?_
      rw [Record.slot?_inside hsub hleaf.ne_nil, hw]

namespace Value

/-- Two properties of all of a value hold together. -/
theorem All.and {P P' : Scalar → Prop} {Q Q' : Range Value → Prop} {v : Value} (h : v.All P Q) :
    v.All P' Q' → v.All (fun s => P s ∧ P' s) (fun r => Q r ∧ Q' r) := by
  induction h with
  | null => exact fun _ => .null
  | scalar here =>
    intro h'
    cases h' with
    | scalar here' => exact .scalar ⟨here, here'⟩
  | array _ ih =>
    intro h'
    cases h' with
    | array h' => exact .array fun v hv => ih v hv (h' v hv)
  | set _ ih =>
    intro h'
    cases h' with
    | set h' => exact .set fun v hv => ih v hv (h' v hv)
  | tuple _ ih =>
    intro h'
    cases h' with
    | tuple h' => exact .tuple fun v hv => ih v hv (h' v hv)
  | record _ ih =>
    intro h'
    cases h' with
    | record h' => exact .record fun v hv => ih v hv (h' v hv)
  | range here _ ih =>
    intro h'
    cases h' with
    | range here' h' => exact .range ⟨here, here'⟩ fun v hv => ih v hv (h' v hv)
  | multirange here _ ih =>
    intro h'
    cases h' with
    | multirange here' h' =>
      exact .multirange (fun r hr => ⟨here r hr, here' r hr⟩) fun r hr v hv =>
        ih r hr v hv (h' r hr v hv)

/-- A weaker property. -/
theorem All.mono {P P' : Scalar → Prop} {Q Q' : Range Value → Prop} {v : Value}
    (hP : ∀ s, P s → P' s) (hQ : ∀ r, Q r → Q' r) (h : v.All P Q) : v.All P' Q' := by
  induction h with
  | null => exact .null
  | scalar here => exact .scalar (hP _ here)
  | array _ ih => exact .array ih
  | set _ ih => exact .set ih
  | tuple _ ih => exact .tuple ih
  | record _ ih => exact .record ih
  | range here _ ih => exact .range (hQ _ here) ih
  | multirange here _ ih => exact .multirange (fun r hr => hQ r (here r hr)) ih

end Value

namespace Shape

variable {P : Scalar → Prop} {Q : Range Value → Prop}

mutual

/-- What holds of the zeros holds of all that fresh storage holds. -/
theorem all_default (hP : ∀ type : ScalarType, P type.zero) (hQ : Q .nothing) :
    ∀ shape : Shape, shape.default.All P Q
  | .scalar type => by
    rw [default]
    exact .scalar (hP type)
  | .optional _ => by
    rw [default]
    exact .null
  | .array _ => by
    rw [default]
    exact .array (List.forall_mem_nil _)
  | .set _ => by
    rw [default]
    exact .set (List.forall_mem_nil _)
  | .tuple shapes => by
    rw [default]
    exact .tuple (all_defaults hP hQ shapes)
  | .record _ members => by
    rw [default]
    exact .record (all_defaultRecord hP hQ members)
  | .range _ => by
    rw [default]
    exact .range hQ (List.forall_mem_nil _)
  | .multirange _ => by
    rw [default]
    exact .multirange (List.forall_mem_nil _) (List.forall_mem_nil _)

theorem all_defaults (hP : ∀ type : ScalarType, P type.zero) (hQ : Q .nothing) :
    ∀ shapes : List Shape, ∀ v ∈ defaults shapes, v.All P Q
  | [], _, hv => by
    rw [defaults] at hv
    cases hv
  | shape :: shapes, v, hv => by
    rw [defaults] at hv
    rcases List.mem_cons.mp hv with rfl | hv
    · exact all_default hP hQ shape
    · exact all_defaults hP hQ shapes v hv

theorem all_defaultRecord (hP : ∀ type : ScalarType, P type.zero) (hQ : Q .nothing) :
    ∀ members : List (Member Shape), ∀ v ∈ defaultRecord members, v.All P Q
  | [], _, hv => by
    rw [defaultRecord] at hv
    cases hv
  | ⟨_, _, shape, _⟩ :: members, v, hv => by
    rw [defaultRecord] at hv
    rcases List.mem_cons.mp hv with rfl | hv
    · exact all_default hP hQ shape
    · exact all_defaultRecord hP hQ members v hv

end

end Shape

end TypedWire
