import TypedWire.Shape

/-!
# Values of a shape

- `Value.Conforms v shape`: `v` is a value of the shape, at every depth.
- `Record.Conforms rec members`: the slots of a record are values of its members' shapes, one each.
- `Shape.conforms_default`: fresh storage of a shape is a value of it.
-/

namespace TypedWire

/-- The bounds of a range that are there. -/
def Range.bounds {α : Type} (r : Range α) : List α := r.lower.toList ++ r.upper.toList

/-- `v` is a value of the shape. Absent values are only where the shape says optional. -/
inductive Value.Conforms : Value → Shape → Prop
  | scalar {s : Scalar} {type : ScalarType} (hasType : s.type = type) :
      Conforms (.scalar s) (.scalar type)
  | null (inner : Shape) : Conforms .null (.optional inner)
  | present {v : Value} {inner : Shape} (h : Conforms v inner) : Conforms v (.optional inner)
  | array {items : List Value} {element : Shape} (h : ∀ v ∈ items, Conforms v element) :
      Conforms (.array items) (.array element)
  | set {items : List Value} {element : Shape} (h : ∀ v ∈ items, Conforms v element) :
      Conforms (.set items) (.set element)
  | tuple {items : List Value} {shapes : List Shape} (length : items.length = shapes.length)
      (h : ∀ (i : Nat) v shape, items[i]? = some v → shapes[i]? = some shape →
        Conforms v shape) :
      Conforms (.tuple items) (.tuple shapes)
  | record {rec : Record} {name : String} {members : List (Member Shape)}
      (length : rec.length = members.length)
      (h : ∀ (i : Nat) v m, rec[i]? = some v → members[i]? = some m → Conforms v m.shape) :
      Conforms (.record rec) (.record name members)
  | range {r : Range Value} {element : Shape} (h : ∀ v ∈ r.bounds, Conforms v element) :
      Conforms (.range r) (.range element)
  | multirange {ranges : List (Range Value)} {element : Shape}
      (h : ∀ r ∈ ranges, ∀ v ∈ r.bounds, Conforms v element) :
      Conforms (.multirange ranges) (.multirange element)

/-- The slots of a record are values of the shapes of the members, one each. -/
structure Record.Conforms (rec : Record) (members : List (Member Shape)) : Prop where
  length : rec.length = members.length
  slot : ∀ (i : Nat) v m, rec[i]? = some v → members[i]? = some m → Value.Conforms v m.shape

namespace Record.Conforms

theorem nil : Record.Conforms [] [] where
  length := rfl
  slot _ _ _ hv := nomatch hv

theorem cons_iff {v : Value} {rec : Record} {m : Member Shape} {members : List (Member Shape)} :
    Record.Conforms (v :: rec) (m :: members) ↔
      Value.Conforms v m.shape ∧ Record.Conforms rec members := by
  constructor
  · intro h
    exact ⟨h.slot 0 v m rfl rfl, Nat.succ.inj h.length, fun i v m hv hm => h.slot (i + 1) v m hv hm⟩
  · rintro ⟨hv, hrec⟩
    refine ⟨congrArg (· + 1) hrec.length, ?_⟩
    rintro (_ | i) v' m' hv' hm'
    · obtain rfl := Option.some.inj hv'
      obtain rfl := Option.some.inj hm'
      exact hv
    · exact hrec.slot i v' m' hv' hm'

/-- A record of some members starts with a value for the first of them. -/
theorem exists_cons {rec : Record} {m : Member Shape} {members : List (Member Shape)}
    (h : Record.Conforms rec (m :: members)) :
    ∃ v rest, rec = v :: rest ∧ Value.Conforms v m.shape ∧ Record.Conforms rest members := by
  cases rec with
  | nil => cases h.length
  | cons v rest => exact ⟨v, rest, rfl, cons_iff.mp h⟩

end Record.Conforms

namespace Value

theorem eq_null {v : Value} (h : v.isNull = true) : v = .null := by
  cases v with
  | null => rfl
  | _ => cases h

theorem conforms_record_iff {v : Value} {name : String} {members : List (Member Shape)} :
    v.Conforms (.record name members) ↔ ∃ rec, v = .record rec ∧ Record.Conforms rec members := by
  constructor
  · intro h
    cases h with
    | record length h => exact ⟨_, rfl, length, h⟩
  · rintro ⟨rec, rfl, h⟩
    exact .record h.length h.slot

/-- A value of a shape that is present is one of the shape without the option. -/
theorem Conforms.required {v : Value} {shape : Shape} (h : v.Conforms shape)
    (hnull : v.isNull = false) : v.Conforms shape.required := by
  cases h with
  | null => cases hnull
  | present h => exact h
  | scalar hasType => exact .scalar hasType
  | array h => exact .array h
  | set h => exact .set h
  | tuple length h => exact .tuple length h
  | record length h => exact .record length h
  | range h => exact .range h
  | multirange h => exact .multirange h

/-- A value of a shape without the option is one of the shape. -/
theorem Conforms.of_required {v : Value} {shape : Shape} (h : v.Conforms shape.required) :
    v.Conforms shape := by
  cases shape with
  | optional inner => exact .present h
  | _ => exact h

/-- Only an optional shape has the absent value. -/
theorem Conforms.isOptional {v : Value} {shape : Shape} (h : v.Conforms shape)
    (hnull : v.isNull = true) : shape.isOptional = true := by
  cases h with
  | null | present => rfl
  | _ => cases hnull

/-- The absent value is what fresh storage of its shape holds. -/
theorem Conforms.eq_default {v : Value} {shape : Shape} (h : v.Conforms shape)
    (hnull : v.isNull = true) : v = shape.default := by
  have hoptional := h.isOptional hnull
  cases shape with
  | optional inner => rw [Shape.default, eq_null hnull]
  | _ => cases hoptional

end Value

/-! ## Fresh storage -/

namespace Shape

theorem defaults_eq_map : ∀ shapes : List Shape, defaults shapes = shapes.map default
  | [] => by rw [defaults, List.map_nil]
  | shape :: shapes => by rw [defaults, defaults_eq_map shapes, List.map_cons]

theorem defaultRecord_eq_map : ∀ members : List (Member Shape),
    defaultRecord members = members.map fun m => m.shape.default
  | [] => by rw [defaultRecord, List.map_nil]
  | ⟨_, _, shape, _⟩ :: members => by
    rw [defaultRecord, defaultRecord_eq_map members, List.map_cons]

mutual

/-- Fresh storage of a shape is a value of it. -/
theorem conforms_default : ∀ shape : Shape, shape.default.Conforms shape
  | .scalar type => by
    rw [default]
    exact .scalar type.type_zero
  | .optional inner => by
    rw [default]
    exact .null inner
  | .array _ => by
    rw [default]
    exact .array (List.forall_mem_nil _)
  | .set _ => by
    rw [default]
    exact .set (List.forall_mem_nil _)
  | .tuple shapes => by
    rw [default]
    refine .tuple ?_ (conforms_defaults shapes)
    rw [defaults_eq_map, List.length_map]
  | .record _ members => by
    rw [default]
    refine .record ?_ (conforms_defaultRecord members)
    rw [defaultRecord_eq_map, List.length_map]
  | .range _ => by
    rw [default]
    exact .range (List.forall_mem_nil _)
  | .multirange _ => by
    rw [default]
    exact .multirange (List.forall_mem_nil _)

theorem conforms_defaults : ∀ (shapes : List Shape) (i : Nat) (v : Value) (shape : Shape),
    (defaults shapes)[i]? = some v → shapes[i]? = some shape → v.Conforms shape
  | [], _, _, _, _, hshape => nomatch hshape
  | shape :: shapes, 0, v, shape', hv, hshape => by
    rw [defaults] at hv
    obtain rfl := Option.some.inj hv
    obtain rfl := Option.some.inj hshape
    exact conforms_default shape
  | shape :: shapes, i + 1, v, shape', hv, hshape => by
    rw [defaults] at hv
    exact conforms_defaults shapes i v shape' hv hshape

theorem conforms_defaultRecord : ∀ (members : List (Member Shape)) (i : Nat) (v : Value)
    (m : Member Shape), (defaultRecord members)[i]? = some v → members[i]? = some m →
      v.Conforms m.shape
  | [], _, _, _, _, hm => nomatch hm
  | ⟨_, _, shape, _⟩ :: members, 0, v, m, hv, hm => by
    rw [defaultRecord] at hv
    obtain rfl := Option.some.inj hv
    obtain rfl := Option.some.inj hm
    exact conforms_default shape
  | ⟨_, _, _, _⟩ :: members, i + 1, v, m, hv, hm => by
    rw [defaultRecord] at hv
    exact conforms_defaultRecord members i v m hv hm

end

/-- The slots of fresh storage of a record are values of the members' shapes. -/
theorem defaultRecord_conforms (members : List (Member Shape)) :
    Record.Conforms (defaultRecord members) members where
  length := by rw [defaultRecord_eq_map, List.length_map]
  slot := conforms_defaultRecord members

end Shape

end TypedWire
