import TypedWire.Proofs.Binding.Dialects
import TypedWire.Proofs.Binding.Parts
import TypedWire.Proofs.Descriptor.Parse

/-!
# What ranges are made of

Binding accepts the element of a range by the scalar type behind it, which an identifier gives away
before the kind is looked at, while the codec of the element is made from the kind. The two agree as
long as only scalar types bear the identifiers of the built-in ones.

- `Codec.IsRangeScalar`: the codecs of the scalars that there are ranges over.
- `Descriptor.OwnsId`: a type with the identifier of a built-in scalar type is a scalar type.
- `Descriptor.bind_ranges`: ranges are over such scalars, or over a type under a borrowed identifier.
- `Descriptor.bind_range_of_array`: a stream that binds a range over an array.
-/

namespace TypedWire

/-- The built-in scalar types that there are ranges over. -/
def ScalarType.ranged : List ScalarType :=
  [.int32, .int64, .float32, .float64, .datetime, .localDatetime, .localDate]

theorem ScalarType.isRangeElement_iff {type : ScalarType} :
    type.isRangeElement = true ↔ type ∈ ranged := by
  cases type <;> decide

/-- The codec is that of a scalar that there are ranges over. -/
def Codec.IsRangeScalar (codec : Codec) : Prop :=
  ∃ id, ∃ type ∈ ScalarType.ranged, codec = .scalar id type

/-- The codec is not that of a scalar, but has the identifier of one that there are ranges over. -/
def Codec.IsMisnamed (codec : Codec) : Prop :=
  codec.isScalar = false ∧ ∃ type ∈ ScalarType.ranged, codec.id = type.id

namespace Descriptor

/-- A type with the identifier of a built-in scalar type is a scalar type itself. -/
def OwnsId (d : Descriptor) : Prop :=
  ∀ type : ScalarType, d.id = type.id → d.kind = .baseScalar ∨ d.kind = .scalar ∨ d.kind = .enum

/-- The element of a range is checked by the scalar type behind it. -/
theorem checkRangeElement_eq_ok {d : Descriptor} (h : checkRangeElement d = .ok ()) :
    d.kind ≠ .enum ∧ ∃ type ∈ ScalarType.ranged, d.scalarBase = .ok type := by
  obtain ⟨type, hbase, h⟩ := outcome_bind_eq_ok.mp h
  split at h
  · cases h
  · rename_i hallowed
    rw [not_or, Bool.not_eq_true, Bool.not_eq_false'] at hallowed
    exact ⟨hallowed.1, type, ScalarType.isRangeElement_iff.mp hallowed.2, hbase⟩

/-- The scalar type behind a type that is no scalar type is the one of its identifier. -/
theorem id_of_scalarBase {d : Descriptor} {type : ScalarType}
    (hkind : ¬(d.kind = .baseScalar ∨ d.kind = .scalar ∨ d.kind = .enum))
    (h : d.scalarBase = .ok type) : d.id = type.id := by
  obtain ⟨-, hscalar, henum⟩ : _ ∧ d.kind ≠ .scalar ∧ d.kind ≠ .enum := by
    simpa only [not_or] using hkind
  rw [scalarBase_of_not_isCustom fun hcustom => hscalar hcustom.1] at h
  split at h
  · rename_i found hfound
    obtain rfl := Except.ok.inj h
    exact (ScalarType.ofId?_eq_some_iff.mp hfound).symm
  · rw [if_neg henum] at h
    cases h

/-- A codec has the identifier of its type, and is that of a scalar exactly if the type is one. -/
theorem Binds.id_and_isScalar {d : Descriptor} {shape : Shape} {codec : Codec}
    (h : Binds d shape codec) : codec.id = d.id ∧
      (codec.isScalar = true ↔ d.kind = .baseScalar ∨ d.kind = .scalar ∨ d.kind = .enum) := by
  cases h with
  | scalar kind _ => exact ⟨rfl, fun _ => kind, fun _ => rfl⟩
  | record kind _ _ _ _ =>
    refine ⟨rfl, nofun, fun hkind => ?_⟩
    rcases hkind with hkind | hkind | hkind <;> rw [hkind] at kind <;> cases kind
  | array kind _ _ | set kind _ _ | setAsArray kind _ _ | tuple kind _ _ _ _ | range kind _ _ _
  | multirange kind _ _ _ =>
    exact ⟨rfl, nofun, fun hkind => by simp [kind] at hkind⟩

/-- What binds the element of a range is a scalar that there are ranges over, unless the element
only bears the identifier of one. -/
theorem Binds.range_element {d : Descriptor} {shape : Shape} {codec : Codec}
    (h : Binds d shape codec) (hcheck : checkRangeElement d = .ok ()) :
    (codec.IsRangeScalar ∨ codec.IsMisnamed) ∧ (d.OwnsId → codec.IsRangeScalar) := by
  obtain ⟨-, type, hranged, hbase⟩ := checkRangeElement_eq_ok hcheck
  obtain ⟨hid, hscalar⟩ := h.id_and_isScalar
  by_cases hkind : d.kind = .baseScalar ∨ d.kind = .scalar ∨ d.kind = .enum
  · have hover : codec.IsRangeScalar := by
      cases h with
      | scalar _ base =>
        obtain rfl := Except.ok.inj (base.symm.trans hbase)
        exact ⟨_, _, hranged, rfl⟩
      | _ => cases hscalar.mpr hkind
    exact ⟨.inl hover, fun _ => hover⟩
  · have hborrowed := id_of_scalarBase hkind hbase
    refine ⟨.inr ⟨?_, type, hranged, hid.trans hborrowed⟩, fun howns => ?_⟩
    · rwa [← hscalar, Bool.not_eq_true] at hkind
    · exact (hkind (howns type hborrowed)).elim

/-- The element of every range and every multirange in a bound codec is a scalar that there are
ranges over, or else not a scalar but under the identifier of one; there is nothing of the second
kind where only scalar types bear the identifiers of the built-in ones. -/
theorem bind_ranges {d : Descriptor} {required : Bool} {shape : Shape} {codec : Codec}
    (h : d.bind required shape = .ok codec) {id : Uuid} {element : Codec}
    (hpart : (Codec.range id element).Within codec ∨ (Codec.multirange id element).Within codec) :
    (element.IsRangeScalar ∨ element.IsMisnamed) ∧
      (d.Everywhere OwnsId → element.IsRangeScalar) := by
  have hbinds := binds_of_bind h
  -- a range and a multirange are bound by one rule: the check, and then the element
  obtain ⟨part, inner, hcheck, helement, hall⟩ : ∃ part inner, checkRangeElement part = .ok () ∧
      Binds part inner element ∧ (d.Everywhere OwnsId → part.OwnsId) := by
    rcases hpart with hpart | hpart <;> obtain ⟨_, _, hrange, hall⟩ := hbinds.part hpart
    · cases hrange with
      | range _ fields ranged element =>
        exact ⟨_, _, ranged, element, fun howns => ((hall _ howns).first fields).here⟩
    · cases hrange with
      | multirange _ fields ranged element =>
        exact ⟨_, _, ranged, element, fun howns => ((hall _ howns).first fields).here⟩
  obtain ⟨hover, howned⟩ := helement.range_element hcheck
  exact ⟨hover, fun howns => howned (hall howns)⟩

/-- A range over a number. -/
theorem bind_ranges_number :
    let int32 := ofFields .baseScalar ScalarType.int32.id []
    let d := ofFields .range .nil [.element int32]
    let element := Codec.scalar ScalarType.int32.id .int32
    d.bind true (.range (.scalar .int32)) = .ok (.range .nil element) ∧
      (Codec.range .nil element).Within (.range .nil element) ∧ d.Everywhere OwnsId ∧
        element.IsRangeScalar := by
  intro int32 d element
  have hbind : d.bind true (.range (.scalar .int32)) = .ok (.range .nil element) := rfl
  have hint32 : int32.Everywhere OwnsId :=
    .node (fun _ _ => .inl rfl) (List.forall_mem_nil _)
  have hd : d.Everywhere OwnsId := by
    refine .node (fun type hid => ?_) (List.forall_mem_singleton.mpr hint32)
    have hnil : (Uuid.nil : Uuid) ≠ type.id := by cases type <;> decide
    exact (hnil hid).elim
  exact ⟨hbind, .whole, hd, (bind_ranges hbind (.inl .whole)).2 hd⟩

/-- An array under the identifier of a number passes for one, and is bound as the element of a
range. -/
theorem bind_range_of_array :
    ∃ d id element, Descriptor.parse .v1
        [2, 0, 0, 0, 0, 0, 0, 0, 0, 0, 0, 0, 0, 0, 0, 1, 4,
          6, 0, 0, 0, 0, 0, 0, 0, 0, 0, 0, 0, 0, 0, 0, 1, 4, 0, 0, 0, 1, 255, 255, 255, 255,
          9, 0, 0, 0, 0, 0, 0, 0, 0, 0, 0, 0, 0, 0, 0, 0, 1, 0, 1] = .ok d ∧
      d.bind true (.range (.array (.scalar .int32))) = .ok (.range id element) ∧
        (Codec.range id element).Within (.range id element) ∧ ¬element.IsRangeScalar := by
  let int32 := ofFields .baseScalar ScalarType.int32.id []
  let array := ofFields .array ScalarType.int32.id [.element int32]
  refine ⟨ofFields .range (.ofNat 1) [.element array], _, _, ?_, rfl, .whole, ?_⟩
  · rw [Descriptor.parse, Grammar.nodes_of_next rfl, Grammar.nodes_of_next rfl,
      Grammar.nodes_of_next rfl, Stream.nodes]
    rfl
  · rintro ⟨_, _, -, helement⟩
    cases helement

end Descriptor

end TypedWire
