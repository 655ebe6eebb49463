import TypedWire.Proofs.Codec.Failure
import TypedWire.Proofs.Render.RoundTrip

/-!
# What is read from JSON is of the shape

- `ScalarType.fromJson_sound`: a scalar is of its type, and the wire has a count of a duration.
- `Value.Sound`: a value of the shape with scalars of this kind, and with no odd empty ranges.
- `Shape.fromJson_sound`: whatever is read for a shape is such a value.
-/

namespace TypedWire

theorem FromJson.inMember_eq_ok {α : Type} {name : String} {out : Except FromJsonError α} {a : α} :
    inMember name out = .ok a ↔ out = .ok a := by
  cases out with
  | ok b => exact Iff.rfl
  | error e => exact ⟨nofun, nofun⟩

/-- A scalar that is read is of its type. Durations are read in microseconds, so that they have a
count. -/
theorem ScalarType.fromJson_sound {type : ScalarType} {j : Json} {s : Scalar}
    (h : type.fromJson j = .ok s) : s.type = type ∧ s.Countable := by
  rw [fromJson.eq_def] at h
  cases type with
  | uuid | int16 | int32 | datetime | localDatetime | localDate | localTime =>
    obtain ⟨_, -, h⟩ := outcome_bind_eq_ok.mp h
    obtain ⟨_, -, rfl⟩ := outcome_map_eq_ok.mp h
    exact ⟨rfl, trivial⟩
  | str | int64 | float32 | float64 | bool =>
    obtain ⟨_, -, rfl⟩ := outcome_map_eq_ok.mp h
    exact ⟨rfl, trivial⟩
  | bytes =>
    obtain ⟨text, -, h⟩ := outcome_bind_eq_ok.mp h
    split at h
    · obtain rfl := Except.ok.inj h
      exact ⟨rfl, trivial⟩
    · cases h
  | duration =>
    obtain ⟨micros, -, rfl⟩ := outcome_map_eq_ok.mp h
    exact ⟨rfl, micros, Duration.toMicros?_ofMicros micros⟩
  | json =>
    obtain rfl := Except.ok.inj h
    exact ⟨rfl, trivial⟩

/-- A value of the shape whose durations have a count, and whose empty ranges are the usual one. -/
structure Value.Sound (v : Value) (shape : Shape) : Prop where
  conforms : v.Conforms shape
  all : v.All Scalar.Countable Range.Plain

/-! ## Items and ranges -/

/-- What holds of the result of every item holds of all results. -/
theorem forall_mem_of_outcomes {α β ε : Type} {f : α → Except ε β} {P : β → Prop}
    (hf : ∀ {a b}, f a = .ok b → P b) {items : List α} {results : List β}
    (h : items.mapM f = .ok results) : ∀ b ∈ results, P b := by
  induction items generalizing results with
  | nil =>
    obtain rfl := Except.ok.inj h
    exact List.forall_mem_nil _
  | cons a items ih =>
    rw [List.mapM_cons] at h
    obtain ⟨b, hb, h⟩ := outcome_bind_eq_ok.mp h
    obtain ⟨rest, hrest, h⟩ := outcome_bind_eq_ok.mp h
    obtain rfl := Except.ok.inj h
    exact List.forall_mem_cons.mpr ⟨hf hb, ih hrest⟩

/-- What holds of every value that is read holds of a bound. -/
theorem FromJson.bound_sound {α : Type} {value : Json → Except FromJsonError α} {P : α → Prop}
    (hvalue : ∀ {j a}, value j = .ok a → P a) {key : String} {entries : List (String × Json)}
    {b : Option α} (h : bound value key entries = .ok b) : ∀ a ∈ b.toList, P a := by
  unfold bound at h
  split at h
  · obtain rfl := Except.ok.inj h
    exact List.forall_mem_nil _
  · obtain rfl := Except.ok.inj h
    exact List.forall_mem_nil _
  · obtain ⟨a, ha, rfl⟩ := outcome_map_eq_ok.mp h
    exact List.forall_mem_singleton.mpr (hvalue ha)

/-- What holds of every value that is read holds of the bounds of a range, and an empty one has
none. -/
theorem FromJson.range_sound {α : Type} {value : Json → Except FromJsonError α} {P : α → Prop}
    (hvalue : ∀ {j a}, value j = .ok a → P a) {j : Json} {r : Range α}
    (h : FromJson.range value j = .ok r) : r.Plain ∧ ∀ a ∈ r.bounds, P a := by
  obtain ⟨entries, -, h⟩ := outcome_bind_eq_ok.mp h
  split at h
  · obtain rfl := Except.ok.inj h
    exact ⟨fun _ => rfl, List.forall_mem_nil _⟩
  · obtain ⟨lower, hlower, h⟩ := outcome_bind_eq_ok.mp h
    obtain ⟨upper, hupper, h⟩ := outcome_bind_eq_ok.mp h
    obtain rfl := Except.ok.inj h
    refine ⟨nofun, fun a ha => ?_⟩
    rcases List.mem_append.mp ha with ha | ha
    · exact bound_sound hvalue hlower a ha
    · exact bound_sound hvalue hupper a ha

/-! ## Values -/

namespace Shape

/-- What a member takes from an object is a value of its shape. -/
theorem memberFromJson_sound {record : String} {entries : List (String × Json)} {m : Member Shape}
    {v : Value} (hshape : ∀ {j : Json} {v : Value}, m.shape.fromJson j = .ok v → v.Sound m.shape)
    (h : memberFromJson record entries m = .ok v) : v.Sound m.shape := by
  unfold memberFromJson at h
  split at h
  · exact hshape (FromJson.inMember_eq_ok.mp h)
  · split at h
    · rename_i hoptional
      obtain rfl := Except.ok.inj h
      refine ⟨?_, .null⟩
      cases hm : m.shape with
      | optional inner => exact .null inner
      | _ =>
        rw [hm] at hoptional
        cases hoptional
    · cases h

mutual

/-- What is read for a shape is a value of it. -/
theorem fromJson_sound : ∀ (shape : Shape) {j : Json} {v : Value}, shape.fromJson j = .ok v →
    v.Sound shape
  | .scalar type, j, v, h => by
    rw [fromJson] at h
    obtain ⟨s, hs, rfl⟩ := outcome_map_eq_ok.mp h
    obtain ⟨htype, hcount⟩ := ScalarType.fromJson_sound hs
    exact ⟨.scalar htype, .scalar hcount⟩
  | .optional inner, j, v, h => by
    rw [fromJson] at h
    split at h
    · obtain rfl := Except.ok.inj h
      exact ⟨.null inner, .null⟩
    · have hv := fromJson_sound inner h
      exact ⟨.present hv.conforms, hv.all⟩
  | .array element, j, v, h => by
    rw [fromJson] at h
    obtain ⟨items, -, h⟩ := outcome_bind_eq_ok.mp h
    obtain ⟨values, hvalues, rfl⟩ := outcome_map_eq_ok.mp h
    have hitem : ∀ v ∈ values, v.Sound element :=
      forall_mem_of_outcomes (fromJson_sound element) hvalues
    exact ⟨.array fun v hv => (hitem v hv).conforms, .array fun v hv => (hitem v hv).all⟩
  | .set element, j, v, h => by
    rw [fromJson] at h
    obtain ⟨items, -, h⟩ := outcome_bind_eq_ok.mp h
    obtain ⟨values, hvalues, rfl⟩ := outcome_map_eq_ok.mp h
    have hitem : ∀ v ∈ values, v.Sound element :=
      forall_mem_of_outcomes (fromJson_sound element) hvalues
    exact ⟨.set fun v hv => (hitem v hv).conforms, .set fun v hv => (hitem v hv).all⟩
  | .tuple shapes, j, v, h => by
    rw [fromJson] at h
    obtain ⟨items, -, h⟩ := outcome_bind_eq_ok.mp h
    dsimp only at h
    split at h
    · cases h
    · rename_i hlength
      obtain ⟨values, hvalues, rfl⟩ := outcome_map_eq_ok.mp h
      obtain ⟨hlen, hitem⟩ := itemsFromJson_sound shapes (Decidable.not_not.mp hlength) hvalues
      refine ⟨.tuple hlen fun i v shape hv hshape => (hitem i v shape hv hshape).conforms, ?_⟩
      refine .tuple fun v hv => ?_
      obtain ⟨i, hi⟩ := List.mem_iff_getElem?.mp hv
      have hlt : i < shapes.length := hlen ▸ (List.getElem?_eq_some_iff.mp hi).1
      exact (hitem i v _ hi (List.getElem?_eq_getElem hlt)).all
  | .record name members, j, v, h => by
    rw [fromJson] at h
    obtain ⟨entries, -, h⟩ := outcome_bind_eq_ok.mp h
    obtain ⟨slots, hslots, rfl⟩ := outcome_map_eq_ok.mp h
    obtain ⟨hconforms, hall⟩ := membersFromJson_sound members hslots
    exact ⟨Value.conforms_record_iff.mpr ⟨slots, rfl, hconforms⟩, .record hall⟩
  | .range element, j, v, h => by
    rw [fromJson] at h
    obtain ⟨r, hr, rfl⟩ := outcome_map_eq_ok.mp h
    obtain ⟨hplain, hbound⟩ := FromJson.range_sound (fromJson_sound element) hr
    exact ⟨.range fun v hv => (hbound v hv).conforms, .range hplain fun v hv => (hbound v hv).all⟩
  | .multirange element, j, v, h => by
    rw [fromJson] at h
    obtain ⟨items, -, h⟩ := outcome_bind_eq_ok.mp h
    obtain ⟨ranges, hranges, rfl⟩ := outcome_map_eq_ok.mp h
    have hrange : ∀ r ∈ ranges, r.Plain ∧ ∀ v ∈ r.bounds, v.Sound element :=
      forall_mem_of_outcomes (FromJson.range_sound (fromJson_sound element)) hranges
    exact ⟨.multirange fun r hr v hv => ((hrange r hr).2 v hv).conforms,
      .multirange (fun r hr => (hrange r hr).1) fun r hr v hv => ((hrange r hr).2 v hv).all⟩

theorem itemsFromJson_sound : ∀ (shapes : List Shape) {items : List Json} {values : List Value},
    items.length = shapes.length → itemsFromJson shapes items = .ok values →
      values.length = shapes.length ∧ ∀ (i : Nat) v shape, values[i]? = some v →
        shapes[i]? = some shape → v.Sound shape
  | [], items, values, _, h => by
    rw [itemsFromJson] at h
    · obtain rfl := Except.ok.inj h
      exact ⟨rfl, fun _ _ _ hv => nomatch hv⟩
    · rintro _ _ _ _ ⟨⟩
  | shape :: shapes, [], values, hlength, _ => nomatch hlength
  | shape :: shapes, j :: items, values, hlength, h => by
    rw [itemsFromJson] at h
    obtain ⟨v, hv, h⟩ := outcome_bind_eq_ok.mp h
    obtain ⟨rest, hrest, h⟩ := outcome_bind_eq_ok.mp h
    obtain rfl := Except.ok.inj h
    obtain ⟨hlen, hitems⟩ := itemsFromJson_sound shapes (Nat.succ.inj hlength) hrest
    refine ⟨congrArg (· + 1) hlen, ?_⟩
    rintro (_ | i) w shape' hw hshape
    · obtain rfl := Option.some.inj hw
      obtain rfl := Option.some.inj hshape
      exact fromJson_sound shape hv
    · exact hitems i w shape' hw hshape

theorem membersFromJson_sound : ∀ (members : List (Member Shape)) {owner : String}
    {entries : List (String × Json)} {slots : Record},
    membersFromJson owner entries members = .ok slots →
      slots.Conforms members ∧ ∀ v ∈ slots, v.All Scalar.Countable Range.Plain
  | [], owner, entries, slots, h => by
    rw [membersFromJson] at h
    obtain rfl := Except.ok.inj h
    exact ⟨.nil, List.forall_mem_nil _⟩
  | ⟨name, wireAlias, shape, embedded⟩ :: members, owner, entries, slots, h => by
    have hshape := @fromJson_sound shape
    have hmembers := @membersFromJson_sound members
    have hplain (hnested : Member.nested? ⟨name, wireAlias, shape, embedded⟩ = none) :
        slots.Conforms (⟨name, wireAlias, shape, embedded⟩ :: members) ∧
          ∀ v ∈ slots, v.All Scalar.Countable Range.Plain := by
      rw [membersFromJson_plain hnested] at h
      obtain ⟨v, hv, h⟩ := outcome_bind_eq_ok.mp h
      obtain ⟨rest, hrest, h⟩ := outcome_bind_eq_ok.mp h
      obtain rfl := Except.ok.inj h
      have hsound := memberFromJson_sound hshape hv
      obtain ⟨hconforms, hall⟩ := hmembers hrest
      exact ⟨Record.Conforms.cons_iff.mpr ⟨hsound.conforms, hconforms⟩,
        List.forall_mem_cons.mpr ⟨hsound.all, hall⟩⟩
    cases shape with
    | record inner innerMembers =>
      cases embedded with
      | true =>
        rw [membersFromJson] at h
        obtain ⟨innerSlots, hinner, h⟩ := outcome_bind_eq_ok.mp h
        obtain ⟨rest, hrest, h⟩ := outcome_bind_eq_ok.mp h
        obtain rfl := Except.ok.inj h
        obtain ⟨hsub, hsubAll⟩ := membersFromJson_sound innerMembers hinner
        obtain ⟨hconforms, hall⟩ := hmembers hrest
        refine ⟨Record.Conforms.cons_iff.mpr ⟨?_, hconforms⟩, ?_⟩
        · exact Value.conforms_record_iff.mpr ⟨innerSlots, rfl, hsub⟩
        · exact List.forall_mem_cons.mpr ⟨.record hsubAll, hall⟩
      | false => exact hplain rfl
    | _ => cases embedded <;> exact hplain rfl

end

end Shape

end TypedWire
