import TypedWire.Proofs.Codec.Covers
import TypedWire.Proofs.Outcome
import TypedWire.Proofs.Text.Hex
import TypedWire.Render.FromJson
import TypedWire.Render.ToJson

/-!
# Values rendered as JSON are read back

An embedded record has no object of its own: its members stand among those of the record around it,
for the rendering and for the reading alike. So a record is read back from any object that has the
entries of its members, whatever else is in it.

- `Scalar.Told`: the scalars that JSON can say without loss.
- `Shape.keys`, `Shape.DistinctKeys`: the keys of a record's entries, those of embedded records among
  them, and that no record repeats one.
- `Shape.Shows`: where a value may be absent, one that is there is not rendered as null.
- `Shape.lookup?_renderMembers`: rendering a record leaves the entries under other keys alone.
- `Shape.ReadsBack`: a value is read back, a record also from among other entries.
- `Shape.fromJson_render`: reading is the inverse of rendering.
-/

namespace TypedWire

/-! ## Scalars -/

/-- JSON can say the scalar without loss. A duration is sent as whole microseconds. -/
def Scalar.Told : Scalar → Prop
  | .uuid _ | .str _ | .bytes _ | .int16 _ | .int32 _ | .int64 _ | .bool _ | .json _ => True
  | .duration d => ∃ micros : Int64, d = .ofMicros micros.toInt
  | .float32 _ | .float64 _ | .datetime _ | .localDatetime _ | .localDate _ | .localTime _ => False

theorem int16?_toInt (n : Int16) : int16? n.toInt = some n := by
  rw [int16?, if_pos ⟨Int16.minValue_le_toInt n, Int16.toInt_le n⟩, Int16.ofInt_toInt]

theorem Json.asInt?_int {n : Int} {w : Int64} (h : w.toInt = n) : (Json.int n).asInt? = some w :=
  int64?_eq_some_iff.mpr h

theorem Json.asInt?_int16 (n : Int16) : (Json.int n.toInt).asInt? = some n.toInt64 :=
  asInt?_int (Int16.toInt_toInt64 n)

theorem Json.asInt?_int32 (n : Int32) : (Json.int n.toInt).asInt? = some n.toInt64 :=
  asInt?_int (Int32.toInt_toInt64 n)

/-- Whole microseconds are all of a duration that JSON says. -/
theorem Duration.toMicros?_ofMicros (micros : Int64) :
    (Duration.ofMicros micros.toInt).toMicros? = some micros := by
  refine int64?_eq_some_iff.mpr ?_
  exact (Int.mul_tdiv_cancel _ (by decide)).symm

/-- A scalar that JSON can say is read back. -/
theorem Scalar.fromJson_toJson {s : Scalar} (h : s.Told) : s.type.fromJson s.toJson = .ok s := by
  rw [toJson.eq_def, ScalarType.fromJson.eq_def]
  cases s with
  | uuid u =>
    dsimp only [type, FromJson.text, Json.asString?, FromJson.present]
    rw [outcome_bind_ok, Uuid.parse?_toText]
    rfl
  | str | bool | json => rfl
  | bytes bs =>
    dsimp only [type, FromJson.text, Json.asString?, FromJson.present]
    rw [outcome_bind_ok, Hex.decode_encode]
    rfl
  | int16 n =>
    dsimp only [type, FromJson.integer]
    rw [Json.asInt?_int16, FromJson.present, outcome_bind_ok, Int16.toInt_toInt64, int16?_toInt]
    rfl
  | int32 n =>
    dsimp only [type, FromJson.integer]
    rw [Json.asInt?_int32, FromJson.present, outcome_bind_ok, Int32.toInt_toInt64,
      int32?_eq_some_iff.mpr rfl]
    rfl
  | int64 n =>
    dsimp only [type, FromJson.integer]
    rw [Json.asInt?_int rfl]
    rfl
  | duration d =>
    obtain ⟨micros, rfl⟩ := h
    dsimp only [type, FromJson.integer]
    rw [Duration.toMicros?_ofMicros]
    dsimp only
    rw [Json.asInt?_int rfl]
    rfl
  | float32 | float64 | datetime | localDatetime | localDate | localTime => exact h.elim

/-! ## Ranges -/

/-- A bound is read back if its rendering is not null. -/
theorem FromJson.bound_eq_ok {α : Type} {value : Json → Except FromJsonError α} {render : α → Json}
    {key : String} {entries : List (String × Json)} {b : Option α}
    (hentry : Json.lookup? key entries = some ((b.map render).getD .null))
    (h : ∀ a ∈ b, value (render a) = .ok a ∧ render a ≠ .null) :
    FromJson.bound value key entries = .ok b := by
  cases b with
  | none => rw [FromJson.bound, hentry]; rfl
  | some a =>
    obtain ⟨hvalue, hnull⟩ := h a rfl
    rw [FromJson.bound, hentry]
    dsimp only [Option.map, Option.getD]
    split
    · contradiction
    · rename_i heq
      exact absurd (Option.some.inj heq) hnull
    · rename_i heq
      rw [← Option.some.inj heq, hvalue]
      rfl

theorem FromJson.flag_eq {key : String} {entries : List (String × Json)} {b : Bool}
    (hentry : Json.lookup? key entries = some (.bool b)) : flag key entries = b := by
  rw [flag, hentry]
  rfl

/-- The entries of a range that is rendered. -/
theorem Range.exists_entries {α : Type} (render : α → Json) (r : Range α) :
    ∃ entries, r.toJson render = .object entries ∧
      Json.lookup? "lower" entries = some ((r.lower.map render).getD .null) ∧
      Json.lookup? "upper" entries = some ((r.upper.map render).getD .null) ∧
      Json.lookup? "inc_lower" entries = some (.bool r.incLower) ∧
      Json.lookup? "inc_upper" entries = some (.bool r.incUpper) ∧
      Json.lookup? "empty" entries = some (.bool r.empty) := by
  refine ⟨_, rfl, ?_⟩
  simp only [List.foldl]
  refine ⟨?_, ?_, ?_, ?_, ?_⟩ <;>
    simp [Json.lookup?_insert_self, Json.lookup?_insert_of_ne]

/-- A range is read back if its bounds are, unless it holds nothing in another way than the usual
one. -/
theorem FromJson.range_toJson {α : Type} {value : Json → Except FromJsonError α}
    {render : α → Json} {r : Range α} (hplain : r.Plain)
    (h : ∀ a ∈ r.bounds, value (render a) = .ok a ∧ render a ≠ .null) :
    FromJson.range value (r.toJson render) = .ok r := by
  obtain ⟨entries, hentries, hlower, hupper, hincLower, hincUpper, hempty⟩ :=
    r.exists_entries render
  rw [hentries, FromJson.range]
  dsimp only [Json.asObject?, present]
  rw [outcome_bind_ok, flag_eq hempty]
  split
  · rename_i hnothing
    rw [hplain hnothing]
    rfl
  · rename_i hsome
    rw [bound_eq_ok hlower fun a ha => h a (List.mem_append_left _ (Option.mem_toList.mpr ha)),
      outcome_bind_ok,
      bound_eq_ok hupper fun a ha => h a (List.mem_append_right _ (Option.mem_toList.mpr ha)),
      outcome_bind_ok, flag_eq hincLower, flag_eq hincUpper, ← Bool.eq_false_iff.mpr hsome]
    rfl

/-! ## Items -/

/-- Items that are read back one by one are read back together. -/
theorem mapM_map_eq_ok {α β ε : Type} {value : β → Except ε α} {render : α → β} {items : List α}
    (h : ∀ a ∈ items, value (render a) = .ok a) : (items.map render).mapM value = .ok items := by
  induction items with
  | nil => rfl
  | cons a items ih =>
    obtain ⟨ha, hitems⟩ := List.forall_mem_cons.mp h
    rw [List.map_cons, List.mapM_cons, ha, outcome_bind_ok, ih hitems]
    rfl

namespace Shape

theorem itemsFromJson_renderItems : ∀ {shapes : List Shape} {items : List Value},
    items.length = shapes.length →
      (∀ (i : Nat) v shape, items[i]? = some v → shapes[i]? = some shape →
        shape.fromJson (shape.render v) = .ok v) →
        (renderItems shapes items).length = shapes.length ∧
          itemsFromJson shapes (renderItems shapes items) = .ok items
  | [], [], _, _ => ⟨rfl, rfl⟩
  | shape :: shapes, v :: items, hlength, h => by
    obtain ⟨hlen, hrest⟩ := itemsFromJson_renderItems (Nat.succ.inj hlength)
      fun i v shape hv hshape => h (i + 1) v shape hv hshape
    rw [renderItems, itemsFromJson, h 0 v shape rfl rfl, outcome_bind_ok, hrest]
    exact ⟨congrArg (· + 1) hlen, rfl⟩

/-! ## Records -/

/-- A list of members is empty, or starts with an embedded record or with another member. -/
theorem flat_induction {P : List (Member Shape) → Prop} (nil : P [])
    (nested : ∀ (m : Member Shape) inner members, m.nested? = some inner → P inner → P members →
      P (m :: members))
    (plain : ∀ (m : Member Shape) members, m.nested? = none → P members → P (m :: members)) :
    ∀ members, P members
  | [] => nil
  | m :: members =>
    have hrest := flat_induction nil nested plain members
    match hnested : m.nested? with
    | none => plain m members hnested hrest
    | some inner =>
      have hsize : sizeOf inner < sizeOf m := by
        obtain ⟨-, name, hshape⟩ := Member.nested?_eq_some_iff.mp hnested
        obtain ⟨_, _, shape, _⟩ := m
        obtain rfl : shape = .record name inner := hshape
        simp only [Member.mk.sizeOf_spec, Shape.record.sizeOf_spec]
        omega
      nested m inner members hnested (flat_induction nil nested plain inner) hrest
termination_by members => sizeOf members

mutual

/-- The keys of the entries for a member. -/
def memberKeys (name : String) (embedded : Bool) : Shape → List String
  | .record _ inner => if embedded then keys inner else [name]
  | _ => [name]

/-- The keys of the entries of a record, those of embedded records among them. -/
def keys : List (Member Shape) → List String
  | [] => []
  | ⟨name, _, shape, embedded⟩ :: members => memberKeys name embedded shape ++ keys members

end

/-- What a member that is no embedded record takes from the entries of an object. -/
def memberFromJson (record : String) (entries : List (String × Json)) (m : Member Shape) :
    Except FromJsonError Value :=
  match Json.lookup? m.name entries with
  | some j => FromJson.inMember m.name (m.shape.fromJson j)
  | none =>
    if m.shape.isOptional then .ok .null else FromJson.fail (.missingMember m.name record)

section Members

variable {m : Member Shape} {inner members : List (Member Shape)}

theorem keys_nested (h : m.nested? = some inner) :
    keys (m :: members) = keys inner ++ keys members := by
  obtain ⟨hembedded, name, hshape⟩ := Member.nested?_eq_some_iff.mp h
  obtain ⟨_, _, shape, embedded⟩ := m
  obtain rfl : shape = .record name inner := hshape
  obtain rfl : embedded = true := hembedded
  rw [keys, memberKeys, if_pos rfl]

theorem keys_plain (h : m.nested? = none) : keys (m :: members) = m.name :: keys members := by
  obtain ⟨name, wireAlias, shape, embedded⟩ := m
  cases shape with
  | record inner nested =>
    cases embedded with
    | true => cases h
    | false => rfl
  | _ => rfl

theorem renderMembers_nested (h : m.nested? = some inner) (innerSlots slots : List Value)
    (done : List (String × Json)) :
    renderMembers (m :: members) (.record innerSlots :: slots) done =
      renderMembers members slots (renderMembers inner innerSlots done) := by
  obtain ⟨hembedded, name, hshape⟩ := Member.nested?_eq_some_iff.mp h
  obtain ⟨_, _, shape, embedded⟩ := m
  obtain rfl : shape = .record name inner := hshape
  obtain rfl : embedded = true := hembedded
  rw [renderMembers]

theorem renderMembers_plain (h : m.nested? = none) (slot : Value) (slots : List Value)
    (done : List (String × Json)) :
    renderMembers (m :: members) (slot :: slots) done =
      renderMembers members slots (Json.insert m.name (m.shape.render slot) done) := by
  obtain ⟨name, wireAlias, shape, embedded⟩ := m
  rw [renderMembers]
  rintro inner nested innerSlots rfl rfl
  cases h

theorem membersFromJson_nested (h : m.nested? = some inner) (members : List (Member Shape))
    (record : String) (entries : List (String × Json)) :
    ∃ name, m.shape = .record name inner ∧ membersFromJson record entries (m :: members) = do
      let slots ← membersFromJson name entries inner
      let vs ← membersFromJson record entries members
      return .record slots :: vs := by
  obtain ⟨hembedded, name, hshape⟩ := Member.nested?_eq_some_iff.mp h
  refine ⟨name, hshape, ?_⟩
  obtain ⟨_, _, shape, embedded⟩ := m
  obtain rfl : shape = .record name inner := hshape
  obtain rfl : embedded = true := hembedded
  rw [membersFromJson]

theorem membersFromJson_plain (h : m.nested? = none) (record : String)
    (entries : List (String × Json)) :
    membersFromJson record entries (m :: members) = do
      let v ← memberFromJson record entries m
      let vs ← membersFromJson record entries members
      return v :: vs := by
  obtain ⟨name, wireAlias, shape, embedded⟩ := m
  rw [membersFromJson, memberFromJson]
  · cases Json.lookup? name entries with
    | some j => rfl
    | none => cases hoptional : shape.isOptional <;> rfl
  · rintro inner nested rfl rfl
    cases h

end Members

/-- Rendering a record leaves the entries under keys that are not its own as they are. -/
theorem lookup?_renderMembers {key : String} (members : List (Member Shape)) :
    ∀ {slots : Record} {done : List (String × Json)}, slots.Conforms members → key ∉ keys members →
      Json.lookup? key (renderMembers members slots done) = Json.lookup? key done := by
  induction members using flat_induction with
  | nil =>
    intro slots done hslots _
    obtain rfl := List.eq_nil_of_length_eq_zero hslots.length
    rfl
  | nested m inner members hnested ihInner ih =>
    intro slots done hslots hkey
    obtain ⟨v, rest, rfl, hv, hrest⟩ := hslots.exists_cons
    obtain ⟨-, name, hshape⟩ := Member.nested?_eq_some_iff.mp hnested
    rw [hshape] at hv
    obtain ⟨innerSlots, rfl, hinner⟩ := Value.conforms_record_iff.mp hv
    rw [keys_nested hnested, List.mem_append, not_or] at hkey
    rw [renderMembers_nested hnested, ih hrest hkey.2, ihInner hinner hkey.1]
  | plain m members hplain ih =>
    intro slots done hslots hkey
    obtain ⟨v, rest, rfl, -, hrest⟩ := hslots.exists_cons
    rw [keys_plain hplain, List.mem_cons, not_or] at hkey
    rw [renderMembers_plain hplain, ih hrest hkey.2, Json.lookup?_insert_of_ne (Ne.symm hkey.1)]

/-- A value is read back from its rendering. If it is a record, it is also read back from any object
that has the entries of the record. -/
structure ReadsBack (shape : Shape) (v : Value) : Prop where
  whole : shape.fromJson (shape.render v) = .ok v
  among : ∀ {name : String} {members : List (Member Shape)} {slots : Record}
    {entries done : List (String × Json)}, shape = .record name members → v = .record slots →
      (∀ key ∈ keys members,
        Json.lookup? key entries = Json.lookup? key (renderMembers members slots done)) →
        membersFromJson name entries members = .ok slots

/-- The slots of a record without repeated keys are read back from an object with its entries, if
each of the slots is. -/
theorem membersFromJson_renderMembers {name : String} {members : List (Member Shape)}
    {entries : List (String × Json)} (hkeys : (keys members).Nodup) :
    ∀ {slots : Record} {done : List (String × Json)}, slots.Conforms members →
      (∀ (i : Nat) v m, slots[i]? = some v → members[i]? = some m → ReadsBack m.shape v) →
      (∀ key ∈ keys members,
        Json.lookup? key entries = Json.lookup? key (renderMembers members slots done)) →
        membersFromJson name entries members = .ok slots := by
  induction members with
  | nil =>
    intro slots done hslots _ _
    obtain rfl := List.eq_nil_of_length_eq_zero hslots.length
    rw [membersFromJson]
  | cons m members ih =>
    intro slots done hslots hread hentries
    obtain ⟨v, rest, rfl, hv, hrest⟩ := hslots.exists_cons
    have hfirst := hread 0 v m rfl rfl
    have hlater := fun i v m hv hm => hread (i + 1) v m hv hm
    cases hnested : m.nested? with
    | some inner =>
      obtain ⟨record, hshape, heq⟩ := membersFromJson_nested hnested members name entries
      rw [hshape] at hv
      obtain ⟨innerSlots, rfl, hinner⟩ := Value.conforms_record_iff.mp hv
      rw [keys_nested hnested] at hkeys hentries
      rw [renderMembers_nested hnested] at hentries
      obtain ⟨-, hkeysRest, hdisjoint⟩ := List.nodup_append.mp hkeys
      -- the entries of the embedded record are not overwritten by those of the other members
      have hown : ∀ key ∈ keys inner, Json.lookup? key entries =
          Json.lookup? key (renderMembers inner innerSlots done) := by
        intro key hkey
        rw [hentries key (List.mem_append_left _ hkey), lookup?_renderMembers members hrest]
        exact fun hother => hdisjoint key hkey key hother rfl
      rw [heq, hfirst.among hshape rfl hown, outcome_bind_ok,
        ih hkeysRest hrest hlater fun key hkey => hentries key (List.mem_append_right _ hkey)]
      rfl
    | none =>
      rw [keys_plain hnested] at hkeys hentries
      rw [renderMembers_plain hnested] at hentries
      obtain ⟨hown, hkeysRest⟩ := List.nodup_cons.mp hkeys
      have hentry : Json.lookup? m.name entries = some (m.shape.render v) := by
        rw [hentries _ List.mem_cons_self, lookup?_renderMembers members hrest hown,
          Json.lookup?_insert_self]
      rw [membersFromJson_plain hnested, memberFromJson, hentry]
      dsimp only
      rw [hfirst.whole, FromJson.inMember, outcome_bind_ok,
        ih hkeysRest hrest hlater fun key hkey => hentries key (List.mem_cons_of_mem _ hkey)]
      rfl

/-! ## Values -/

/-- No record of the shape repeats a key, be it among its own members or among those of its embedded
records. -/
inductive DistinctKeys : Shape → Prop
  | scalar (type : ScalarType) : DistinctKeys (.scalar type)
  | optional {inner : Shape} (h : DistinctKeys inner) : DistinctKeys (.optional inner)
  | array {element : Shape} (h : DistinctKeys element) : DistinctKeys (.array element)
  | set {element : Shape} (h : DistinctKeys element) : DistinctKeys (.set element)
  | tuple {shapes : List Shape} (h : ∀ shape ∈ shapes, DistinctKeys shape) :
      DistinctKeys (.tuple shapes)
  | record {name : String} {members : List (Member Shape)} (here : (keys members).Nodup)
      (h : ∀ m ∈ members, DistinctKeys m.shape) : DistinctKeys (.record name members)
  | range {element : Shape} (h : DistinctKeys element) : DistinctKeys (.range element)
  | multirange {element : Shape} (h : DistinctKeys element) : DistinctKeys (.multirange element)

/-- Where a value may be absent, and where a range may have no bound, one that is there is not
rendered as null. -/
inductive Shows : Shape → Value → Prop
  | scalar (type : ScalarType) (s : Scalar) : Shows (.scalar type) (.scalar s)
  | absent (inner : Shape) : Shows (.optional inner) .null
  | present {inner : Shape} {v : Value} (here : inner.render v ≠ .null) (h : Shows inner v) :
      Shows (.optional inner) v
  | array {element : Shape} {items : List Value} (h : ∀ v ∈ items, Shows element v) :
      Shows (.array element) (.array items)
  | set {element : Shape} {items : List Value} (h : ∀ v ∈ items, Shows element v) :
      Shows (.set element) (.set items)
  | tuple {shapes : List Shape} {items : List Value}
      (h : ∀ (i : Nat) v shape, items[i]? = some v → shapes[i]? = some shape → Shows shape v) :
      Shows (.tuple shapes) (.tuple items)
  | record {name : String} {members : List (Member Shape)} {slots : List Value}
      (h : ∀ (i : Nat) v m, slots[i]? = some v → members[i]? = some m → Shows m.shape v) :
      Shows (.record name members) (.record slots)
  | range {element : Shape} {r : Range Value} (here : ∀ v ∈ r.bounds, element.render v ≠ .null)
      (h : ∀ v ∈ r.bounds, Shows element v) : Shows (.range element) (.range r)
  | multirange {element : Shape} {ranges : List (Range Value)}
      (here : ∀ r ∈ ranges, ∀ v ∈ r.bounds, element.render v ≠ .null)
      (h : ∀ r ∈ ranges, ∀ v ∈ r.bounds, Shows element v) :
      Shows (.multirange element) (.multirange ranges)

/-- The absent value is rendered as null. -/
theorem render_null : ∀ shape : Shape, shape.render .null = .null
  | .optional inner => by rw [render, render_null inner]
  | .scalar _ | .array _ | .set _ | .tuple _ | .record _ _ | .range _ | .multirange _ => rfl

theorem fromJson_optional_of_ne_null {inner : Shape} {j : Json} (h : j ≠ .null) :
    (Shape.optional inner).fromJson j = inner.fromJson j := by
  rw [fromJson, if_neg]
  intro hnull
  cases j with
  | null => exact h rfl
  | _ => cases hnull

/-- What is no record is read back from its own rendering only. -/
theorem ReadsBack.of_whole {shape : Shape} {v : Value} (hshape : ∀ name members,
    shape ≠ .record name members) (whole : shape.fromJson (shape.render v) = .ok v) :
    ReadsBack shape v where
  whole := whole
  among hrecord := (hshape _ _ hrecord).elim

/-- Values are read back, part by part. -/
theorem readsBack {shape : Shape} {v : Value} (hv : v.Conforms shape) (hkeys : shape.DistinctKeys)
    (hall : v.All Scalar.Told Range.Plain) (hshows : shape.Shows v) : ReadsBack shape v := by
  induction hv with
  | @scalar s type hasType =>
    cases hall with
    | scalar here =>
      refine .of_whole nofun ?_
      rw [fromJson, ← hasType]
      exact outcome_map_eq_ok.mpr ⟨s, s.fromJson_toJson here, rfl⟩
  | null inner =>
    refine .of_whole nofun ?_
    rw [render_null]
    rfl
  | @present v inner hv ih =>
    refine .of_whole nofun ?_
    cases hkeys with
    | optional hkeys =>
      cases hshows with
      | absent =>
        rw [render_null]
        rfl
      | present here hshows =>
        rw [render, fromJson_optional_of_ne_null here]
        exact (ih hkeys hall hshows).whole
  | @array items element _ ih =>
    cases hkeys with
    | array hkeys =>
      cases hall with
      | array hall =>
        cases hshows with
        | array hshows =>
          refine .of_whole nofun ?_
          have hitems := mapM_map_eq_ok fun v hv =>
            (ih v hv hkeys (hall v hv) (hshows v hv)).whole
          rw [render, fromJson, Json.asArray?, FromJson.present, outcome_bind_ok, hitems]
          rfl
  | @set items element _ ih =>
    cases hkeys with
    | set hkeys =>
      cases hall with
      | set hall =>
        cases hshows with
        | set hshows =>
          refine .of_whole nofun ?_
          have hitems := mapM_map_eq_ok fun v hv =>
            (ih v hv hkeys (hall v hv) (hshows v hv)).whole
          rw [render, fromJson, Json.asArray?, FromJson.present, outcome_bind_ok, hitems]
          rfl
  | @tuple items shapes hlength _ ih =>
    cases hkeys with
    | tuple hkeys =>
      cases hall with
      | tuple hall =>
        cases hshows with
        | tuple hshows =>
          refine .of_whole nofun ?_
          obtain ⟨hcount, hitems⟩ := itemsFromJson_renderItems hlength fun i v shape hv hshape =>
            (ih i v shape hv hshape (hkeys shape (List.mem_of_getElem? hshape))
              (hall v (List.mem_of_getElem? hv)) (hshows i v shape hv hshape)).whole
          rw [render, fromJson, Json.asArray?, FromJson.present, outcome_bind_ok,
            if_neg (Decidable.not_not.mpr hcount), hitems]
          rfl
  | @record slots name members hlength hslots ih =>
    cases hkeys with
    | record here hkeys =>
      cases hall with
      | record hall =>
        cases hshows with
        | record hshows =>
          have hread : ∀ {entries done : List (String × Json)}, (∀ key ∈ keys members,
              Json.lookup? key entries = Json.lookup? key (renderMembers members slots done)) →
                membersFromJson name entries members = .ok slots :=
            membersFromJson_renderMembers here ⟨hlength, hslots⟩ fun i v m hv hm =>
              ih i v m hv hm (hkeys m (List.mem_of_getElem? hm)) (hall v (List.mem_of_getElem? hv))
                (hshows i v m hv hm)
          refine ⟨?_, ?_⟩
          · rw [render, fromJson, Json.asObject?, FromJson.present, outcome_bind_ok,
              hread fun _ _ => rfl]
            rfl
          · rintro _ _ _ entries done ⟨⟩ ⟨⟩ hentries
            exact hread hentries
  | @range r element _ ih =>
    cases hkeys with
    | range hkeys =>
      cases hall with
      | range hplain hall =>
        cases hshows with
        | range here hshows =>
          refine .of_whole nofun ?_
          have hrange := FromJson.range_toJson hplain fun v hv =>
            ⟨(ih v hv hkeys (hall v hv) (hshows v hv)).whole, here v hv⟩
          rw [render, fromJson, hrange]
          rfl
  | @multirange ranges element _ ih =>
    cases hkeys with
    | multirange hkeys =>
      cases hall with
      | multirange hplain hall =>
        cases hshows with
        | multirange here hshows =>
          refine .of_whole nofun ?_
          have hranges := mapM_map_eq_ok fun r hr => FromJson.range_toJson (hplain r hr) fun v hv =>
            ⟨(ih r hr v hv hkeys (hall r hr v hv) (hshows r hr v hv)).whole, here r hr v hv⟩
          rw [render, fromJson, Json.asArray?, FromJson.present, outcome_bind_ok, hranges]
          rfl

/-- Reading is the inverse of rendering, for values whose scalars JSON can say, in records that do
not repeat a key, where nothing that is there is rendered as null in place of what may be absent. -/
theorem fromJson_render {shape : Shape} {v : Value} (hv : v.Conforms shape)
    (hkeys : shape.DistinctKeys) (hall : v.All Scalar.Told Range.Plain) (hshows : shape.Shows v) :
    shape.fromJson (shape.render v) = .ok v :=
  (readsBack hv hkeys hall hshows).whole

/-- A record with an embedded one, in which a text is absent at two levels and a member that is no
record is marked as embedded; and a range without an upper bound. -/
theorem fromJson_render_order :
    let audit : List (Member Shape) :=
      [⟨"note", none, .optional (.optional (.scalar .str)), false⟩,
        ⟨"took", none, .scalar .duration, true⟩]
    let shape := Shape.record "Order"
      [⟨"id", none, .scalar .uuid, false⟩, ⟨"audit", none, .record "Audit" audit, true⟩,
        ⟨"span", none, .range (.scalar .int32), false⟩]
    let v := Value.record [.scalar (.uuid .nil),
      .record [.null, .scalar (.duration (.ofMicros 5))],
      .range ⟨some (.scalar (.int32 1)), none, true, false, false⟩]
    v.Conforms shape ∧ shape.DistinctKeys ∧ v.All Scalar.Told Range.Plain ∧ shape.Shows v ∧
      shape.fromJson (shape.render v) = .ok v := by
  intro audit shape v
  have hbounds : ∀ {P : Value → Prop}, P (.scalar (.int32 1)) →
      ∀ w ∈ Range.bounds ⟨some (.scalar (.int32 1)), none, true, false, false⟩, P w :=
    fun h w hw => List.mem_singleton.mp hw ▸ h
  have haudit : Record.Conforms [.null, .scalar (.duration (.ofMicros 5))] audit :=
    Record.Conforms.cons_iff.mpr ⟨.null _, Record.Conforms.cons_iff.mpr ⟨.scalar rfl, .nil⟩⟩
  have hv : v.Conforms shape := by
    refine Value.conforms_record_iff.mpr ⟨_, rfl, ?_⟩
    refine Record.Conforms.cons_iff.mpr ⟨.scalar rfl, Record.Conforms.cons_iff.mpr ⟨?_, ?_⟩⟩
    · exact Value.conforms_record_iff.mpr ⟨_, rfl, haudit⟩
    · exact Record.Conforms.cons_iff.mpr ⟨.range (hbounds (.scalar rfl)), .nil⟩
  have hkeys : shape.DistinctKeys := by
    refine .record (by decide) ?_
    simp only [List.forall_mem_cons]
    refine ⟨.scalar _, .record (by decide) ?_, .range (.scalar _), nofun⟩
    simp only [audit, List.forall_mem_cons]
    exact ⟨.optional (.optional (.scalar _)), .scalar _, nofun⟩
  have hall : v.All Scalar.Told Range.Plain := by
    refine .record ?_
    simp only [List.forall_mem_cons]
    refine ⟨.scalar trivial, .record ?_, .range nofun (hbounds (.scalar trivial)), nofun⟩
    simp only [List.forall_mem_cons]
    exact ⟨.null, .scalar ⟨5, rfl⟩, nofun⟩
  have hshows : shape.Shows v := by
    refine .record ?_
    rintro (_ | _ | _ | i) w m ⟨⟩ ⟨⟩
    · exact .scalar ..
    · refine .record ?_
      rintro (_ | _ | i) w m ⟨⟩ ⟨⟩
      · exact .absent _
      · exact .scalar ..
    · exact .range (hbounds nofun) (hbounds (.scalar ..))
  exact ⟨hv, hkeys, hall, hshows, fromJson_render hv hkeys hall hshows⟩

end Shape

end TypedWire
