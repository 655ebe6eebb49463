import TypedWire.Proofs.Binding.Suggested
import TypedWire.Proofs.Codec.Sent
import TypedWire.Proofs.Descriptor.Parse

/-!
# What a record keeps of what was sent

Fields of one name share a slot, and of their values the slot keeps the last. A type that is bound
to the shape that it suggests has a slot for every name, at the place of the first field that has
it, and no other is in use.

- `readParts_stores`, `readParts_at`: the stores that come from the fields behind a field.
- `Record.Keeps`: what is found in a record that was decoded; `Lossless`: fields that do not get in
  each other's way.
- `Descriptor.FirstSlots.used_iff`: which slots of a suggested shape are in use.
- `Descriptor.bind_shapeFor_keeps`: what is kept by a type that is bound to the shape that it
  suggests.
-/

namespace TypedWire

/-! ## Stores and the fields that they come from -/

section

variable {parts : List (BoundField Codec × Option Bytes)} {done stores : List Store}

theorem readParts_append (parts parts' : List (BoundField Codec × Option Bytes))
    (done : List Store) :
    readParts (parts ++ parts') done = readParts parts done >>= readParts parts' := by
  induction parts generalizing done with
  | nil => rfl
  | cons part parts ih =>
    obtain ⟨⟨name, required, flags, target⟩, payload⟩ := part
    cases target with
    | skip => exact ih done
    | slot path codec =>
      cases payload with
      | none =>
        cases required with
        | true => rfl
        | false => exact ih done
      | some payload =>
        rw [List.cons_append, readParts, readParts]
        cases codec.decode.toEnd payload with
        | ok found => exact ih _
        | error e => rfl

/-- The stores that are added come from fields that were sent with a payload. -/
theorem readParts_stores (h : readParts parts done = .ok stores) :
    ∃ added, stores = done ++ added ∧ ∀ st ∈ added, ∃ b payload codec,
      (b, some payload) ∈ parts ∧ b.target = .slot st.path codec := by
  induction parts generalizing done with
  | nil =>
    obtain rfl := Except.ok.inj h
    exact ⟨[], (List.append_nil _).symm, List.forall_mem_nil _⟩
  | cons part parts ih =>
    -- the fields behind the first one add what they add
    have hlater : ∀ {done}, readParts parts done = .ok stores → ∃ added, stores = done ++ added ∧
        ∀ st ∈ added, ∃ b payload codec, (b, some payload) ∈ part :: parts ∧
          b.target = .slot st.path codec := by
      intro done h
      obtain ⟨added, hstores, hadded⟩ := ih h
      refine ⟨added, hstores, fun st hst => ?_⟩
      obtain ⟨b, payload, codec, hmem, htarget⟩ := hadded st hst
      exact ⟨b, payload, codec, List.mem_cons_of_mem _ hmem, htarget⟩
    obtain ⟨⟨name, required, flags, target⟩, payload⟩ := part
    cases target with
    | skip => exact hlater h
    | slot path codec =>
      cases payload with
      | none =>
        rw [readParts] at h
        cases required with
        | true => cases h
        | false => exact hlater h
      | some payload =>
        rw [readParts] at h
        split at h
        · rename_i value tail _
          obtain ⟨added, rfl, hadded⟩ := hlater h
          refine ⟨⟨path, value⟩ :: added, by rw [List.append_assoc, List.singleton_append], ?_⟩
          exact List.forall_mem_cons.mpr
            ⟨⟨_, payload, codec, List.mem_cons_self, rfl⟩, hadded⟩
        · cases h

/-- The value of a field that was sent with a payload is stored, and the stores behind it come from
fields behind it. -/
theorem readParts_at (h : readParts parts done = .ok stores) {i : Nat} {b : BoundField Codec}
    {payload : Bytes} {path : StoragePath} {codec : Codec} (hi : parts[i]? = some (b, some payload))
    (htarget : b.target = .slot path codec) :
    ∃ v before later, codec.decode payload = .ok (v, []) ∧
      stores = before ++ ⟨path, v⟩ :: later ∧
        ∀ st ∈ later, ∃ j c payload' codec', i < j ∧ parts[j]? = some (c, some payload') ∧
          c.target = .slot st.path codec' := by
  obtain ⟨hlt, hget⟩ := List.getElem?_eq_some_iff.mp hi
  have hsplit : parts = parts.take i ++ (b, some payload) :: parts.drop (i + 1) := by
    rw [← hget, List.getElem_cons_drop, List.take_append_drop]
  rw [hsplit, readParts_append] at h
  obtain ⟨before, -, h⟩ := outcome_bind_eq_ok.mp h
  obtain ⟨name, required, flags, target⟩ := b
  obtain rfl := htarget
  rw [readParts] at h
  split at h
  · rename_i v tail hend
    obtain ⟨later, rfl, hlater⟩ := readParts_stores h
    refine ⟨v, before, later, Read.toEnd_eq_ok hend, by rw [List.append_assoc, List.singleton_append],
      fun st hst => ?_⟩
    obtain ⟨c, payload', codec', hmem, hc⟩ := hlater st hst
    obtain ⟨k, hk⟩ := List.mem_iff_getElem?.mp hmem
    rw [List.getElem?_drop] at hk
    exact ⟨i + 1 + k, c, payload', codec', by omega, hk, hc⟩
  · cases h

end

/-! ## Records that keep what was sent -/

/-- The value of every field that was sent with a payload is found in the record, unless a later
field of the same name was sent with a payload as well. -/
def Record.Keeps (rec : Record) (parts : List (BoundField Codec × Option Bytes)) : Prop :=
  ∀ (i : Nat) b payload path codec, parts[i]? = some (b, some payload) →
    b.target = .slot path codec → ∃ v, codec.decode payload = .ok (v, []) ∧
      (rec.slot? path = some v ∨
        ∃ j c later, i < j ∧ parts[j]? = some (c, some later) ∧ c.name = b.name)

/-- No two fields share a slot, and no slot is without a field. -/
structure Lossless (fields : List (BoundField Codec)) (template : Record) : Prop where
  apart : ∀ (i j : Nat) b c path codec codec', fields[i]? = some b → fields[j]? = some c →
    b.target = .slot path codec → c.target = .slot path codec' → i = j
  used : ∀ k, k < template.length → ∃ b ∈ fields, ∃ codec, b.target = .slot [k] codec

namespace Descriptor

section

variable {layout : RecordLayout} {members : List (Member Shape)}
  {fields : List (Field Descriptor)} {bound : List (BoundField Codec)}

/-- Stores of what was sent leave a record that keeps it. -/
theorem FieldsBind.keeps (h : FieldsBind layout members fields bound)
    {parts : List (BoundField Codec × Option Bytes)} {stores : List Store} {rec rec' : Record}
    (hparts : parts.map Prod.fst = bound) (hread : readParts parts [] = .ok stores)
    (hall : Record.StoredAll members stores rec rec') : rec'.Keeps parts := by
  intro i b payload path codec hi htarget
  have hbound : ∀ {j : Nat} {c payload}, parts[j]? = some (c, payload) → bound[j]? = some c := by
    intro j c payload hj
    rw [← hparts, List.getElem?_map, hj]
    rfl
  obtain ⟨f, shape, -, hresolve, -⟩ := resolves_at h.length h.field (hbound hi) htarget
  obtain ⟨v, before, later, hdecode, rfl, hlater⟩ := readParts_at hread hi htarget
  refine ⟨v, hdecode, ?_⟩
  by_cases hlast : ∀ st ∈ later, st.path ≠ path
  · exact .inl (hall.slot?_of_last (.of_resolve? hresolve) hlast)
  · -- the slot is stored to once more, which takes a field of the same name
    simp only [ne_eq, not_forall, not_not] at hlast
    obtain ⟨st, hst, hpath⟩ := hlast
    obtain ⟨j, c, payload', codec', hlt, hj, htarget'⟩ := hlater st hst
    refine .inr ⟨j, c, payload', hlt, hj, ?_⟩
    exact (h.path_eq_iff_name (hbound hj) (hbound hi) htarget' htarget).mp hpath

end

/-- A record that sends all its fields is decoded from the bytes of fields, and keeps what they
were sent with. -/
theorem Binds.decode_record_keeps {d : Descriptor} {shape : Shape} {id : Uuid}
    {layout : RecordLayout} {fields : List (BoundField Codec)} {template : Record}
    (h : Binds d shape (.record id layout fields template)) (hlayout : layout ≠ .input)
    {bs left : Bytes} {v : Value}
    (hrun : (Codec.record id layout fields template).decode bs = .ok (v, left)) :
    ∃ parts bytes, ∃ rec : Record, v = .record rec ∧ parts.map Prod.fst = fields ∧
      bs = countBytes fields.length ++ (bytes ++ left) ∧ Sends layout parts bytes ∧
        rec.Keeps parts := by
  obtain ⟨name, members, rfl, rfl, -, hbound⟩ := h.record_fields
  obtain ⟨stores, rec, hreads, rfl, hall⟩ := decode_record_eq_ok hbound hrun
  obtain ⟨parts, bytes, hparts, -, rfl, hsends, hread⟩ := Codec.exists_sent_record hlayout hreads
  exact ⟨parts, bytes, rec, rfl, hparts, rfl, hsends, hbound.keeps hparts hread hall⟩

/-- Under distinct names no two fields of a record share a slot. -/
theorem Binds.apart {d : Descriptor} {shape : Shape} {codec : Codec} (h : Binds d shape codec)
    (hnames : d.DistinctNames) {id : Uuid} {layout : RecordLayout}
    {fields : List (BoundField Codec)} {template : Record}
    (hpart : (Codec.record id layout fields template).Within codec) {i j : Nat}
    {b c : BoundField Codec} {path : StoragePath} {inner inner' : Codec}
    (hb : fields[i]? = some b) (hc : fields[j]? = some c) (htarget : b.target = .slot path inner)
    (htarget' : c.target = .slot path inner') : i = j := by
  obtain ⟨d', shape', hbinds, hall⟩ := h.part hpart
  obtain ⟨_, members, -, -, hkind, hbound⟩ := hbinds.record_fields
  have hname := (hbound.path_eq_iff_name hb hc htarget htarget').mp rfl
  have honly := hbound.onlyName ((hall _ hnames).here hkind) hc (hbound.name_ne_typeId hc htarget')
  exact honly i (by rw [hb, hc, Option.map_some, Option.map_some, hname])

/-! ## The slots of a suggested shape -/

/-- Below fields that are the only ones of their names, the records of a codec for the shape that a
type suggests have a slot for each field with a value. -/
theorem Infers.length_template {d : Descriptor} {shape : Shape} {codec : Codec} (h : Infers d shape)
    (hbinds : Binds d shape codec) {id : Uuid} {layout : RecordLayout}
    {fields : List (BoundField Codec)} {template : Record}
    (hpart : (Codec.record id layout fields template).OnlyWithin codec) :
    template.length = (BoundField.values fields).length := by
  obtain ⟨d', shape', hinfers', hbinds'⟩ := h.part hbinds hpart
  obtain ⟨name, members, rfl, rfl, -, hbound⟩ := hbinds'.record_fields
  cases hinfers' with
  | record _ _ arity _ =>
    rw [(Shape.defaultRecord_conforms _).length, List.length_zipWith, arity, Nat.min_self]
    exact hbound.forall₂_values.length_eq

/-- A slot is that of a field exactly if the field at its position is the first of its name. -/
theorem FirstSlots.used_iff {layout : RecordLayout} {members : List (Member Shape)}
    {fields : List (Field Descriptor)} {bound : List (BoundField Codec)} (h : FirstSlots bound)
    (hbound : FieldsBind layout members fields bound) {k : Nat} {b : BoundField Codec}
    (hb : (BoundField.values bound)[k]? = some b) :
    (∃ c ∈ bound, ∃ codec, c.target = .slot [k] codec) ↔
      ((BoundField.values bound).map BoundField.name).idxOf b.name = k := by
  constructor
  · rintro ⟨c, hc, codec, htarget⟩
    obtain ⟨i, hi⟩ := List.mem_iff_getElem?.mp hc
    have hvalue := hbound.name_ne_typeId hi htarget
    have hmem : c ∈ BoundField.values bound := List.mem_filter.mpr ⟨hc, decide_eq_true hvalue⟩
    obtain ⟨j, hj⟩ := List.mem_iff_getElem?.mp hmem
    obtain ⟨codec', hfirst⟩ := h j c hj
    obtain ⟨hpath, -⟩ := Target.slot.inj (htarget.symm.trans hfirst)
    obtain ⟨hk, -⟩ := List.cons.inj hpath
    -- the first field of a name has the name, so that the two fields have one
    have hfound : ((BoundField.values bound).map BoundField.name)[k]? = some c.name := by
      rw [hk]
      exact List.getElem?_idxOf (List.mem_map_of_mem hmem)
    rw [List.getElem?_map, hb, Option.map_some] at hfound
    rw [Option.some.inj hfound, hk]
  · intro hfirst
    obtain ⟨codec, htarget⟩ := h k b hb
    rw [hfirst] at htarget
    exact ⟨b, (List.mem_filter.mp (List.mem_of_getElem? hb)).1, codec, htarget⟩

/-- Under distinct names nothing is lost to the shape that a type suggests. -/
theorem Infers.lossless {d : Descriptor} {shape : Shape} {codec : Codec} (h : Infers d shape)
    (hbinds : Binds d shape codec) (hnames : d.DistinctNames) {id : Uuid} {layout : RecordLayout}
    {fields : List (BoundField Codec)} {template : Record}
    (hpart : (Codec.record id layout fields template).Within codec) : Lossless fields template where
  apart _ _ _ _ _ _ _ hb hc htarget htarget' :=
    hbinds.apart hnames hpart hb hc htarget htarget'
  used k hk := by
    have honly := hbinds.onlyWithin hnames hpart
    rw [h.length_template hbinds honly] at hk
    have hb := List.getElem?_eq_getElem hk
    obtain ⟨inner, htarget⟩ := (h.firstSlots hbinds honly).at_ (hbinds.nodup_values hnames hpart) hb
    exact ⟨_, (List.mem_filter.mp (List.getElem_mem hk)).1, inner, htarget⟩

/-- A type that is bound to the shape that it suggests loses no more than the values of fields that
share their names. -/
theorem bind_shapeFor_keeps {d : Descriptor} {required : Bool} {shape : Shape} {codec : Codec}
    (hshape : d.shapeFor required = .ok shape) (h : d.bind required shape = .ok codec) :
    (∀ id layout fields template, (Codec.record id layout fields template).Within codec →
      (∀ (i j : Nat) b c path path' inner inner', fields[i]? = some b → fields[j]? = some c →
        b.target = .slot path inner → c.target = .slot path' inner' →
          (path = path' ↔ b.name = c.name)) ∧
      (layout ≠ .input → ∀ bs v left,
        (Codec.record id layout fields template).decode bs = .ok (v, left) →
          ∃ parts bytes, ∃ rec : Record, v = .record rec ∧ parts.map Prod.fst = fields ∧
            bs = countBytes fields.length ++ (bytes ++ left) ∧ Sends layout parts bytes ∧
              rec.Keeps parts)) ∧
    (∀ id layout fields template, (Codec.record id layout fields template).OnlyWithin codec →
      template.length = (BoundField.values fields).length ∧ FirstSlots fields ∧
        ∀ (k : Nat) b, (BoundField.values fields)[k]? = some b →
          ((∃ c ∈ fields, ∃ inner, c.target = .slot [k] inner) ↔
            ((BoundField.values fields).map BoundField.name).idxOf b.name = k)) ∧
    (d.DistinctNames → ∀ id layout fields template,
      (Codec.record id layout fields template).Within codec → Lossless fields template) := by
  obtain ⟨inner, hinfers, hbind⟩ := build_of_shapeFor hshape
  have hbinds := build_ok_iff.mp (hbind.symm.trans h)
  refine ⟨fun id layout fields template hpart => ?_, fun id layout fields template hpart => ?_,
    fun hnames id layout fields template hpart => hinfers.lossless hbinds hnames hpart⟩
  · obtain ⟨d', shape', hpartBinds, -⟩ := hbinds.part hpart
    obtain ⟨_, members, -, -, -, hbound⟩ := hpartBinds.record_fields
    refine ⟨fun i j b c path path' inner inner' hb hc htarget htarget' => ?_,
      fun hlayout bs v left hrun => hpartBinds.decode_record_keeps hlayout hrun⟩
    exact hbound.path_eq_iff_name hb hc htarget htarget'
  · obtain ⟨d', shape', -, hpartBinds⟩ := hinfers.part hbinds hpart
    obtain ⟨_, members, -, -, -, hbound⟩ := hpartBinds.record_fields
    have hfirst := hinfers.firstSlots hbinds hpart
    exact ⟨hinfers.length_template hbinds hpart, hfirst, fun k b hb => hfirst.used_iff hbound hb⟩

/-- A pair of numbers of different names. -/
theorem bind_shapeFor_keeps_pair :
    let int16 := ofFields .baseScalar ScalarType.int16.id []
    let d := ofFields .namedTuple .nil [.named "x" int16 true, .named "y" int16 true]
    let shape := Shape.record d.recordName
      [⟨"x", none, .scalar .int16, false⟩, ⟨"y", none, .scalar .int16, false⟩]
    d.DistinctNames ∧ d.shapeFor true = .ok shape ∧ ∃ fields template,
      d.bind true shape = .ok (.record .nil .named fields template) ∧ Lossless fields template := by
  intro int16 d shape
  have hint16 : int16.DistinctNames := .node nofun (List.forall_mem_nil _)
  have hnames : d.DistinctNames := by
    refine .node (fun _ => by decide) (List.forall_mem_cons.mpr ⟨hint16, ?_⟩)
    exact List.forall_mem_singleton.mpr hint16
  have hshape : d.shapeFor true = .ok shape := rfl
  have hbind : d.bind true shape = .ok (.record .nil .named _ _) := rfl
  have hkeeps := (bind_shapeFor_keeps hshape hbind).2.2 hnames
  exact ⟨hnames, hshape, _, _, hbind, hkeeps _ _ _ _ .whole⟩

/-- Of two fields of one name the first is lost: it shares a slot with the other, while the slot at
the position of the other is that of no field. -/
theorem bind_shapeFor_repeated :
    ∃ d shape id first second template,
      Descriptor.parse .v1 [2, 0, 0, 0, 0, 0, 0, 0, 0, 0, 0, 0, 0, 0, 0, 1, 3,
        5, 0, 0, 0, 0, 0, 0, 0, 0, 0, 0, 0, 0, 0, 0, 0, 1,
        0, 2, 0, 0, 0, 1, 97, 0, 0, 0, 0, 0, 1, 97, 0, 0] = .ok d ∧
      d.shapeFor true = .ok shape ∧
      d.bind true shape = .ok (.record id .named [first, second] template) ∧
      template.length = 2 ∧
      (∃ codec, first.target = .slot [0] codec ∧ second.target = .slot [0] codec) ∧
      (∀ b ∈ [first, second], ∀ codec, b.target ≠ .slot [1] codec) ∧
      (Codec.record id .named [first, second] template).decode
        [0, 0, 0, 2, 0, 0, 0, 0, 0, 0, 0, 2, 0, 1, 0, 0, 0, 0, 0, 0, 0, 2, 0, 2] =
          .ok (.record [.scalar (.int16 2), .scalar (.int16 0)], []) := by
  let int16 := ofFields .baseScalar ScalarType.int16.id []
  let codec := Codec.scalar ScalarType.int16.id .int16
  let bound : BoundField Codec := ⟨"a", true, ⟨0⟩, .slot [0] codec⟩
  refine ⟨ofFields .namedTuple (.ofNat 1) [.named "a" int16 true, .named "a" int16 true], _, _,
    bound, bound, _, ?_, rfl, rfl, rfl, ⟨codec, rfl, rfl⟩, ?_, rfl⟩
  · rw [Descriptor.parse, Grammar.nodes_of_next rfl, Grammar.nodes_of_next rfl, Stream.nodes]
    rfl
  · intro b hb codec' htarget
    obtain rfl : b = bound := by simpa using hb
    cases htarget

end Descriptor

end TypedWire
