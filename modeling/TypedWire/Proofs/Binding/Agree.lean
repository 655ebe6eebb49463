import TypedWire.Proofs.Codec.Content
import TypedWire.Proofs.Codec.Soundness

/-!
# Two codecs of one type

Two codecs of one type, for two shapes, read the same bytes alike: both fail with the same failure,
or both leave the same bytes unread. What they store for the fields of the wire is the same up to
the places of the slots and the choice between arrays and sets.

- `Descriptor.Binds.record_inv` and its like: what a type settles of its codecs, whatever the shape.
- `Descriptor.FieldsBind.sameSlot`: the slots of a field say the same in two records.
- `Descriptor.Binds.agree_decode`: two codecs of one type agree.
- `Descriptor.bind_agree`: the same of bound codecs, byte string by byte string.
-/

namespace TypedWire

open Read (Agree AgreeOn)

/-! ## What a type settles of its codecs -/

namespace Descriptor.Binds

section

variable {d : Descriptor} {shape shape' : Shape} {codec codec' : Codec}

/-- The codec of an array or a set type reads elements, whatever the shape makes of them. -/
theorem items_inv (h : Binds d shape codec) (kind : d.kind = .array ∨ d.kind = .set) :
    ∃ f rest inner element, d.fields = f :: rest ∧ codec.element? = some element ∧
      Binds f.desc inner element := by
  cases h with
  | array _ fields element | set _ fields element | setAsArray _ fields element =>
    exact ⟨_, _, _, _, fields, rfl, element⟩
  | _ => grind [Kind.isRecord]

theorem scalar_inv (h : Binds d shape codec)
    (kind : d.kind = .baseScalar ∨ d.kind = .scalar ∨ d.kind = .enum) :
    ∃ type, d.scalarBase = .ok type ∧ codec = .scalar d.id type := by
  cases h with
  | scalar _ base => exact ⟨_, base, rfl⟩
  | _ => grind [Kind.isRecord]

theorem tuple_inv (h : Binds d shape codec) (kind : d.kind = .tuple) :
    ∃ (shapes : List Shape) (codecs : List Codec), codec = .tuple d.id codecs ∧
      shapes.length = d.fields.length ∧ codecs.length = d.fields.length ∧
        ∀ (i : Nat) f shape codec, d.fields[i]? = some f → shapes[i]? = some shape →
          codecs[i]? = some codec → Binds f.desc shape.required codec := by
  cases h with
  | tuple _ arity length _ items => exact ⟨_, _, rfl, arity, length, items⟩
  | _ => grind [Kind.isRecord]

theorem record_inv (h : Binds d shape codec) (kind : d.kind.isRecord = true) :
    ∃ name members bound, shape = .record name members ∧
      codec = .record d.id (recordLayout d.kind) bound (Shape.defaultRecord members) ∧
        FieldsBind (recordLayout d.kind) members d.fields bound := by
  cases h with
  | record _ _ length fields codecs => exact ⟨_, _, _, rfl, rfl, length, fields, codecs⟩
  | _ => grind [Kind.isRecord]

theorem range_inv (h : Binds d shape codec) (kind : d.kind = .range) :
    ∃ f rest inner element, d.fields = f :: rest ∧ codec = .range d.id element ∧
      Binds f.desc inner element := by
  cases h with
  | range _ fields _ element => exact ⟨_, _, _, _, fields, rfl, element⟩
  | _ => grind [Kind.isRecord]

theorem multirange_inv (h : Binds d shape codec) (kind : d.kind = .multirange) :
    ∃ f rest inner element, d.fields = f :: rest ∧ codec = .multirange d.id element ∧
      Binds f.desc inner element := by
  cases h with
  | multirange _ fields _ element => exact ⟨_, _, _, _, fields, rfl, element⟩
  | _ => grind [Kind.isRecord]

end

end Descriptor.Binds

/-! ## Records -/

namespace Descriptor

section

variable {layout : RecordLayout} {members members' : List (Member Shape)}
  {fields : List (Field Descriptor)} {bound bound' : List (BoundField Codec)}

/-- The stores of two records for one field go to the slots of a field together or not at all. -/
theorem FieldsBind.aligned (h : FieldsBind layout members fields bound)
    (h' : FieldsBind layout members' fields bound') {part : Nat × Bytes} {st st' : Store}
    (hsame : Codec.SameStore bound bound' part st st') {k : Nat} {b b' : BoundField Codec}
    {path path' : StoragePath} {codec codec' : Codec} (hb : bound[k]? = some b)
    (hb' : bound'[k]? = some b') (htarget : b.target = .slot path codec)
    (htarget' : b'.target = .slot path' codec') : st.path = path ↔ st'.path = path' := by
  obtain ⟨c, c', _, _, hc, hc', hslot, hslot', -⟩ := hsame
  obtain ⟨f, hf⟩ := h.exists_field hc
  obtain ⟨g, hg⟩ := h.exists_field hb
  rw [h.path_eq_iff hf hg hc hb hslot htarget, h'.path_eq_iff hf hg hc' hb' hslot' htarget']

/-- The fields of one type in the codecs of two records agree, if their codecs do. -/
theorem FieldsBind.fieldsAgree (h : FieldsBind layout members fields bound)
    (h' : FieldsBind layout members' fields bound')
    (hcodecs : ∀ (k : Nat) b b' path path' codec codec', bound[k]? = some b →
      bound'[k]? = some b' → b.target = .slot path codec → b'.target = .slot path' codec' →
        AgreeOn codec.decode codec'.decode (Codec.SameContent codec codec')) :
    Codec.FieldsAgree bound bound' := by
  have hfields : ∀ (k : Nat) b b', bound[k]? = some b → bound'[k]? = some b' →
      ∃ f, FieldOf layout members f b ∧ FieldOf layout members' f b' := by
    intro k b b' hb hb'
    obtain ⟨f, hf⟩ := h.exists_field hb
    exact ⟨f, h.field k f b hf hb, h'.field k f b' hf hb'⟩
  refine ⟨h.length.trans h'.length.symm, fun k b b' hb hb' => ?_, fun k b b' hb hb' => ?_,
    fun k b b' hb hb' => ?_⟩
  all_goals obtain ⟨f, hfield, hfield'⟩ := hfields k b b' hb hb'
  · exact hfield.name.trans hfield'.name.symm
  · exact hfield.required.trans hfield'.required.symm
  · have hgoes := hfield.target
    have hgoes' := hfield'.target
    cases htarget : b.target with
    | skip =>
      rw [htarget] at hgoes
      cases htarget' : b'.target with
      | skip => exact .skip
      | slot path' codec' =>
        rw [htarget'] at hgoes'
        cases hgoes with
        | skip typeId =>
          cases hgoes' with
          | slot value _ _ => exact (value typeId).elim
    | slot path codec =>
      rw [htarget] at hgoes
      cases htarget' : b'.target with
      | skip =>
        rw [htarget'] at hgoes'
        cases hgoes' with
        | skip typeId =>
          cases hgoes with
          | slot value _ _ => exact (value typeId).elim
      | slot path' codec' =>
        exact .slot (hcodecs k b b' path path' codec codec' hb hb' htarget htarget')

/-- The slots of a field in two records say the same after stores that agree. -/
theorem FieldsBind.sameSlot (h : FieldsBind layout members fields bound)
    (h' : FieldsBind layout members' fields bound') {sent : List (Nat × Bytes)}
    {stores stores' : List Store} {rec rec' out out' : Record}
    (hstores : Aligned (Codec.SameStore bound bound') sent stores stores')
    (hall : Record.StoredAll members stores rec out)
    (hall' : Record.StoredAll members' stores' rec' out') {k : Nat} {b b' : BoundField Codec}
    (hb : bound[k]? = some b) (hb' : bound'[k]? = some b')
    (htargets : Codec.TargetsAgree b.target b'.target) :
    Codec.SameSlot sent ⟨bound, rec, out⟩ ⟨bound', rec', out'⟩ b.target b'.target := by
  cases htarget : b.target with
  | skip =>
    rw [htarget] at htargets
    generalize b'.target = target' at htargets ⊢
    cases htargets
    exact .skip
  | slot path codec =>
    cases htarget' : b'.target with
    | skip =>
      rw [htarget, htarget'] at htargets
      cases htargets
    | slot path' codec' =>
      obtain ⟨_, _, shape, _, _, hresolve, _⟩ :=
        resolves_of_mem h.length h.field (List.mem_of_getElem? hb) htarget
      obtain ⟨_, _, shape', _, _, hresolve', _⟩ :=
        resolves_of_mem h'.length h'.field (List.mem_of_getElem? hb') htarget'
      have hlen : stores.length = stores'.length :=
        hstores.length.1.trans hstores.length.2.symm
      -- which fields share a slot is a matter of their names, so it is the same in both records
      have haligned : ∀ (i : Nat) st st', stores[i]? = some st → stores'[i]? = some st' →
          (st.path = path ↔ st'.path = path') := by
        intro i st st' hst hst'
        obtain ⟨part, _, -, hst'', hsame⟩ := hstores.at_second hst
        obtain rfl := Option.some.inj (hst'.symm.trans hst'')
        exact h.aligned h' hsame hb hb' htarget htarget'
      rcases hall.pair hall' (.of_resolve? hresolve) (.of_resolve? hresolve') hlen haligned with
        ⟨i, st, st', hst, hst', rfl, rfl, hlast, hlast', hslot, hslot'⟩ |
        ⟨hnone, hnone', hslot, hslot'⟩
      · -- the last store to either slot is for the same part of what was sent
        obtain ⟨part, _, hpart, hst'', hsame⟩ := hstores.at_second hst
        obtain rfl := Option.some.inj (hst'.symm.trans hst'')
        obtain ⟨c, c', last, last', hc, hc', hlasts, hlasts', hcontent⟩ := hsame
        refine .present hpart hc hc' hlasts hlasts' ?_ ?_ hslot hslot' hcontent
        · intro j later hlt hj hgoes
          obtain ⟨st, st', hst, -, hsame⟩ := hstores.at_first hj
          exact hlast j st hlt hst (hsame.path_eq hgoes)
        · intro j later hlt hj hgoes
          obtain ⟨st, st', -, hst', hsame⟩ := hstores.at_first hj
          exact hlast' j st' hlt hst' (hsame.path_eq' hgoes)
      · refine .absent ?_ ?_ hslot hslot'
        · intro part hpart hgoes
          obtain ⟨i, hi⟩ := List.mem_iff_getElem?.mp hpart
          obtain ⟨st, st', hst, -, hsame⟩ := hstores.at_first hi
          exact hnone st (List.mem_of_getElem? hst) (hsame.path_eq hgoes)
        · intro part hpart hgoes
          obtain ⟨i, hi⟩ := List.mem_iff_getElem?.mp hpart
          obtain ⟨st, st', -, hst', hsame⟩ := hstores.at_first hi
          exact hnone' st' (List.mem_of_getElem? hst') (hsame.path_eq' hgoes)

/-- Two records with the fields of one type agree, if the codecs of their fields do. -/
theorem FieldsBind.agree_record {d : Descriptor} (h : FieldsBind layout members d.fields bound)
    (h' : FieldsBind layout members' d.fields bound')
    (hcodecs : ∀ (k : Nat) b b' path path' codec codec', bound[k]? = some b →
      bound'[k]? = some b' → b.target = .slot path codec → b'.target = .slot path' codec' →
        AgreeOn codec.decode codec'.decode (Codec.SameContent codec codec')) :
    AgreeOn (Codec.record d.id layout bound (Shape.defaultRecord members)).decode
      (Codec.record d.id layout bound' (Shape.defaultRecord members')).decode
      (Codec.SameContent (.record d.id layout bound (Shape.defaultRecord members))
        (.record d.id layout bound' (Shape.defaultRecord members'))) := by
  have hfields := h.fieldsAgree h' hcodecs
  -- all stores are at leaves, so that settling them does not change how the read ends
  have hmeet := Binds.meets_recordReads h
  have hmeet' := Binds.meets_recordReads h'
  intro bs
  rcases (hfields.fieldStores layout bs).cases with
    ⟨sent, stores, stores', left, hsent, hstores, hstores', haligned⟩ | ⟨e, _, he, he', rfl⟩
  · have hreads := Codec.recordReads_of_ok hstores
    have hreads' := Codec.recordReads_of_ok hstores'
    obtain ⟨rec, hsettle, hall⟩ :=
      settle_ok left (hmeet.good hreads) (Shape.defaultRecord_conforms members)
    obtain ⟨rec', hsettle', hall'⟩ :=
      settle_ok left (hmeet'.good hreads') (Shape.defaultRecord_conforms members')
    refine .inl ⟨.record rec, .record rec', left, ?_, ?_, .record hsent hfields.length ?_⟩
    · rw [Codec.decode_record, hreads, hsettle]
    · rw [Codec.decode_record, hreads', hsettle']
    · exact fun k b b' hb hb' =>
        h.sameSlot h' haligned hall hall' hb hb' (hfields.target k b b' hb hb')
  · obtain ⟨i, hreads, rfl⟩ := Codec.recordReads_of_error he
    obtain ⟨i', hreads', hcause⟩ := Codec.recordReads_of_error he'
    refine .inr ⟨i.cause, Binds.decode_record_eq_error h hreads, ?_⟩
    rw [← hcause]
    exact Binds.decode_record_eq_error h' hreads'

end

/-- Two codecs of one type read the same bytes alike, whatever their shapes. -/
theorem Binds.agree_decode {d : Descriptor} {shape : Shape} {codec : Codec}
    (h : Binds d shape codec) : ∀ {shape' : Shape} {codec' : Codec}, Binds d shape' codec' →
      AgreeOn codec.decode codec'.decode (Codec.SameContent codec codec') := by
  induction h with
  | scalar kind base =>
    intro shape' codec' h'
    obtain ⟨type', hbase', rfl⟩ := h'.scalar_inv kind
    obtain rfl := Except.ok.inj (base.symm.trans hbase')
    rw [Codec.decode]
    refine AgreeOn.map ((Agree.refl _).on fun bs c s s' left hread hsame => ?_) fun _ _ _ h => h
    obtain ⟨rfl, rfl⟩ := hsame
    exact .scalar hread
  | array kind fields element ih =>
    intro shape' codec' h'
    obtain ⟨f', rest', inner', element', hfields', hcodec', h'⟩ := h'.items_inv (.inl kind)
    obtain ⟨rfl, rfl⟩ := List.cons.inj (fields.symm.trans hfields')
    exact Codec.agree_items rfl hcodec' (ih h')
  | set kind fields element ih | setAsArray kind fields element ih =>
    intro shape' codec' h'
    obtain ⟨f', rest', inner', element', hfields', hcodec', h'⟩ := h'.items_inv (.inr kind)
    obtain ⟨rfl, rfl⟩ := List.cons.inj (fields.symm.trans hfields')
    exact Codec.agree_items rfl hcodec' (ih h')
  | @tuple d shapes codecs kind arity length scalars items ih =>
    intro shape' codec' h'
    obtain ⟨shapes', codecs', rfl, arity', length', items'⟩ := h'.tuple_inv kind
    have hitem : ∀ (i : Nat) codec codec', codecs[i]? = some codec → codecs'[i]? = some codec' →
        AgreeOn codec.decode codec'.decode (Codec.SameContent codec codec') := by
      intro i codec codec' hcodec hcodec'
      obtain ⟨f, s, hf, hs⟩ := exists_item arity length hcodec
      obtain ⟨f', s', hf', hs'⟩ := exists_item arity' length' hcodec'
      obtain rfl := Option.some.inj (hf.symm.trans hf')
      exact ih i f s codec hf hs hcodec (items' i f s' codec' hf' hs' hcodec')
    exact Codec.agree_tuple d.id (length.trans length'.symm) hitem
  | @record d name members bound kind values length fields codecs ih =>
    intro shape' codec' h'
    obtain ⟨name', members', bound', rfl, rfl, hbind'⟩ := h'.record_inv kind
    have hbind : FieldsBind (recordLayout d.kind) members d.fields bound := ⟨length, fields, codecs⟩
    refine hbind.agree_record hbind' ?_
    intro k b b' path path' codec codec' hb hb' htarget htarget'
    obtain ⟨f, hf⟩ := hbind.exists_field hb
    -- both codecs are bound from the type of the one field, each to the member it resolves to
    have hgoes := (fields k f b hf hb).target
    have hgoes' := (hbind'.field k f b' hf hb').target
    rw [htarget] at hgoes
    rw [htarget'] at hgoes'
    cases hgoes with
    | slot _ hresolve _ =>
      cases hgoes' with
      | slot _ hresolve' _ =>
        exact ih k f b path _ codec hf hb htarget hresolve
          (hbind'.codec k f b' path' _ codec' hf hb' htarget' hresolve')
  | @range d f rest inner element kind fields ranged element' ih =>
    intro shape' codec' h'
    obtain ⟨f', rest', inner', element', hfields', rfl, h'⟩ := h'.range_inv kind
    obtain ⟨rfl, rfl⟩ := List.cons.inj (fields.symm.trans hfields')
    rw [Codec.decode, Codec.decode]
    exact (Codec.agree_range d.id (ih h')).map fun _ _ _ hsame => hsame
  | @multirange d f rest inner element kind fields ranged element' ih =>
    intro shape' codec' h'
    obtain ⟨f', rest', inner', element', hfields', rfl, h'⟩ := h'.multirange_inv kind
    obtain ⟨rfl, rfl⟩ := List.cons.inj (fields.symm.trans hfields')
    exact Codec.agree_multirange d.id (ih h')

/-- What bytes a type takes does not depend on the shape that it is bound to: two codecs of the type
fail with the same failure, or leave the same bytes unread and give values that both say what the
bytes say. -/
theorem bind_agree {d : Descriptor} {required required' : Bool} {shape shape' : Shape}
    {codec codec' : Codec} (h : d.bind required shape = .ok codec)
    (h' : d.bind required' shape' = .ok codec') (bs : Bytes) :
    (∃ v v' left, codec.decode bs = .ok (v, left) ∧ codec'.decode bs = .ok (v', left) ∧
      codec.SameContent codec' bs v v') ∨
      ∃ e, codec.decode bs = .error e ∧ codec'.decode bs = .error e :=
  (binds_of_bind h).agree_decode (binds_of_bind h') bs

/-- A set and a number, taken as they are or as an array in an embedded record behind a member with
another name that may be absent. -/
theorem bind_agree_pair :
    let int16 := ofFields .baseScalar ScalarType.int16.id []
    let pair := ofFields .namedTuple .nil
      [.named "all" (ofFields .set .nil [.element int16]) true, .named "count" int16 true]
    let shape := Shape.record "Pair"
      [⟨"all", none, .set (.scalar .int16), false⟩, ⟨"count", none, .scalar .int16, false⟩]
    let inner := Shape.record "Inner" [⟨"all", none, .array (.scalar .int16), false⟩]
    let shape' := Shape.record "Outer"
      [⟨"n", some "count", .optional (.scalar .int16), false⟩, ⟨"inner", none, inner, true⟩]
    let bs : Bytes := [0, 0, 0, 2, 0, 0, 0, 0, 0, 0, 0, 26, 0, 0, 0, 1, 0, 0, 0, 0, 0, 0, 0, 0,
      0, 0, 0, 1, 0, 0, 0, 1, 0, 0, 0, 2, 0, 7, 0, 0, 0, 0, 0, 0, 0, 2, 0, 1]
    ∃ codec codec', pair.bind true shape = .ok codec ∧ pair.bind true shape' = .ok codec' ∧
      codec.SameContent codec' bs (.record [.set [.scalar (.int16 7)], .scalar (.int16 1)])
        (.record [.scalar (.int16 1), .record [.array [.scalar (.int16 7)]]]) := by
  intro int16 pair shape inner shape' bs
  have hbind : pair.bind true shape = .ok _ := rfl
  have hbind' : pair.bind true shape' = .ok _ := rfl
  rcases bind_agree hbind hbind' bs with ⟨v, v', left, hv, hv', hsame⟩ | ⟨e, he, -⟩
  · obtain ⟨rfl, -⟩ := Prod.mk.inj (Except.ok.inj hv)
    obtain ⟨rfl, -⟩ := Prod.mk.inj (Except.ok.inj hv')
    exact ⟨_, _, hbind, hbind', hsame⟩
  · cases he

end Descriptor

end TypedWire
