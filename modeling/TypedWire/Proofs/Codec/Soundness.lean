import TypedWire.Proofs.Binding.Binds
import TypedWire.Proofs.Codec.Into
import TypedWire.Proofs.Codec.Scalar

/-!
# Bound codecs keep to their shape

A codec that binds a type to a shape gives values of the shape only, and storage of the shape stays
storage of the shape, also if decoding breaks off. No decoding fails over the storage.

- `Descriptor.Binds.meets_recordReads`: a bound record asks for fitting stores at leaves only.
- `Descriptor.Binds.meets_decode`: decoding gives values of the shape.
- `Descriptor.Binds.decode_record_eq_ok`: what is stored in a record that is decoded.
- `Descriptor.bind_sound`: the same for a bound type, with decoding into storage.
-/

namespace TypedWire

open Read (Meets)

namespace Descriptor.Binds

/-- The codecs of the fields of a bound record give values of the shapes of their slots. -/
theorem fieldsMeet {d : Descriptor} {members : List (Member Shape)}
    {bound : List (BoundField Codec)} {layout : RecordLayout}
    (length : bound.length = d.fields.length)
    (fields : ∀ (i : Nat) f b, d.fields[i]? = some f → bound[i]? = some b →
      FieldOf layout members f b)
    (decodes : ∀ (i : Nat) f b path shape codec, d.fields[i]? = some f → bound[i]? = some b →
      b.target = .slot path codec → Shape.resolve? members (f.name.getD "") = some (path, shape) →
        Meets codec.decode (Value.Conforms · shape.required) DecodeError.InBytes) :
    Codec.FieldsMeet (Record.AtLeaf members) bound := by
  intro b hb path codec htarget
  obtain ⟨i, f, shape, hf, hi, hresolve, -⟩ := resolves_of_mem length fields hb htarget
  refine (decodes i f b path shape codec hf hi htarget hresolve).mono fun v hv => ?_
  exact ⟨shape, .of_resolve? hresolve, hv.of_required⟩

end Descriptor.Binds

/-- Reading the fields of a record into storage of the members leaves storage of the members, and
never fails over it. -/
theorem settle_sound {members : List (Member Shape)} {bound : List (BoundField Codec)}
    {rec : Record} (layout : RecordLayout)
    (h : Codec.FieldsMeet (Record.AtLeaf members) bound) (hrec : rec.Conforms members)
    (bs : Bytes) :
    (settle rec (Codec.recordReads layout bound bs)).2.Conforms members ∧
      ∀ e, (settle rec (Codec.recordReads layout bound bs)).1 = .error e → e.InBytes := by
  have hrun := Codec.meets_recordReads layout h
  -- both outcomes have settled the stores made so far, all of them at leaves
  cases hreads : Codec.recordReads layout bound bs with
  | ok r =>
    obtain ⟨rec', hsettle, hall⟩ := settle_ok r.2 (hrun.good hreads) hrec
    rw [hsettle]
    exact ⟨hall.conforms, fun _ he => nomatch he⟩
  | error i =>
    obtain ⟨hcause, hdone⟩ := hrun.bad hreads
    obtain ⟨rec', hsettle, hall⟩ := settle_error hdone hrec
    rw [hsettle]
    exact ⟨hall.conforms, fun e he => Except.error.inj he ▸ hcause⟩

/-- Decoding a record gives the storage that is left behind. -/
theorem Codec.meets_decode_record {id : Uuid} {layout : RecordLayout}
    {fields : List (BoundField Codec)} {template : Record} {name : String}
    {members : List (Member Shape)}
    (hsettle : ∀ bs, (settle template (recordReads layout fields bs)).2.Conforms members ∧
      ∀ e, (settle template (recordReads layout fields bs)).1 = .error e → e.InBytes) :
    Meets (Codec.record id layout fields template).decode
      (Value.Conforms · (.record name members)) DecodeError.InBytes where
  good {bs v left} hrun := by
    obtain ⟨hconforms, -⟩ := hsettle bs
    rw [decode_record] at hrun
    split at hrun
    · rename_i rec hsettled
      obtain ⟨rfl, -⟩ := Prod.mk.inj (Except.ok.inj hrun)
      rw [hsettled] at hconforms
      exact Value.conforms_record_iff.mpr ⟨rec, rfl, hconforms⟩
    · cases hrun
  bad {bs e} hrun := by
    obtain ⟨-, hcause⟩ := hsettle bs
    rw [decode_record] at hrun
    split at hrun
    · cases hrun
    · rename_i rec hsettled
      obtain rfl := Except.error.inj hrun
      rw [hsettled] at hcause
      exact hcause _ rfl

namespace Descriptor.Binds

/-- Decoding gives values of the shape, and never fails over the storage. -/
theorem meets_decode {d : Descriptor} {shape : Shape} {codec : Codec} (h : Binds d shape codec) :
    Meets codec.decode (Value.Conforms · shape) DecodeError.InBytes := by
  induction h with
  | scalar kind base =>
    rw [Codec.decode]
    exact (ScalarType.meets_read _).map _ fun s hs => .scalar hs.1
  | array kind fields element ih | setAsArray kind fields element ih =>
    rw [Codec.decode]
    exact (meets_arrayItems ih).map _ fun items hitems => .array hitems
  | set kind fields element ih =>
    rw [Codec.decode]
    exact (meets_arrayItems ih).map _ fun items hitems => .set hitems
  | @tuple d shapes codecs kind arity length scalars items ih =>
    have hitem : ∀ (i : Nat) codec, codecs[i]? = some codec → Meets codec.decode
        (fun v => ∀ shape, shapes[i]? = some shape → v.Conforms shape) DecodeError.InBytes := by
      intro i codec hcodec
      obtain ⟨f, shape, hf, hshape⟩ := exists_item arity length hcodec
      refine (ih i f shape codec hf hshape hcodec).mono fun v hv shape' hshape' => ?_
      obtain rfl := Option.some.inj (hshape.symm.trans hshape')
      exact hv.of_required
    rw [Codec.decode]
    refine (meets_expectCount codecs.length).bind fun _ _ =>
      (Codec.meets_decodeItems hitem).map _ fun values hvalues => ?_
    refine .tuple ?_ fun i v shape hv hshape => hvalues.2 i v hv shape hshape
    rw [hvalues.1, length, arity]
  | @record d name members bound kind values length fields codecs ih =>
    -- fresh storage is storage of the members, so that what becomes of it is, too
    exact Codec.meets_decode_record fun bs => settle_sound (recordLayout d.kind)
      (fieldsMeet length fields ih) (Shape.defaultRecord_conforms members) bs
  | range kind fields ranged element ih =>
    rw [Codec.decode]
    exact (meets_rangeOf ih).map _ fun r hr => .range hr.1
  | multirange kind fields ranged element ih =>
    rw [Codec.decode]
    exact (meets_multirangeOf ih).map _ fun ranges hranges =>
      .multirange fun r hr => (hranges r hr).1

/-- A bound record asks for fitting stores at leaves only. -/
theorem meets_recordReads {d : Descriptor} {members : List (Member Shape)}
    {bound : List (BoundField Codec)} {layout : RecordLayout}
    (h : FieldsBind layout members d.fields bound) :
    Meets (Codec.recordReads layout bound) (Codec.Stores (Record.AtLeaf members))
      (Codec.Interrupts (Record.AtLeaf members)) :=
  Codec.meets_recordReads layout (fieldsMeet h.length h.field
    fun i f b path shape codec hf hb htarget hresolve =>
      (h.codec i f b path shape codec hf hb htarget hresolve).meets_decode)

/-- A record that is decoded has all of its stores carried out. -/
theorem decode_record_eq_ok {d : Descriptor} {members : List (Member Shape)}
    {bound : List (BoundField Codec)} {layout : RecordLayout} {id : Uuid}
    (h : FieldsBind layout members d.fields bound) {bs left : Bytes} {v : Value}
    (hrun : (Codec.record id layout bound (Shape.defaultRecord members)).decode bs =
      .ok (v, left)) :
    ∃ stores rec, Codec.recordReads layout bound bs = .ok (stores, left) ∧ v = .record rec ∧
      Record.StoredAll members stores (Shape.defaultRecord members) rec := by
  have hmeet := meets_recordReads h
  have hdefault := Shape.defaultRecord_conforms members
  rw [Codec.decode_record] at hrun
  cases hreads : Codec.recordReads layout bound bs with
  | ok r =>
    obtain ⟨rec, hsettle, hall⟩ := settle_ok r.2 (hmeet.good hreads) hdefault
    rw [hreads, hsettle] at hrun
    obtain ⟨rfl, rfl⟩ := Prod.mk.inj (Except.ok.inj hrun)
    exact ⟨r.1, rec, rfl, rfl, hall⟩
  | error i =>
    obtain ⟨rec, hsettle, -⟩ := settle_error (hmeet.bad hreads).2 hdefault
    rw [hreads, hsettle] at hrun
    cases hrun

/-- A record whose fields cannot be read fails for the same reason. -/
theorem decode_record_eq_error {d : Descriptor} {members : List (Member Shape)}
    {bound : List (BoundField Codec)} {layout : RecordLayout} {id : Uuid}
    (h : FieldsBind layout members d.fields bound) {bs : Bytes} {i : Interrupted}
    (hreads : Codec.recordReads layout bound bs = .error i) :
    (Codec.record id layout bound (Shape.defaultRecord members)).decode bs = .error i.cause := by
  have hmeet := meets_recordReads h
  obtain ⟨rec, hsettle, -⟩ :=
    settle_error (hmeet.bad hreads).2 (Shape.defaultRecord_conforms members)
  rw [Codec.decode_record, hreads, hsettle]

/-- Decoding into storage of the shape leaves storage of the shape, and never fails over it. -/
theorem decodeInto_sound {d : Descriptor} {shape : Shape} {codec : Codec} (h : Binds d shape codec)
    {storage : Value} (hstorage : storage.Conforms shape) (bs : Bytes) :
    (codec.decodeInto storage bs).storage.Conforms shape ∧
      ∀ e, (codec.decodeInto storage bs).outcome = .error e → e.InBytes := by
  by_cases hother : ∀ id layout fields template, codec ≠ .record id layout fields template
  · -- any codec but that of a record replaces what is stored
    cases hrun : codec.decode bs with
    | ok r =>
      rw [Codec.decodeInto_of_ok hother hrun]
      exact ⟨h.meets_decode.good hrun, fun _ he => nomatch he⟩
    | error e =>
      obtain ⟨left, hinto⟩ := Codec.decodeInto_of_error hother hrun
      rw [hinto]
      exact ⟨hstorage, fun e' he => Except.error.inj he ▸ h.meets_decode.bad hrun⟩
  · push Not at hother
    obtain ⟨id, layout, bound, template, rfl⟩ := hother
    obtain ⟨name, members, rfl, -, -, hfields⟩ := h.record_fields
    obtain ⟨rec, rfl, hrec⟩ := Value.conforms_record_iff.mp hstorage
    obtain ⟨hconforms, hcause⟩ := settle_sound layout (fieldsMeet hfields.length hfields.field
      fun i f b path shape codec hf hb htarget hresolve =>
        (hfields.codec i f b path shape codec hf hb htarget hresolve).meets_decode) hrec bs
    rcases hsettle : settle rec (Codec.recordReads layout bound bs) with ⟨e | left, out⟩
    · obtain ⟨left, hinto⟩ := Codec.decodeInto_record_of_error hsettle
      rw [hsettle] at hconforms hcause
      rw [hinto]
      exact ⟨Value.conforms_record_iff.mpr ⟨_, rfl, hconforms⟩,
        fun e' he => hcause e' (congrArg Except.error (Except.error.inj he))⟩
    · rw [hsettle] at hconforms
      rw [Codec.decodeInto_record_of_ok hsettle]
      exact ⟨Value.conforms_record_iff.mpr ⟨_, rfl, hconforms⟩, fun _ he => nomatch he⟩

end Descriptor.Binds

/-- What a bound codec decodes is a value of the shape, and storage of the shape stays so, whether
decoding into it succeeds or breaks off. Neither fails over the storage. -/
theorem Descriptor.bind_sound {d : Descriptor} {required : Bool} {shape : Shape} {codec : Codec}
    (h : d.bind required shape = .ok codec) (bs : Bytes) :
    (∀ v left, codec.decode bs = .ok (v, left) → v.Conforms shape.required) ∧
      (∀ expected, codec.decode bs ≠ .error (.storageMismatch expected)) ∧
      ∀ storage : Value, storage.Conforms shape.required →
        (codec.decodeInto storage bs).storage.Conforms shape.required ∧
          ∀ expected, (codec.decodeInto storage bs).outcome ≠ .error (.storageMismatch expected) := by
  have hbinds := binds_of_bind h
  refine ⟨fun v left hrun => hbinds.meets_decode.good hrun, ?_, ?_⟩
  · intro expected hrun
    exact hbinds.meets_decode.bad hrun expected rfl
  · intro storage hstorage
    obtain ⟨hconforms, hcause⟩ := hbinds.decodeInto_sound hstorage bs
    exact ⟨hconforms, fun expected hrun => hcause _ hrun expected rfl⟩

theorem bind_sound_point :
    let point := Descriptor.ofFields .inputShape .nil
      [.named "x" (.ofFields .baseScalar ScalarType.int16.id []) true,
        .named "label" (.ofFields .baseScalar ScalarType.str.id []) false]
    let shape := Shape.record "Point"
      [⟨"x", none, .scalar .int16, false⟩, ⟨"label", none, .optional (.scalar .str), false⟩]
    ∃ codec, point.bind true shape = .ok codec ∧
      ∃ v, codec.decode [0, 0, 0, 1, 0, 0, 0, 0, 0, 0, 0, 2, 0, 7] = .ok (v, []) ∧
        v.Conforms shape ∧
        (codec.decodeInto v [0, 0, 0, 1, 0, 0, 0, 0]).storage.Conforms shape := by
  intro point shape
  have hbind : point.bind true shape = .ok _ := rfl
  have hsound := Descriptor.bind_sound hbind
  have hv := (hsound [0, 0, 0, 1, 0, 0, 0, 0, 0, 0, 0, 2, 0, 7]).1 _ _ rfl
  exact ⟨_, hbind, _, rfl, hv, ((hsound [0, 0, 0, 1, 0, 0, 0, 0]).2.2 _ hv).1⟩

end TypedWire
