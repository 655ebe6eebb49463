import TypedWire.Proofs.Codec.Failure
import TypedWire.Proofs.Codec.Normal
import TypedWire.Proofs.Codec.RoundTrip

/-!
# Encoding what was decoded

Decoding takes more than encoding writes, but what it gives can be encoded again, and then gives the
same value up to empty ranges. Fields that go to the same slot have to read the same there, and no
required part may be missing, as it may be after a sparse record.

- `Codec.Yields`: a codec has read a value from some bytes.
- `Codec.Consistent`: fields with one slot in common have reads in common.
- `Descriptor.Binds.covers_of_yields`: what was read is covered by the fields of the codec.
- `Descriptor.bind_reencode`: encoding what was decoded, and decoding it again.
-/

namespace TypedWire

open Read (Meets)

namespace Codec

/-- The codec has read the value from some bytes. -/
def Yields (codec : Codec) (v : Value) : Prop := ∃ bs left, codec.decode bs = .ok (v, left)

/-- Fields of a record that go to the same slot read the same there, in every record within. -/
inductive Consistent : Codec → Prop
  | scalar {id : Uuid} {type : ScalarType} : Consistent (.scalar id type)
  | array {id : Uuid} {element : Codec} (h : Consistent element) : Consistent (.array id element)
  | set {id : Uuid} {element : Codec} (h : Consistent element) : Consistent (.set id element)
  | tuple {id : Uuid} {elements : List Codec} (h : ∀ codec ∈ elements, Consistent codec) :
      Consistent (.tuple id elements)
  | record {id : Uuid} {layout : RecordLayout} {fields : List (BoundField Codec)}
      {template : Record}
      (shared : ∀ b ∈ fields, ∀ b' ∈ fields, ∀ path codec codec', b.target = .slot path codec →
        b'.target = .slot path codec' → codec.decode = codec'.decode)
      (h : ∀ b ∈ fields, ∀ path codec, b.target = .slot path codec → Consistent codec) :
      Consistent (.record id layout fields template)
  | range {id : Uuid} {element : Codec} (h : Consistent element) : Consistent (.range id element)
  | multirange {id : Uuid} {element : Codec} (h : Consistent element) :
      Consistent (.multirange id element)

end Codec

theorem ScalarType.wholeMicros_zero (type : ScalarType) : type.zero.WholeMicros := by
  cases type with
  | datetime | localDatetime | localTime | duration => exact ⟨by decide, by decide⟩
  | _ => exact trivial

/-- A present default of a shape is that of a present value. -/
theorem Shape.default_required {shape : Shape} (h : shape.default.isNull = false) :
    shape.required.default = shape.default := by
  cases shape with
  | optional inner =>
    rw [default] at h
    cases h
  | _ => rfl

namespace Descriptor.Binds

/-- Decoding gives what the codec has read. -/
theorem meets_yields {d : Descriptor} {shape : Shape} {codec : Codec} (h : Binds d shape codec) :
    Meets codec.decode codec.Yields DecodeError.InBytes :=
  ⟨fun hrun => ⟨_, _, hrun⟩, h.meets_decode.bad⟩

/-- A leaf of a record that was read holds what one of its fields has read, or its default. -/
theorem slot_of_yields {d : Descriptor} {members : List (Member Shape)}
    {bound : List (BoundField Codec)} {layout : RecordLayout} {id : Uuid}
    (hbound : FieldsBind layout members d.fields bound) {v : Value}
    (h : (Codec.record id layout bound (Shape.defaultRecord members)).Yields v) :
    ∃ rec : Record, v = .record rec ∧ rec.Conforms members ∧
      ∀ path shape, Leaf members path shape →
        (∃ b ∈ bound, ∃ codec w, b.target = .slot path codec ∧ codec.Yields w ∧
          rec.slot? path = some w) ∨ rec.slot? path = some shape.default := by
  obtain ⟨bs, left, hrun⟩ := h
  obtain ⟨stores, rec, hreads, rfl, hall⟩ := decode_record_eq_ok hbound hrun
  -- every store is of a value that one of the fields has read
  have hmeet : Codec.FieldsMeet (fun path v => ∃ b ∈ bound, ∃ codec,
      b.target = .slot path codec ∧ codec.Yields v) bound := by
    intro b hb path codec htarget
    obtain ⟨i, f, shape, hf, hi, hresolve, -⟩ :=
      resolves_of_mem hbound.length hbound.field hb htarget
    have hyields := (hbound.codec i f b path shape codec hf hi htarget hresolve).meets_yields
    exact hyields.mono fun v hv => ⟨b, hb, codec, htarget, hv⟩
  have hread := (Codec.meets_recordReads layout hmeet).good hreads
  refine ⟨rec, rfl, hall.conforms, fun path shape hleaf => ?_⟩
  rcases hall.leaf hleaf with ⟨st, hst, rfl, hslot⟩ | ⟨-, hslot⟩
  · obtain ⟨b, hb, codec, htarget, hyields⟩ := hread st hst
    exact .inl ⟨b, hb, codec, st.value, htarget, hyields, hslot⟩
  · exact .inr (hslot.trans hleaf.slot?_default)

/-- The fields of a bound codec cover fresh storage. -/
theorem covers_default {d : Descriptor} {shape : Shape} {codec : Codec} (h : Binds d shape codec) :
    codec.Covers shape shape.default := by
  induction h with
  | scalar kind base => exact .scalar
  | array kind fields element ih | setAsArray kind fields element ih =>
    rw [Shape.default]
    exact .array (List.forall_mem_nil _)
  | set kind fields element ih =>
    rw [Shape.default]
    exact .set (List.forall_mem_nil _)
  | @tuple d shapes codecs kind arity length scalars items ih =>
    rw [Shape.default]
    refine .tuple fun i codec shape v hcodec hshape hv hnull => ?_
    obtain ⟨f, shape', hf, -⟩ := exists_item arity length hcodec
    rw [Shape.defaults_eq_map, List.getElem?_map, hshape] at hv
    obtain rfl := Option.some.inj hv
    rw [← Shape.default_required hnull]
    exact ih i f shape codec hf hshape hcodec
  | @record d name members bound kind values length fields codecs ih =>
    rw [Shape.default]
    refine .record (fun path shape hleaf _ => hleaf.slot?_default)
      fun b hb path codec shape v htarget hleaf hv hnull => ?_
    obtain ⟨i, f, shape', hf, hi, hresolve, -⟩ := resolves_of_mem length fields hb htarget
    obtain rfl := hleaf.unique (.of_resolve? hresolve)
    obtain rfl := Option.some.inj (hleaf.slot?_default.symm.trans hv)
    rw [← Shape.default_required hnull]
    exact ih i f b path shape codec hf hi htarget hresolve
  | range kind fields ranged element ih =>
    rw [Shape.default]
    exact .range (List.forall_mem_nil _)
  | multirange kind fields ranged element ih =>
    rw [Shape.default]
    exact .multirange (List.forall_mem_nil _)

/-- What was read is covered by the fields of the codec, and all of its times are whole counts of
microseconds. -/
theorem covers_of_yields {d : Descriptor} {shape : Shape} {codec : Codec}
    (h : Binds d shape codec) :
    codec.Consistent → ∀ {v : Value}, codec.Yields v →
      codec.Covers shape v ∧ v.All Scalar.WholeMicros (fun _ => True) := by
  induction h with
  | scalar kind base =>
    rintro _ v ⟨bs, left, hrun⟩
    rw [Codec.decode] at hrun
    obtain ⟨s, hs, rfl⟩ := Read.map_eq_ok hrun
    exact ⟨.scalar, .scalar ((ScalarType.meets_read _).good hs).2⟩
  | array kind fields element ih | setAsArray kind fields element ih =>
    rintro hconsistent v ⟨bs, left, hrun⟩
    cases hconsistent with
    | array hconsistent =>
      rw [Codec.decode] at hrun
      obtain ⟨items, hitems, rfl⟩ := Read.map_eq_ok hrun
      have hyields := (meets_arrayItems element.meets_yields).good hitems
      exact ⟨.array fun v hv => (ih hconsistent (hyields v hv)).1,
        .array fun v hv => (ih hconsistent (hyields v hv)).2⟩
  | set kind fields element ih =>
    rintro hconsistent v ⟨bs, left, hrun⟩
    cases hconsistent with
    | set hconsistent =>
      rw [Codec.decode] at hrun
      obtain ⟨items, hitems, rfl⟩ := Read.map_eq_ok hrun
      have hyields := (meets_arrayItems element.meets_yields).good hitems
      exact ⟨.set fun v hv => (ih hconsistent (hyields v hv)).1,
        .set fun v hv => (ih hconsistent (hyields v hv)).2⟩
  | @tuple d shapes codecs kind arity length scalars items ih =>
    rintro hconsistent v ⟨bs, left, hrun⟩
    cases hconsistent with
    | tuple hconsistent =>
      rw [Codec.decode] at hrun
      obtain ⟨-, mid, -, hrun⟩ := Read.bind_eq_ok hrun
      obtain ⟨values, hvalues, rfl⟩ := Read.map_eq_ok hrun
      -- an item was read by the codec at its place
      have hmeet : ∀ (i : Nat) codec, codecs[i]? = some codec → Meets codec.decode
          (fun v => ∀ codec, codecs[i]? = some codec → codec.Yields v) DecodeError.InBytes := by
        intro i codec hcodec
        obtain ⟨f, shape, hf, hshape⟩ := exists_item arity length hcodec
        have hyields := (items i f shape codec hf hshape hcodec).meets_yields
        refine hyields.mono fun v hv codec' hcodec' => ?_
        obtain rfl := Option.some.inj (hcodec.symm.trans hcodec')
        exact hv
      obtain ⟨hlen, hyields⟩ := (Codec.meets_decodeItems hmeet).good hvalues
      constructor
      · refine .tuple fun i codec shape v hcodec hshape hv _ => ?_
        obtain ⟨f, shape', hf, hshape'⟩ := exists_item arity length hcodec
        obtain rfl := Option.some.inj (hshape.symm.trans hshape')
        exact (ih i f shape codec hf hshape hcodec
          (hconsistent codec (List.mem_of_getElem? hcodec)) (hyields i v hv codec hcodec)).1
      · refine .tuple fun v hv => ?_
        obtain ⟨i, hi⟩ := List.mem_iff_getElem?.mp hv
        have hlt : i < codecs.length := hlen ▸ (List.getElem?_eq_some_iff.mp hi).1
        have hcodec := List.getElem?_eq_getElem hlt
        obtain ⟨f, shape, hf, hshape⟩ := exists_item arity length hcodec
        exact (ih i f shape _ hf hshape hcodec (hconsistent _ (List.getElem_mem hlt))
          (hyields i v hi _ hcodec)).2
  | @record d name members bound kind values length fields codecs ih =>
    intro hconsistent v hyields
    cases hconsistent with
    | record shared hconsistent =>
      obtain ⟨rec, rfl, hrec, hslots⟩ := slot_of_yields ⟨length, fields, codecs⟩ hyields
      constructor
      · refine .record (fun path shape hleaf hno => ?_)
          fun b hb path codec shape v htarget hleaf hv hnull => ?_
        · rcases hslots path shape hleaf with ⟨b, hb, codec, w, htarget, -⟩ | hdefault
          · exact (hno b hb codec htarget).elim
          · exact hdefault
        · obtain ⟨i, f, shape', hf, hi, hresolve, -⟩ := resolves_of_mem length fields hb htarget
          obtain rfl := hleaf.unique (.of_resolve? hresolve)
          rcases hslots path shape hleaf with
            ⟨b', hb', codec', w, htarget', ⟨bs, left, hrun⟩, hslot⟩ | hdefault
          · -- the slot may hold what another field with the slot has read
            obtain rfl := Option.some.inj (hslot.symm.trans hv)
            have hdecode := shared b hb b' hb' _ codec codec' htarget htarget'
            exact (ih i f b _ shape codec hf hi htarget hresolve
              (hconsistent b hb _ codec htarget) ⟨bs, left, hdecode ▸ hrun⟩).1
          · obtain rfl := Option.some.inj (hdefault.symm.trans hv)
            rw [← Shape.default_required hnull]
            exact (codecs i f b path shape codec hf hi htarget hresolve).covers_default
      · refine .record (Record.all_of_leaves hrec fun path shape v hleaf hv => ?_)
        rcases hslots path shape hleaf with ⟨b, hb, codec, w, htarget, hw, hslot⟩ | hdefault
        · obtain ⟨i, f, shape', hf, hi, hresolve, -⟩ := resolves_of_mem length fields hb htarget
          obtain rfl := Option.some.inj (hslot.symm.trans hv)
          exact (ih i f b _ shape' codec hf hi htarget hresolve
            (hconsistent b hb _ codec htarget) hw).2
        · obtain rfl := Option.some.inj (hdefault.symm.trans hv)
          exact Shape.all_default ScalarType.wholeMicros_zero trivial shape
  | range kind fields ranged element ih =>
    rintro hconsistent v ⟨bs, left, hrun⟩
    cases hconsistent with
    | range hconsistent =>
      rw [Codec.decode] at hrun
      obtain ⟨r, hr, rfl⟩ := Read.map_eq_ok hrun
      have hyields := ((meets_rangeOf element.meets_yields).good hr).1
      exact ⟨.range fun v hv => (ih hconsistent (hyields v hv)).1,
        .range trivial fun v hv => (ih hconsistent (hyields v hv)).2⟩
  | multirange kind fields ranged element ih =>
    rintro hconsistent v ⟨bs, left, hrun⟩
    cases hconsistent with
    | multirange hconsistent =>
      rw [Codec.decode] at hrun
      obtain ⟨ranges, hranges, rfl⟩ := Read.map_eq_ok hrun
      have hyields := (meets_multirangeOf element.meets_yields).good hranges
      exact ⟨.multirange fun r hr v hv => (ih hconsistent ((hyields r hr).1 v hv)).1,
        .multirange (fun _ _ => trivial) fun r hr v hv =>
          (ih hconsistent ((hyields r hr).1 v hv)).2⟩

end Descriptor.Binds

/-- What a bound codec has read from bytes that it used up is encoded again, unless it is too long,
and then reads as its normal form with nothing left. The JSON in the value has to survive being
printed, fields with one slot have to have reads in common, and no part may be absent where the wire
needs it. -/
theorem Descriptor.bind_reencode {d : Descriptor} {required : Bool} {shape : Shape} {codec : Codec}
    (h : d.bind required shape = .ok codec) (hindex : d.Indexable) (hconsistent : codec.Consistent)
    {bs : Bytes} {v : Value} (hrun : codec.decode.toEnd bs = .ok (v, []))
    (hjson : v.All Scalar.JsonSurvives fun _ => True) (hcomplete : codec.Complete v) :
    (∃ length, codec.encode v .empty = .error (.tooLong length)) ∨
      ∃ w, codec.encode v .empty = .ok w ∧ (w.buffer.length < Element.absent.toNat →
        w.intoBytes = .ok w.buffer ∧ codec.decode.toEnd w.buffer = .ok (v.normal, [])) := by
  have hbinds := binds_of_bind h
  obtain ⟨v', left, hdecode, hend⟩ := Read.bind_eq_ok hrun
  obtain ⟨-, rest, -, hreturn⟩ := Read.bind_eq_ok hend
  obtain ⟨rfl, -⟩ := Prod.mk.inj (Except.ok.inj hreturn)
  have hconforms := hbinds.meets_decode.good hdecode
  obtain ⟨hcovers, hmicros⟩ := hbinds.covers_of_yields hconsistent ⟨bs, left, hdecode⟩
  -- what was read is whole in microseconds, and in normal form it has plain ranges only
  have hexact : v'.normal.Exact :=
    ((hmicros.and hjson).mono (fun s hs => (⟨hs.1, hs.2⟩ : s.Exact)) fun _ _ => trivial).normal
  rw [codec.writes_encode v']
  cases hpayload : codec.payload v' with
  | error e =>
    -- of the causes to fail only the length is left: the value is complete, and has counts
    rcases hbinds.fails_payload hconforms e hpayload with ⟨length, rfl⟩ | ⟨-, hnot⟩ | ⟨-, hnot⟩
    · exact .inl ⟨length, rfl⟩
    · exact (hnot hcomplete).elim
    · exact (hnot (hmicros.mono (fun _ hs => hs.countable) fun _ _ => trivial)).elim
  | ok bytes =>
    refine .inr ⟨Writer.empty.raw bytes, rfl, fun hlt => ⟨rfl, ?_⟩⟩
    -- the payload is that of the normal form, too, which survives the wire
    have hnormal : codec.payload v'.normal = .ok bytes := (codec.payload_normal v').trans hpayload
    have hback := hbinds.undoes hindex hconforms.normal hcovers.normal hexact bytes hnormal hlt
    exact (Read.bind_of_ok hback).trans rfl

/-- The flags of the bounds of an empty range are not written again. -/
theorem bind_reencode_empty_range :
    let range := Descriptor.ofFields .range .nil
      [.element (.ofFields .baseScalar ScalarType.int32.id [])]
    let v := Value.range ⟨none, none, true, false, true⟩
    ∃ codec w, range.bind true (.range (.scalar .int32)) = .ok codec ∧
      codec.decode.toEnd [3] = .ok (v, []) ∧ codec.encode v .empty = .ok w ∧
        codec.decode.toEnd w.buffer = .ok (v.normal, []) := by
  intro range v
  have hbind : range.bind true (.range (.scalar .int32)) = .ok _ := rfl
  have hindex : range.Indexable := by
    refine .node (fun h => nomatch h) ?_
    rintro f (_ | ⟨_, ⟨⟩⟩)
    exact .node (fun h => nomatch h) (List.forall_mem_nil _)
  have hjson : v.All Scalar.JsonSurvives fun _ => True := .range trivial (List.forall_mem_nil _)
  have hrun : (Codec.range .nil (.scalar ScalarType.int32.id .int32)).decode.toEnd [3] =
      .ok (v, []) := rfl
  rcases Descriptor.bind_reencode hbind hindex (.range .scalar) hrun hjson
      (.range (List.forall_mem_nil _)) with ⟨length, htooLong⟩ | ⟨w, hw, hback⟩
  · cases htooLong
  · obtain rfl : w = ⟨[1], []⟩ := (Except.ok.inj hw).symm
    exact ⟨_, _, hbind, rfl, hw, (hback (by decide)).2⟩

/-- Three ways in which a value that was decoded does not come back from being encoded: an empty
range loses the flags of its bounds, a slot that two fields go to is left to the second of them, and
a required field that a sparse record has left out cannot be encoded. -/
theorem reencode_differs :
    let int16 := Descriptor.ofFields .baseScalar ScalarType.int16.id []
    let int32 := Descriptor.ofFields .baseScalar ScalarType.int32.id []
    let part := fun name => Descriptor.ofFields .namedTuple .nil [.named name int16 true]
    let argument := fun fields => Descriptor.ofFields .inputShape .nil fields
    let point := Shape.record "P"
      [⟨"x", none, .scalar .int16, false⟩, ⟨"y", none, .scalar .int16, false⟩]
    (∃ codec w, (Descriptor.ofFields .range .nil [.element int32]).bind true
        (.range (.scalar .int32)) = .ok codec ∧
      codec.decode.toEnd [3] = .ok (.range ⟨none, none, true, false, true⟩, []) ∧
      codec.encode (.range ⟨none, none, true, false, true⟩) .empty = .ok w ∧
      codec.decode.toEnd w.buffer ≠ .ok (.range ⟨none, none, true, false, true⟩, [])) ∧
    (∃ codec w, (argument [.named "a" (part "x") false, .named "a" (part "y") false]).bind true
        (.record "S" [⟨"a", none, .optional point, false⟩]) = .ok codec ∧
      codec.decode.toEnd
          [0, 0, 0, 1, 0, 0, 0, 0, 0, 0, 0, 14, 0, 0, 0, 1, 0, 0, 0, 0, 0, 0, 0, 2, 0, 7] =
        .ok (.record [.record [.scalar (.int16 7), .scalar (.int16 0)]], []) ∧
      codec.encode (.record [.record [.scalar (.int16 7), .scalar (.int16 0)]]) .empty = .ok w ∧
      codec.decode.toEnd w.buffer ≠
        .ok (.record [.record [.scalar (.int16 7), .scalar (.int16 0)]], [])) ∧
    ∃ codec, (argument [.named "x" int16 true]).bind true
        (.record "R" [⟨"x", none, .optional (.scalar .int16), false⟩]) = .ok codec ∧
      codec.decode.toEnd [0, 0, 0, 0] = .ok (.record [.null], []) ∧
      codec.encode (.record [.null]) .empty = .error (.missingRequired "x") := by
  refine ⟨⟨_, ⟨[1], []⟩, rfl, rfl, rfl, ?_⟩, ⟨_, _, rfl, rfl, rfl, ?_⟩, _, rfl, rfl, rfl⟩
  · intro h
    have hback : (Except.ok (.range ⟨none, none, false, false, true⟩, []) :
        Except DecodeError (Value × Bytes)) = .ok (.range ⟨none, none, true, false, true⟩, []) := h
    cases hback
  · intro h
    have hback : (Except.ok (.record [.record [.scalar (.int16 0), .scalar (.int16 0)]], []) :
        Except DecodeError (Value × Bytes)) =
          .ok (.record [.record [.scalar (.int16 7), .scalar (.int16 0)]], []) := h
    simp at hback

end TypedWire
