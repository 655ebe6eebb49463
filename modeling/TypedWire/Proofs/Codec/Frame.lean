import TypedWire.Proofs.Codec.Entries
import TypedWire.Proofs.Codec.Soundness

/-!
# Decoding into storage keeps what it does not replace

Nothing that is read of a record depends on what the storage holds. So two records that the same
bytes are decoded into hold the same where something was stored, and what they held elsewhere, also
if decoding breaks off.

- `Record.Overwritten`: what the same stores leave of two records.
- `Descriptor.FieldsBind.stores_collected`: a bound record collects stores at leaves only.
- `Codec.decodeInto_frame`: what decoding into storage does to the storage, and on what it depends.
-/

namespace TypedWire

/-! ## Two records -/

/-- What the same stores leave of two records of the members. -/
structure Record.Overwritten (members : List (Member Shape)) (stores : List Store)
    (rec out rec' out' : Record) : Prop where
  /-- A leaf that is stored to holds one value in both. -/
  replaced : ∀ st ∈ stores, ∃ found ∈ stores, found.path = st.path ∧
    out.slot? st.path = some found.value ∧ out'.slot? st.path = some found.value
  /-- Any other leaf holds what it held. -/
  kept : ∀ {path : StoragePath} {shape : Shape}, Leaf members path shape →
    (∀ st ∈ stores, st.path ≠ path) →
      out.slot? path = rec.slot? path ∧ out'.slot? path = rec'.slot? path
  /-- The same goes for every slot that is neither inside nor around one that is stored to. -/
  apart : ∀ {path : StoragePath}, (∀ st ∈ stores, ¬st.path <+: path ∧ ¬path <+: st.path) →
    out.slot? path = rec.slot? path ∧ out'.slot? path = rec'.slot? path

section

variable {members : List (Member Shape)}

/-- Stores at leaves find the same leaves in two records of the members. -/
theorem Record.exists_overwritten {stores : List Store} {rec rec' : Record}
    (h : ∀ st ∈ stores, Record.AtLeaf members st.path st.value) (hrec : rec.Conforms members)
    (hrec' : rec'.Conforms members) :
    ∃ out out', rec.storeAll stores = (.ok (), out) ∧ rec'.storeAll stores = (.ok (), out') ∧
      Record.Overwritten members stores rec out rec' out' := by
  obtain ⟨out, hout, hall⟩ := Record.storeAll_ok h hrec
  obtain ⟨out', hout', hall'⟩ := Record.storeAll_ok h hrec'
  refine ⟨out, out', hout, hout', ?_, ?_, ?_⟩
  · intro st hst
    obtain ⟨shape, hleaf, -⟩ := h st hst
    have haligned : ∀ (i : Nat) (last last' : Store), stores[i]? = some last →
        stores[i]? = some last' → (last.path = st.path ↔ last'.path = st.path) := by
      intro i last last' hi hi'
      obtain rfl := Option.some.inj (hi.symm.trans hi')
      exact Iff.rfl
    rcases hall.pair hall' hleaf hleaf rfl haligned with
      ⟨i, last, last', hi, hi', hpath, -, -, -, hslot, hslot'⟩ | ⟨hnone, -⟩
    · obtain rfl := Option.some.inj (hi.symm.trans hi')
      exact ⟨last, List.mem_of_getElem? hi, hpath, hslot, hslot'⟩
    · exact (hnone st hst rfl).elim
  · intro path shape hleaf hnone
    have hkept : ∀ {rec out : Record}, Record.StoredAll members stores rec out →
        out.slot? path = rec.slot? path := by
      intro rec out hall
      rcases hall.leaf hleaf with ⟨st, hst, hpath, -⟩ | ⟨-, hslot⟩
      · exact (hnone st hst hpath).elim
      · exact hslot
    exact ⟨hkept hall, hkept hall'⟩
  · intro path hpath
    have hslot : (rec.storeAll stores).2.slot? path = rec.slot? path :=
      Record.slot?_storeAll_of_apart hpath
    have hslot' : (rec'.storeAll stores).2.slot? path = rec'.slot? path :=
      Record.slot?_storeAll_of_apart hpath
    rw [hout] at hslot
    rw [hout'] at hslot'
    exact ⟨hslot, hslot'⟩

end

/-- A bound record collects stores at leaves only. -/
theorem Descriptor.FieldsBind.stores_collected {d : Descriptor} {members : List (Member Shape)}
    {bound : List (BoundField Codec)} {layout : RecordLayout}
    (h : FieldsBind layout members d.fields bound) (bs : Bytes) :
    ∀ st ∈ (Codec.collected layout bound bs).stores, Record.AtLeaf members st.path st.value := by
  have hmeet := Binds.meets_recordReads h
  have hreads := Codec.recordReads_eq layout bound bs
  cases hfailure : (Codec.collected layout bound bs).failure with
  | none =>
    rw [Collected.reads, hfailure] at hreads
    exact hmeet.good hreads
  | some e =>
    rw [Collected.reads, hfailure] at hreads
    exact (hmeet.bad hreads).2

namespace Codec

/-- Decoding into storage looks at the bytes only. How it ends, and which bytes are unread then, is
the same for all storage. A bound record ends as the collecting of its entries does and carries out
the stores that were collected until then; any other codec puts the value that it decodes in the
place of what is stored, and leaves that as it is if it decodes none. -/
theorem decodeInto_frame :
    (∀ (d : Descriptor) required shape id layout fields template (bs : Bytes),
      d.bind required shape = .ok (.record id layout fields template) →
        ∃ name members, shape.required = .record name members ∧ ∃ unread,
          ((collected layout fields bs).result = .ok () →
            unread = (collected layout fields bs).unread) ∧
          ∀ rec rec' : Record, rec.Conforms members → rec'.Conforms members → ∃ out out',
            (Codec.record id layout fields template).decodeInto (.record rec) bs =
              ⟨(collected layout fields bs).result, unread, .record out⟩ ∧
            (Codec.record id layout fields template).decodeInto (.record rec') bs =
              ⟨(collected layout fields bs).result, unread, .record out'⟩ ∧
            Record.Overwritten members (collected layout fields bs).stores rec out rec' out') ∧
    ∀ codec : Codec, (∀ id layout fields template, codec ≠ .record id layout fields template) →
      ∀ bs : Bytes,
        (∀ v left, codec.decode bs = .ok (v, left) →
          ∀ storage, codec.decodeInto storage bs = ⟨.ok (), left, v⟩) ∧
        ∀ e, codec.decode bs = .error e →
          ∃ left, ∀ storage, codec.decodeInto storage bs = ⟨.error e, left, storage⟩ := by
  constructor
  · intro d required shape id layout fields template bs h
    obtain ⟨name, members, hshape, -, -, hfields⟩ := (Descriptor.binds_of_bind h).record_fields
    obtain ⟨unread, hends⟩ := run_fill layout fields bs
    refine ⟨name, members, hshape, unread, hends.behind, fun rec rec' hrec hrec' => ?_⟩
    obtain ⟨out, out', hout, hout', hoverwritten⟩ :=
      Record.exists_overwritten (hfields.stores_collected bs) hrec hrec'
    refine ⟨out, out', ?_, ?_, hoverwritten⟩
    · rw [decodeInto_record, hends.done hout]
    · rw [decodeInto_record, hends.done hout']
  · exact fun codec hother bs => ⟨fun v left hrun => decodeInto_of_ok hother hrun,
      fun e hrun => decodeInto_of_error hother hrun⟩

/-- An argument whose second entry is for a field that there is not. The first entry is stored, and
the position of the second has been read. -/
theorem decodeInto_frame_point :
    let point := Descriptor.ofFields .inputShape .nil
      [.named "x" (.ofFields .baseScalar ScalarType.int16.id []) true,
        .named "label" (.ofFields .baseScalar ScalarType.str.id []) false]
    let members : List (Member Shape) :=
      [⟨"x", none, .scalar .int16, false⟩, ⟨"label", none, .optional (.scalar .str), false⟩]
    let bs : Bytes := [0, 0, 0, 2, 0, 0, 0, 0, 0, 0, 0, 2, 0, 7, 0, 0, 0, 9, 1]
    ∃ (codec : Codec) (out out' : Record), point.bind true (.record "Point" members) = .ok codec ∧
      codec.decodeInto (.record [.scalar (.int16 1), .scalar (.str "a")]) bs =
        ⟨.error (.invalidIndex 9), [1], .record out⟩ ∧
      codec.decodeInto (.record [.scalar (.int16 2), .null]) bs =
        ⟨.error (.invalidIndex 9), [1], .record out'⟩ ∧
      out.slot? [0] = out'.slot? [0] ∧
      out.slot? [1] = some (.scalar (.str "a")) ∧ out'.slot? [1] = some .null := by
  intro point members bs
  have hbind : point.bind true (.record "Point" members) = .ok _ := rfl
  obtain ⟨_, _, hshape, unread, -, hrun⟩ := decodeInto_frame.1 point true _ _ _ _ _ bs hbind
  obtain ⟨-, rfl⟩ := Shape.record.inj hshape
  have hrec : Record.Conforms [.scalar (.int16 1), .scalar (.str "a")] members :=
    Record.Conforms.cons_iff.mpr
      ⟨.scalar rfl, Record.Conforms.cons_iff.mpr ⟨.present (.scalar rfl), .nil⟩⟩
  have hrec' : Record.Conforms [.scalar (.int16 2), .null] members :=
    Record.Conforms.cons_iff.mpr ⟨.scalar rfl, Record.Conforms.cons_iff.mpr ⟨.null _, .nil⟩⟩
  obtain ⟨out, out', hout, hout', hleft⟩ := hrun _ _ hrec hrec'
  obtain rfl : [1] = unread := congrArg Filled.unread hout
  have hleft : Record.Overwritten members [⟨[0], .scalar (.int16 7)⟩] _ out _ out' := hleft
  obtain ⟨last, -, -, hx, hx'⟩ := hleft.replaced _ List.mem_cons_self
  obtain ⟨hkept, hkept'⟩ := hleft.kept (.own (i := 1) rfl rfl) (by simp)
  exact ⟨_, out, out', hbind, hout, hout', hx.trans hx'.symm, hkept, hkept'⟩

end Codec

end TypedWire
