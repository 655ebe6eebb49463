import TypedWire.Proofs.Binding.Binds
import TypedWire.Proofs.Codec.Soundness
import TypedWire.Proofs.Codec.Takes
import TypedWire.Proofs.Descriptor.Indexable

/-!
# Decoding undoes encoding

Each part of an encoded value is read back as the part, and the stores that the fields of an encoded
record ask for turn fresh storage into the record.

- `Codec.takes_decodeFields`, `Codec.takes_present`: what the fields of an encoded record ask for.
- `Record.storeAll_stores`: these stores rebuild the record.
- `Descriptor.bind_roundTrip`: a bound codec gives back what it has encoded.
-/

namespace TypedWire

open Read (Takes)

namespace Codec

/-! ## Tuples -/

/-- Reading back the items of a tuple. -/
theorem takes_decodeItems {codecs : List Codec} {items : List Value} {bytes : Bytes}
    (hlen : items.length = codecs.length)
    (hp : ∀ (i : Nat) codec v, codecs[i]? = some codec → items[i]? = some v → v.isNull = false →
      Undoes codec.decode (codec.payload v) v)
    (h : itemsPayload codecs items = .ok bytes) (hlt : bytes.length < Element.absent.toNat) :
    Takes (decodeItems codecs) bytes items ∧ items.length ≤ bytes.length := by
  induction codecs generalizing items bytes with
  | nil =>
    obtain rfl := List.eq_nil_of_length_eq_zero hlen
    simp only [itemsPayload] at h
    obtain rfl := Except.ok.inj h
    rw [decodeItems]
    exact ⟨.pure [], Nat.zero_le _⟩
  | cons codec codecs ih =>
    cases items with
    | nil => cases hlen
    | cons v items =>
      rw [itemsPayload] at h
      obtain ⟨first, hfirst, h⟩ := outcome_bind_eq_ok.mp h
      obtain ⟨rest, hrest, h⟩ := outcome_bind_eq_ok.mp h
      obtain rfl := Except.ok.inj h
      simp only [List.length_append, List.length_replicate] at hlt
      obtain ⟨hnull, hframe⟩ := Element.spellRequired_eq_ok hfirst
      have hv := Element.takes_frame "tuple element" (hp 0 codec v rfl rfl hnull) hframe (by omega)
      obtain ⟨hitems, hle⟩ := ih (Nat.succ.inj hlen) (fun i => hp (i + 1)) hrest (by omega)
      rw [decodeItems]
      constructor
      · -- four bytes are skipped, then the item takes its own and the others take theirs
        rw [List.append_assoc, ← List.append_nil rest]
        exact (Read.takes_skip (List.replicate 4 0)).bind (hv.bind (hitems.bind (.pure _)))
      · simp only [List.length_append, List.length_replicate, List.length_cons]
        omega

/-- Reading back a tuple. -/
theorem undoes_tuple (id : Uuid) {codecs : List Codec} {items : List Value}
    (hp : ∀ (i : Nat) codec v, codecs[i]? = some codec → items[i]? = some v → v.isNull = false →
      Undoes codec.decode (codec.payload v) v) :
    Undoes (Codec.tuple id codecs).decode ((Codec.tuple id codecs).payload (.tuple items))
      (.tuple items) := by
  intro bytes h hlt
  rw [payload] at h
  split at h
  · rename_i hlen
    obtain ⟨body, hbody, h⟩ := outcome_bind_eq_ok.mp h
    obtain rfl := Except.ok.inj h
    rw [List.length_append, length_countBytes] at hlt
    obtain ⟨hitems, hle⟩ := takes_decodeItems hlen hp hbody (by omega)
    have hsize := size_absent
    have hcount : Takes (expectCount codecs.length) (countBytes items.length) () := by
      rw [← hlen]
      exact takes_expectCount (by omega)
    rw [decode]
    exact (hcount.bind (hitems.map Value.tuple)).run
  · cases h

/-! ## The fields of records -/

/-- What decoding stores for a field of an encoded record. -/
def storeOf (rec : Record) (b : BoundField Codec) : Option Store :=
  match b.target with
  | .skip => none
  | .slot path _ =>
    match rec.slot? path with
    | some v => if v.isNull then none else some ⟨path, v⟩
    | none => none

/-- What decoding stores for all fields of an encoded record. -/
def storesOf (rec : Record) (fields : List (BoundField Codec)) : List Store :=
  fields.filterMap (storeOf rec)

theorem storesOf_slot {rec : Record} {path : StoragePath} {v : Value}
    (hslot : rec.slot? path = some v) (name : String) (required : Bool) (flags : FieldFlags)
    (codec : Codec) (fields : List (BoundField Codec)) :
    storesOf rec (⟨name, required, flags, .slot path codec⟩ :: fields) =
      if v.isNull then storesOf rec fields else ⟨path, v⟩ :: storesOf rec fields := by
  rw [storesOf, List.filterMap_cons, storeOf]
  dsimp only
  rw [hslot]
  dsimp only
  cases v.isNull <;> rfl

/-- The values of a record that its fields go to are read back. -/
def FieldsUndone (rec : Record) (fields : List (BoundField Codec)) : Prop :=
  ∀ b ∈ fields, ∀ path codec v, b.target = .slot path codec → rec.slot? path = some v →
    v.isNull = false → Undoes codec.decode (codec.payload v) v

theorem FieldsUndone.tail {rec : Record} {b : BoundField Codec} {fields : List (BoundField Codec)}
    (h : FieldsUndone rec (b :: fields)) : FieldsUndone rec fields :=
  fun b hb => h b (List.mem_cons_of_mem _ hb)

theorem takes_layoutSkip (layout : RecordLayout) : Takes layout.skip layout.skippedBytes () := by
  cases layout with
  | named | input =>
    have hlength : Takes Element.payload (Element.absentMark ++ []) none :=
      (Read.takes_uint32 Element.absent).bind (.pure none)
    have h : Takes (do let _ ← Element.payload) (Element.absentMark ++ [] ++ []) () :=
      hlength.bind (.pure ())
    rwa [List.append_nil, List.append_nil] at h
  | output =>
    have hlen : (BigEndian.encode 4 16 ++ Uuid.nil.toBytes).length = typeIdBlock := by decide
    show Takes (Read.skip typeIdBlock) (BigEndian.encode 4 16 ++ Uuid.nil.toBytes) ()
    rw [← hlen]
    exact Read.takes_skip _

/-- Reading back the element of a field, present or absent. -/
theorem takes_spellField {name : String} {required : Bool} {codec : Codec} {v : Value}
    {bytes : Bytes} (hv : v.isNull = false → Undoes codec.decode (codec.payload v) v)
    (h : Element.spellField name required codec.payload v = .ok bytes)
    (hlt : bytes.length < Element.absent.toNat) :
    Takes (Element.read codec.decode) bytes (if v.isNull then none else some v) ∧
      (v.isNull = true → required = false) ∧ 4 ≤ bytes.length := by
  cases hnull : v.isNull with
  | true =>
    cases required with
    | true =>
      simp only [Element.spellField, Element.spellRequired, hnull] at h
      cases h
    | false =>
      simp only [Element.spellField, Element.spell, hnull] at h
      obtain rfl := Except.ok.inj h
      exact ⟨Element.takes_absent, fun _ => rfl, Nat.le_of_eq Element.length_absentMark.symm⟩
  | false =>
    have hframe : Element.frame (codec.payload v) = .ok bytes := by
      cases required <;>
        simpa [Element.spellField, Element.spellRequired, Element.spell, hnull] using h
    have hlen := Element.length_frame hframe
    obtain ⟨inner, hinner, rfl⟩ := Element.frame_eq_ok hframe
    rw [Element.length_spellBlock] at hlt
    have hinner_lt : inner.length < Element.absent.toNat := by omega
    refine ⟨Element.takes_read hinner_lt (hv hnull inner hinner hinner_lt), ?_, hlen⟩
    intro h
    cases h

/-- Reading back all fields of a record. -/
theorem takes_decodeFields {layout : RecordLayout} {rec template : Record}
    {fields : List (BoundField Codec)} (done : List Store) {bytes : Bytes}
    (hp : FieldsUndone rec fields) (h : fieldsPayload layout rec template fields = .ok bytes)
    (hlt : bytes.length < Element.absent.toNat) :
    Takes (decodeFields layout fields done) bytes (done ++ storesOf rec fields) ∧
      fields.length ≤ bytes.length := by
  induction fields generalizing done bytes with
  | nil =>
    rw [fieldsPayload] at h
    obtain rfl := Except.ok.inj h
    rw [decodeFields, storesOf, List.filterMap_nil, List.append_nil]
    exact ⟨.pure done, Nat.zero_le _⟩
  | cons b fields ih =>
    have hskip := takes_afterStores done (Read.takes_skip (List.replicate 4 0))
    obtain ⟨name, required, flags, target⟩ := b
    cases target with
    | skip =>
      rw [fieldsPayload] at h
      obtain ⟨rest, hrest, h⟩ := outcome_bind_eq_ok.mp h
      obtain rfl := Except.ok.inj h
      simp only [List.length_append, List.length_replicate] at hlt
      obtain ⟨hfields, hle⟩ := ih done hp.tail hrest (by omega)
      rw [decodeFields]
      constructor
      · rw [List.append_assoc]
        exact hskip.bind ((takes_afterStores done (takes_layoutSkip layout)).bind hfields)
      · simp only [List.length_append, List.length_replicate, List.length_cons]
        omega
    | slot path codec =>
      rw [fieldsPayload] at h
      obtain ⟨v, hv, h⟩ := outcome_bind_eq_ok.mp h
      obtain ⟨first, hfirst, h⟩ := outcome_bind_eq_ok.mp h
      obtain ⟨rest, hrest, h⟩ := outcome_bind_eq_ok.mp h
      obtain rfl := Except.ok.inj h
      simp only [List.length_append, List.length_replicate] at hlt
      have hslot := loadSlot_eq_ok hv
      have hundone := hp _ List.mem_cons_self path codec v rfl hslot
      obtain ⟨helement, hrequired, hlen⟩ := takes_spellField hundone hfirst (by omega)
      have hfields := fun done => ih done hp.tail hrest (by omega)
      rw [decodeFields]
      constructor
      · rw [List.append_assoc]
        refine hskip.bind ((takes_afterStores done helement).bind ?_)
        -- an absent element asks for no store; it is only written where the field may be absent
        rw [storesOf_slot hslot]
        cases hnull : v.isNull with
        | true =>
          rw [hrequired hnull]
          exact (hfields done).1
        | false =>
          have hrest := (hfields (done ++ [⟨path, v⟩])).1
          rw [List.append_assoc] at hrest
          exact hrest
      · have hle := (hfields done).2
        simp only [List.length_append, List.length_replicate, List.length_cons]
        omega

/-- The field at a position is the one behind as many others. -/
theorem decodeAt_append (index : UInt32) (done : List Store)
    (before after : List (BoundField Codec)) :
    decodeAt index before.length (before ++ after) done = decodeAt index 0 after done := by
  induction before with
  | nil => rfl
  | cons b before ih =>
    rw [List.cons_append, List.length_cons, decodeAt]
    exact ih

/-- The position of a field leads back to it, because as many fields stand before it. -/
theorem takes_decodeAt {name : String} {required : Bool} {flags : FieldFlags} {path : StoragePath}
    {codec : Codec} {before after : List (BoundField Codec)} {index : UInt32} {bytes : Bytes}
    {v : Value} (hi : index.toNat = before.length) (done : List Store)
    (helement : Takes (Element.read codec.decode) bytes (some v)) :
    Takes (decodeAt index index.toNat
      (before ++ ⟨name, required, flags, .slot path codec⟩ :: after) done) bytes
        (done ++ [⟨path, v⟩]) := by
  rw [hi, decodeAt_append, decodeAt, ← List.append_nil bytes]
  exact (takes_afterStores done helement).bind (.pure _)

/-- No more fields are present than there are. -/
theorem countPresent_le {rec template : Record} {fields : List (BoundField Codec)} {count : Nat}
    (h : countPresent rec template fields = .ok count) : count ≤ fields.length := by
  induction fields generalizing count with
  | nil =>
    rw [countPresent] at h
    exact Nat.le_of_eq (Except.ok.inj h).symm
  | cons b fields ih =>
    obtain ⟨name, required, flags, target⟩ := b
    cases target with
    | skip =>
      rw [countPresent] at h
      exact Nat.le_succ_of_le (ih h)
    | slot path codec =>
      rw [countPresent] at h
      obtain ⟨v, -, h⟩ := outcome_bind_eq_ok.mp h
      split at h
      · cases required with
        | true => cases h
        | false => exact Nat.le_succ_of_le (ih h)
      · obtain ⟨count, hcount, h⟩ := outcome_bind_eq_ok.mp h
        obtain rfl := Except.ok.inj h
        exact Nat.succ_le_succ (ih hcount)

/-- Reading back the present fields of an argument, from a position on. -/
theorem takes_present {rec template : Record} {all : List (BoundField Codec)}
    (hindex : all.length ≤ UInt32.size) {after : List (BoundField Codec)}
    (before : List (BoundField Codec)) {count : Nat} (done : List Store) {bytes : Bytes}
    (hall : all = before ++ after) (hp : FieldsUndone rec after)
    (hcount : countPresent rec template after = .ok count)
    (h : presentPayload rec template before.length after = .ok bytes)
    (hlt : bytes.length < Element.absent.toNat) :
    Takes (Read.iterate count (fun done => do
        let index ← afterStores done Read.uint32
        decodeAt index index.toNat all done) done) bytes (done ++ storesOf rec after) ∧
      count ≤ bytes.length := by
  induction after generalizing before count done bytes with
  | nil =>
    rw [countPresent] at hcount
    rw [presentPayload] at h
    obtain rfl := Except.ok.inj hcount
    obtain rfl := Except.ok.inj h
    rw [storesOf, List.filterMap_nil, List.append_nil]
    exact ⟨.pure done, Nat.zero_le _⟩
  | cons b after ih =>
    have hall' : all = (before ++ [b]) ++ after := by
      rw [hall, List.append_assoc]
      rfl
    have hlen : (before ++ [b]).length = before.length + 1 := List.length_append
    have hafter := fun {count bytes} (done : List Store) => @ih (before ++ [b]) count done bytes
      hall' hp.tail
    rw [hlen] at hafter
    obtain ⟨name, required, flags, target⟩ := b
    cases target with
    | skip =>
      -- a field without a slot sends nothing, but keeps its position
      rw [countPresent] at hcount
      rw [presentPayload] at h
      exact hafter done hcount h hlt
    | slot path codec =>
      rw [countPresent] at hcount
      rw [presentPayload] at h
      obtain ⟨v, hv, hcount⟩ := outcome_bind_eq_ok.mp hcount
      rw [hv, outcome_bind_ok] at h
      have hslot := loadSlot_eq_ok hv
      rw [storesOf_slot hslot]
      cases hnull : v.isNull with
      | true =>
        rw [hnull, if_pos rfl] at hcount h
        cases required with
        | true => cases hcount
        | false => exact hafter done hcount h hlt
      | false =>
        rw [hnull, if_neg Bool.false_ne_true] at hcount h
        obtain ⟨count', hcount', hsucc⟩ := outcome_bind_eq_ok.mp hcount
        obtain rfl := Except.ok.inj hsucc
        obtain ⟨first, hfirst, h⟩ := outcome_bind_eq_ok.mp h
        obtain ⟨rest, hrest, h⟩ := outcome_bind_eq_ok.mp h
        obtain rfl := Except.ok.inj h
        simp only [List.length_append, length_countBytes] at hlt
        -- a position among the fields has a spelling
        have hposition : before.length < UInt32.size := by
          have := congrArg List.length hall
          rw [List.length_append, List.length_cons] at this
          omega
        obtain ⟨index, hi, htakes⟩ := takes_count hposition
        have hspell : Element.spellField name false codec.payload v = .ok first := hfirst
        have hundone := hp _ List.mem_cons_self path codec v rfl hslot
        obtain ⟨helement, -, -⟩ := takes_spellField hundone hspell (by omega)
        rw [hnull, if_neg Bool.false_ne_true] at helement
        have hat : Takes (decodeAt index index.toNat all done) first (done ++ [⟨path, v⟩]) :=
          hall ▸ takes_decodeAt hi done helement
        obtain ⟨hrest, hle⟩ := hafter (done ++ [⟨path, v⟩]) hcount' hrest (by omega)
        constructor
        · rw [List.append_assoc done] at hrest
          exact ((takes_afterStores done htakes).bind
            (f := fun index => decodeAt index index.toNat all done) hat).bind hrest
        · simp only [List.length_append, length_countBytes]
          omega

/-- Reading back the fields of a record asks for its stores. -/
theorem recordReads_payload {id : Uuid} {layout : RecordLayout} {fields : List (BoundField Codec)}
    {rec template : Record} (hp : FieldsUndone rec fields)
    (hindex : layout = .input → fields.length ≤ UInt32.size) {bytes : Bytes}
    (h : (Codec.record id layout fields template).payload (.record rec) = .ok bytes)
    (hlt : bytes.length < Element.absent.toNat) :
    recordReads layout fields bytes = .ok (storesOf rec fields, []) := by
  have hsize := size_absent
  -- both layouts that send every field count the fields first
  have hdense : ∀ {layout : RecordLayout}, (do
      return countBytes fields.length ++ (← fieldsPayload layout rec template fields)) = .ok bytes →
        (do
          afterStores [] (expectCount fields.length)
          decodeFields layout fields []) bytes = .ok (storesOf rec fields, []) := by
    intro layout h
    obtain ⟨body, hbody, h⟩ := outcome_bind_eq_ok.mp h
    obtain rfl := Except.ok.inj h
    rw [List.length_append, length_countBytes] at hlt
    obtain ⟨hfields, hle⟩ := takes_decodeFields [] hp hbody (by omega)
    have hcount := takes_expectCount (n := fields.length) (by omega)
    exact ((takes_afterStores [] hcount).bind (f := fun _ => decodeFields layout fields [])
      hfields).run
  cases layout with
  | named | output =>
    simp only [payload] at h
    exact hdense h
  | input =>
    simp only [payload] at h
    obtain ⟨count, hcount, h⟩ := outcome_bind_eq_ok.mp h
    obtain ⟨body, hbody, h⟩ := outcome_bind_eq_ok.mp h
    obtain rfl := Except.ok.inj h
    rw [List.length_append, length_countBytes] at hlt
    obtain ⟨hrun, hle⟩ := takes_present (hindex rfl) [] []
      (List.nil_append fields).symm hp hcount hbody (by omega)
    have hcount_le := countPresent_le hcount
    obtain ⟨present, hpresent, htakes⟩ := takes_count (n := count) (by omega)
    refine ((takes_afterStores [] htakes).bind (f := fun present => do
      if fields.length < present.toNat then throw ⟨.elementCount fields.length present.toNat, []⟩
      Read.iterate present.toNat (fun done => do
        let index ← afterStores done Read.uint32
        decodeAt index index.toNat fields done) []) ?_).run
    rw [hpresent, if_neg (Nat.not_lt.mpr hcount_le)]
    exact hrun

/-- The stores of a record are its present values in the slots that fields go to. -/
theorem mem_storesOf {rec : Record} {fields : List (BoundField Codec)} {st : Store} :
    st ∈ storesOf rec fields ↔ ∃ b ∈ fields, ∃ codec, b.target = .slot st.path codec ∧
      rec.slot? st.path = some st.value ∧ st.value.isNull = false := by
  rw [storesOf, List.mem_filterMap]
  constructor
  · rintro ⟨b, hb, hstore⟩
    unfold storeOf at hstore
    split at hstore
    · cases hstore
    · rename_i path codec htarget
      split at hstore
      · rename_i v hv
        split at hstore
        · cases hstore
        · rename_i hnull
          obtain rfl := Option.some.inj hstore
          exact ⟨b, hb, codec, htarget, hv, Bool.not_eq_true _ ▸ hnull⟩
      · cases hstore
  · rintro ⟨b, hb, codec, htarget, hv, hnull⟩
    refine ⟨b, hb, ?_⟩
    simp only [storeOf, htarget, hv, hnull]
    rfl

end Codec

/-! ## Records -/

/-- Stores of all that the fields of a record cover turn fresh storage into the record. -/
theorem settle_storesOf {members : List (Member Shape)} {bound : List (BoundField Codec)}
    {rec : Record} (left : Bytes)
    (hslots : ∀ b ∈ bound, ∀ path codec, b.target = .slot path codec →
      ∃ shape, Leaf members path shape)
    (hrec : rec.Conforms members)
    (others : ∀ path shape, Leaf members path shape →
      (∀ b ∈ bound, ∀ codec, b.target ≠ .slot path codec) →
        rec.slot? path = some shape.default) :
    settle (Shape.defaultRecord members) (.ok (Codec.storesOf rec bound, left)) =
      (.ok left, rec) := by
  -- each store puts back a value that was at the leaf, so it fits there
  have hfit : ∀ st ∈ Codec.storesOf rec bound, Record.AtLeaf members st.path st.value := by
    intro st hst
    obtain ⟨b, hb, codec, htarget, hv, -⟩ := Codec.mem_storesOf.mp hst
    obtain ⟨shape, hleaf⟩ := hslots b hb st.path codec htarget
    obtain ⟨v, hv', hconforms⟩ := hleaf.load hrec
    obtain rfl := Option.some.inj (hv.symm.trans hv')
    exact ⟨shape, hleaf, hconforms⟩
  obtain ⟨rec', hsettle, hall⟩ := settle_ok left hfit (Shape.defaultRecord_conforms members)
  -- leaf by leaf, what is stored and what is left at its default is what the record holds
  have heq : rec' = rec := by
    refine hall.conforms.ext hrec fun path shape hleaf => ?_
    rcases hall.leaf hleaf with ⟨st, hst, rfl, hslot⟩ | ⟨hnone, hslot⟩
    · obtain ⟨-, -, -, -, hv, -⟩ := Codec.mem_storesOf.mp hst
      rw [hslot, hv]
    rw [hslot, hleaf.slot?_default]
    obtain ⟨v, hv, hconforms⟩ := hleaf.load hrec
    by_cases hfield : ∃ b ∈ bound, ∃ codec, b.target = .slot path codec
    · -- the field was left out, so its slot holds nothing, as it does in fresh storage
      obtain ⟨b, hb, codec, htarget⟩ := hfield
      have hnull : v.isNull = true := by
        cases hnull : v.isNull with
        | true => rfl
        | false =>
          have hstore : ⟨path, v⟩ ∈ Codec.storesOf rec bound :=
            Codec.mem_storesOf.mpr ⟨b, hb, codec, htarget, hv, hnull⟩
          exact (hnone ⟨path, v⟩ hstore rfl).elim
      rw [hv, hconforms.eq_default hnull]
    · refine (others path shape hleaf fun b hb codec htarget => ?_).symm
      exact hfield ⟨b, hb, codec, htarget⟩
  rw [hsettle, heq]

/-- Reading back a record whose fields read back, into the slots that they were read from. -/
theorem Codec.undoes_record {id : Uuid} {layout : RecordLayout} {members : List (Member Shape)}
    {bound : List (BoundField Codec)} {rec : Record} (hundone : FieldsUndone rec bound)
    (hindex : layout = .input → bound.length ≤ UInt32.size)
    (hslots : ∀ b ∈ bound, ∀ path codec, b.target = .slot path codec →
      ∃ shape, Leaf members path shape)
    (hrec : rec.Conforms members)
    (others : ∀ path shape, Leaf members path shape →
      (∀ b ∈ bound, ∀ codec, b.target ≠ .slot path codec) →
        rec.slot? path = some shape.default) :
    Undoes (Codec.record id layout bound (Shape.defaultRecord members)).decode
      ((Codec.record id layout bound (Shape.defaultRecord members)).payload (.record rec))
      (.record rec) := by
  intro bytes h hlt
  have hreads := recordReads_payload hundone hindex h hlt
  rw [decode_record, hreads, settle_storesOf [] hslots hrec others]

/-! ## Values -/

namespace Descriptor

/-- Only arguments send the positions of their fields. -/
theorem Indexable.length_le {d : Descriptor} (h : d.Indexable)
    (hlayout : recordLayout d.kind = .input) : d.fields.length ≤ UInt32.size := by
  cases h with
  | node here _ =>
    refine here ?_
    unfold recordLayout at hlayout
    split at hlayout
    · cases hlayout
    · cases hlayout
    · assumption
    · cases hlayout

/-- Decoding the payload of a value that its codec covers gives the value. -/
theorem Binds.undoes {d : Descriptor} {shape : Shape} {codec : Codec} (h : Binds d shape codec) :
    d.Indexable → ∀ {v : Value}, v.Conforms shape → codec.Covers shape v → v.Exact →
      Undoes codec.decode (codec.payload v) v := by
  induction h with
  | scalar kind base =>
    intro _ v hv _ hexact bytes h _
    cases hv with
    | scalar hasType =>
      cases hexact with
      | scalar here =>
        simp only [Codec.payload, if_pos hasType] at h
        rw [Codec.decode, ← hasType]
        exact Read.map_of_ok _ (Scalar.read_payload here h)
  | array kind fields element ih | setAsArray kind fields element ih =>
    intro hindex v hv hcovers hexact bytes h hlt
    cases hv with
    | array hitems =>
      cases hcovers with
      | array hcovers =>
        cases hexact with
        | array hexact =>
          simp only [Codec.payload] at h
          rw [Codec.decode]
          refine Read.map_of_ok _ (undoes_array (fun v hv => ?_) bytes h hlt)
          exact ih (hindex.first fields) (hitems v hv) (hcovers v hv) (hexact v hv)
  | set kind fields element ih =>
    intro hindex v hv hcovers hexact bytes h hlt
    cases hv with
    | set hitems =>
      cases hcovers with
      | set hcovers =>
        cases hexact with
        | set hexact =>
          simp only [Codec.payload] at h
          rw [Codec.decode]
          refine Read.map_of_ok _ (undoes_array (fun v hv => ?_) bytes h hlt)
          exact ih (hindex.first fields) (hitems v hv) (hcovers v hv) (hexact v hv)
  | @tuple d shapes codecs kind arity length scalars items ih =>
    intro hindex v hv hcovers hexact
    cases hv with
    | tuple hlen hitems =>
      cases hcovers with
      | tuple hcovers =>
        cases hexact with
        | tuple hexact =>
          refine Codec.undoes_tuple d.id fun i codec v hcodec hv hnull => ?_
          obtain ⟨f, shape, hf, hshape⟩ := exists_item arity length hcodec
          exact ih i f shape codec hf hshape hcodec (hindex.part hf)
            ((hitems i v shape hv hshape).required hnull)
            (hcovers i codec shape v hcodec hshape hv hnull)
            (hexact v (List.mem_of_getElem? hv))
  | @record d name members bound kind values length fields codecs ih =>
    intro hindex v hv hcovers hexact
    obtain ⟨rec, rfl, hrec⟩ := Value.conforms_record_iff.mp hv
    cases hcovers with
    | record others slots =>
      cases hexact with
      | record hexact =>
        -- the induction hypothesis covers the fields with slots, at the leaves they resolve to
        have hundone : Codec.FieldsUndone rec bound := by
          intro b hb path codec v htarget hv hnull
          obtain ⟨i, f, shape, hf, hi, hresolve, -⟩ := resolves_of_mem length fields hb htarget
          have hleaf := Leaf.of_resolve? hresolve
          obtain ⟨w, hw, hconforms⟩ := hleaf.load hrec
          obtain rfl := Option.some.inj (hv.symm.trans hw)
          have hcovered := slots b hb path codec shape v htarget hleaf hv hnull
          exact ih i f b path shape codec hf hi htarget hresolve (hindex.part hf)
            (hconforms.required hnull) hcovered (Record.slot?_all hexact hv)
        have hcount : recordLayout d.kind = .input → bound.length ≤ UInt32.size := by
          intro hlayout
          rw [length]
          exact hindex.length_le hlayout
        have hslots : ∀ b ∈ bound, ∀ path codec, b.target = .slot path codec →
            ∃ shape, Leaf members path shape := by
          intro b hb path codec htarget
          obtain ⟨_, _, shape, _, _, hresolve, _⟩ := resolves_of_mem length fields hb htarget
          exact ⟨shape, .of_resolve? hresolve⟩
        exact Codec.undoes_record hundone hcount hslots hrec others
  | range kind fields ranged element ih =>
    intro hindex v hv hcovers hexact bytes h hlt
    cases hv with
    | range hbounds =>
      cases hcovers with
      | range hcovers =>
        cases hexact with
        | range here hexact =>
          simp only [Codec.payload] at h
          rw [Codec.decode]
          refine Read.map_of_ok _ (undoes_range (fun v hv => ?_) here bytes h hlt)
          exact ih (hindex.first fields) (hbounds v hv) (hcovers v hv) (hexact v hv)
  | multirange kind fields ranged element ih =>
    intro hindex v hv hcovers hexact bytes h hlt
    cases hv with
    | multirange hbounds =>
      cases hcovers with
      | multirange hcovers =>
        cases hexact with
        | multirange here hexact =>
          simp only [Codec.payload] at h
          rw [Codec.decode]
          refine Read.map_of_ok _ (undoes_multirange (fun r hr v hv => ?_) here bytes h hlt)
          exact ih (hindex.first fields) (hbounds r hr v hv) (hcovers r hr v hv) (hexact r hr v hv)

/-- What a bound codec has written on its own is closed and reads back as the value, with nothing
left, as long as it is short enough to be an element. -/
theorem bind_roundTrip {d : Descriptor} {required : Bool} {shape : Shape} {codec : Codec}
    (h : d.bind required shape = .ok codec) (hindex : d.Indexable) {v : Value}
    (hv : v.Conforms shape.required) (hcovers : codec.Covers shape.required v) (hexact : v.Exact)
    {w : Writer} (hw : codec.encode v .empty = .ok w)
    (hlt : w.buffer.length < Element.absent.toNat) :
    w.intoBytes = .ok w.buffer ∧ codec.decode.toEnd w.buffer = .ok (v, []) := by
  have hpayload : ∃ bytes, codec.payload v = .ok bytes ∧ Writer.empty.raw bytes = w := by
    rw [codec.writes_encode v] at hw
    exact outcome_map_eq_ok.mp hw
  obtain ⟨bytes, hbytes, rfl⟩ := hpayload
  have hbuffer : (Writer.empty.raw bytes).buffer = bytes := rfl
  rw [hbuffer] at hlt ⊢
  have hback := (binds_of_bind h).undoes hindex hv hcovers hexact bytes hbytes hlt
  exact ⟨rfl, (Read.bind_of_ok hback).trans rfl⟩

/-- An argument with a member that no field goes to. -/
theorem bind_roundTrip_point :
    let point := Descriptor.ofFields .inputShape .nil
      [.named "x" (.ofFields .baseScalar ScalarType.int16.id []) true]
    let shape := Shape.record "Point"
      [⟨"x", none, .scalar .int16, false⟩, ⟨"label", none, .optional (.scalar .str), false⟩]
    let v := Value.record [.scalar (.int16 7), .null]
    ∃ codec w, point.bind true shape = .ok codec ∧ codec.encode v .empty = .ok w ∧
      codec.decode.toEnd w.buffer = .ok (v, []) := by
  intro point shape v
  have hbind : point.bind true shape = .ok _ := rfl
  have hindex : point.Indexable := by
    refine .node (fun _ => by decide) ?_
    rintro f (_ | ⟨_, ⟨⟩⟩)
    refine .node (fun h => nomatch h) ?_
    exact List.forall_mem_nil _
  have hv : v.Conforms shape := by
    refine .record rfl ?_
    rintro (_ | _ | i) w m ⟨⟩ hm
    · obtain rfl := Option.some.inj hm
      exact .scalar rfl
    · obtain rfl := Option.some.inj hm
      exact .null _
  have hexact : v.Exact := by
    refine .record ?_
    rintro w (_ | ⟨_, _ | ⟨_, ⟨⟩⟩⟩)
    · exact .scalar ⟨trivial, trivial⟩
    · exact .null
  have hcovers : Codec.Covers (.record .nil .input
      [⟨"x", true, ⟨0⟩, .slot [0] (.scalar ScalarType.int16.id .int16)⟩]
      [.scalar (.int16 0), .null]) shape v := by
    refine .record ?_ ?_
    · intro path s hleaf hno
      cases hleaf with
      | @own _ i m hm hplain =>
        rcases i with _ | _ | i
        · exact (hno _ List.mem_cons_self _ rfl).elim
        · obtain rfl := Option.some.inj hm
          rfl
        · cases hm
      | @inside _ inner i m path _ hm hnested hleaf =>
        rcases i with _ | _ | i
        · obtain rfl := Option.some.inj hm
          cases hnested
        · obtain rfl := Option.some.inj hm
          cases hnested
        · cases hm
    · rintro b (_ | ⟨_, ⟨⟩⟩) path codec s w ⟨⟩ - - -
      exact .scalar
  exact ⟨_, _, hbind, rfl,
    (Descriptor.bind_roundTrip hbind hindex hv hcovers hexact rfl (by decide)).2⟩

end Descriptor

end TypedWire
