import Mathlib.Data.List.Forall2
import TypedWire.Codec.Into
import TypedWire.Proofs.Codec.Entries
import TypedWire.Proofs.Codec.Stores
import TypedWire.Proofs.Wire.Follows

/-!
# Decoding into storage follows the entries

What is read while storage is filled is what decoding reads, and the storage has no part in it. A
record that is filled reads one entry after the other; unless a store finds no slot, it ends as the
collecting of its entries ends, with their stores carried out.

- `ScalarType.follows_read`, `Codec.follows_decode`: an operation on a reader gives what decoding
  gives.
- `Fill.run_entries`, `Codec.run_fill`: how filling a record ends.
-/

namespace TypedWire

/-! ## Parts of payloads -/

namespace Pull.Follows

variable {α : Type}

/-- A failure under a condition, and what comes if it does not hold. -/
theorem throwIf {c : Prop} [Decidable c] {p : Pull α} {q : Read DecodeError α} (e : DecodeError)
    (h : Follows p q) :
    Follows
      (do
        if c then MonadExcept.throw e
        p)
      (do
        if c then MonadExcept.throw e
        q) := by
  by_cases hc : c
  · rw [if_pos hc, if_pos hc]
    exact (Follows.throw e).bind fun _ => h
  · rw [if_neg hc, if_neg hc]
    exact h

theorem present (e : DecodeError) (found : Option α) :
    Follows (Pull.present e found) (ScalarType.present e found) := by
  cases found with
  | none => exact throw e
  | some a => exact pure a

theorem payload : Follows payload Element.payload := by
  refine Keeps.uint32.follows.bind fun length => ?_
  by_cases h : length = Element.absent
  · rw [if_pos h, if_pos h]
    exact pure none
  · rw [if_neg h, if_neg h]
    exact (Keeps.take _).follows.map some

theorem element (q : Read DecodeError α) : Follows (element q) (Element.read q) := by
  refine payload.bind fun found => ?_
  cases found with
  | none => exact pure none
  | some bytes => exact (inside bytes q.toEnd).map some

theorem required (what : String) (q : Read DecodeError α) :
    Follows (required what q) (Element.required what q) := by
  refine (element q).bind fun found => ?_
  cases found with
  | none => exact throw _
  | some a => exact pure a

theorem expectCount (expected : Nat) :
    Follows (expectCount expected) (TypedWire.expectCount expected) :=
  Keeps.uint32.follows.bind fun _ => throwIf _ (pure ())

theorem arrayItems (q : Read DecodeError α) :
    Follows (arrayItems q) (TypedWire.arrayItems q) := by
  refine Keeps.uint32.follows.bind fun dimensions => (Keeps.skip 8).follows.bind fun _ => ?_
  by_cases hzero : dimensions = 0
  · rw [if_pos hzero, if_pos hzero]
    exact pure []
  · rw [if_neg hzero, if_neg hzero]
    by_cases hone : dimensions = 1
    · rw [if_pos hone, if_pos hone]
      exact Keeps.int32.follows.bind fun upper => Keeps.int32.follows.bind fun lower =>
        throwIf _ ((required "array element" q).times _)
    · rw [if_neg hone, if_neg hone]
      exact throw _

theorem tupleItems (codecs : List Codec) :
    Follows (tupleItems codecs) (Codec.decodeItems codecs) := by
  induction codecs with
  | nil => exact pure []
  | cons codec codecs ih =>
    exact (Keeps.skip 4).follows.bind fun _ => (required _ codec.decode).bind fun item =>
      ih.bind fun items => pure (item :: items)

theorem rangeBound (what : String) (isThere : Bool) (q : Read DecodeError α) :
    Follows (rangeBound what isThere q) (TypedWire.rangeBound what isThere q) := by
  cases isThere with
  | false => exact pure none
  | true => exact (required what q).map some

theorem rangeOf (q : Read DecodeError α) : Follows (rangeOf q) (TypedWire.rangeOf q) :=
  Keeps.uint8.follows.bind fun _ => (rangeBound _ _ q).bind fun _ =>
    (rangeBound _ _ q).bind fun _ => pure _

theorem multirangeOf (q : Read DecodeError α) :
    Follows (multirangeOf q) (TypedWire.multirangeOf q) :=
  Keeps.uint32.follows.bind fun _ => (required "range" (TypedWire.rangeOf q)).times _

/-! ## Scalars -/

theorem sized {p : Pull α} {q : Read DecodeError α} (h : Follows p q) (type : ScalarType)
    (length : Nat) : Follows (type.pullSized length p) (type.sized length q) :=
  remaining.bind fun _ => throwIf _ h

theorem wholeText : Follows ScalarType.pullText ScalarType.wholeText :=
  rest.bind fun bytes => present .invalidUtf8 (Utf8.decode? bytes)

end Pull.Follows

section

open Pull

/-- Taking a scalar off a reader gives what reading it gives. -/
theorem ScalarType.follows_read (type : ScalarType) : Follows type.pull type.read := by
  cases type with
  | uuid => exact (Keeps.uuid.follows.sized _ 16).map _
  | str => exact Follows.wholeText.map _
  | bytes => exact Follows.rest.map _
  | int16 => exact (Keeps.int16.follows.sized _ 2).map _
  | int32 => exact (Keeps.int32.follows.sized _ 4).map _
  | int64 => exact (Keeps.int64.follows.sized _ 8).map _
  | float32 => exact (Keeps.uint32.follows.sized _ 4).map _
  | float64 => exact (Keeps.uint64.follows.sized _ 8).map _
  | bool => exact (Keeps.uint8.follows.sized _ 1).map _
  | datetime | localDatetime | localTime =>
    exact (Keeps.int64.follows.sized _ 8).bind fun micros => (Follows.present _ _).map _
  | localDate => exact (Keeps.int32.follows.sized _ 4).bind fun days => (Follows.present _ _).map _
  | duration =>
    have hmicros := Keeps.int64.follows.bind fun micros =>
      (Keeps.skip 8).follows.bind fun _ => Follows.pure micros
    exact (hmicros.sized _ 16).bind fun micros => (Follows.present _ _).map _
  | json =>
    exact Keeps.uint8.follows.bind fun format => Follows.throwIf _
      (Follows.wholeText.bind fun text => (Follows.present .invalidJson (Json.parse? text)).map _)

/-! ## Entries of records -/

theorem RecordLayout.follows_skip (layout : RecordLayout) : Follows layout.pull layout.skip := by
  cases layout with
  | named | input => exact Follows.payload.bind fun _ => Follows.pure ()
  | output => exact (Keeps.skip typeIdBlock).follows

theorem BoundField.follows_entry (layout : RecordLayout) (b : BoundField Codec) :
    Follows (b.pull layout) (b.entry layout) := by
  unfold BoundField.pull BoundField.entry
  cases b.target with
  | skip => exact layout.follows_skip.bind fun _ => Follows.pure none
  | slot path codec =>
    refine (Follows.element codec.decode).bind fun found => ?_
    cases found with
    | some value => exact Follows.pure _
    | none =>
      dsimp only
      split
      · exact Follows.throw _
      · exact Follows.pure none

end

namespace Codec

open Pull

theorem follows_denseEntry (layout : RecordLayout) (b : BoundField Codec) :
    Follows (pullDense layout b) (denseEntry layout b) :=
  (Keeps.skip 4).follows.bind fun _ => b.follows_entry layout

theorem follows_sparseEntry (fields : List (BoundField Codec)) :
    Follows (pullSparse fields) (sparseEntry fields) := by
  refine Keeps.uint32.follows.bind fun index => ?_
  cases fields[index.toNat]? with
  | none => exact Follows.throw _
  | some b => exact b.follows_entry .input

theorem follows_denseEntries (layout : RecordLayout) (fields : List (BoundField Codec)) :
    List.Forall₂ Follows (fields.map (pullDense layout)) (fields.map (denseEntry layout)) := by
  rw [List.forall₂_map_left_iff, List.forall₂_map_right_iff, List.forall₂_same]
  exact fun b _ => follows_denseEntry layout b

theorem follows_sparseEntries (n : Nat) (fields : List (BoundField Codec)) :
    List.Forall₂ Follows (List.replicate n (pullSparse fields))
      (List.replicate n (sparseEntry fields)) := by
  induction n with
  | zero => exact .nil
  | succ n ih => exact .cons (follows_sparseEntry fields) ih

/-- The count of a record says alike which entries are to follow. -/
theorem run_pullEntries (layout : RecordLayout) (fields : List (BoundField Codec)) (bs : Bytes) :
    (∃ ps rows left, (pullEntries layout fields).run bs = (.ok ps, left) ∧
      entries layout fields bs = .ok (rows, left) ∧ List.Forall₂ Follows ps rows) ∨
    ∃ e left, (pullEntries layout fields).run bs = (.error e, left) ∧
      entries layout fields bs = .error e := by
  cases layout with
  | named | output =>
    rw [pullEntries, entries, run_bind]
    cases hcount : expectCount fields.length bs with
    | ok r =>
      rw [(Follows.expectCount _).ok hcount, Read.bind_of_ok hcount]
      exact .inl ⟨_, _, r.2, rfl, rfl, follows_denseEntries _ fields⟩
    | error e =>
      obtain ⟨left, hleft⟩ := (Follows.expectCount _).error hcount
      rw [hleft, Read.bind_of_error hcount]
      exact .inr ⟨e, left, rfl, rfl⟩
  | input =>
    rw [pullEntries, entries, run_bind]
    cases hpresent : Read.uint32 bs with
    | ok r =>
      rw [Keeps.uint32.ok hpresent, Read.bind_of_ok hpresent]
      dsimp only
      split
      · exact .inr ⟨_, r.2, rfl, rfl⟩
      · exact .inl ⟨_, _, r.2, rfl, rfl, follows_sparseEntries _ fields⟩
    | error e =>
      rw [Keeps.uint32.error hpresent, Read.bind_of_error hpresent]
      exact .inr ⟨e, bs, rfl, rfl⟩

end Codec

/-! ## Filling a record -/

namespace Fill

variable {ps : List (Pull (Option Store))}

theorem run_store (st : Store) (unread : Bytes) (rec : Record) :
    (store st).run (unread, rec) =
      ((rec.storeAll [st]).1, unread, (rec.storeAll [st]).2) := by
  show store st (unread, rec) = _
  rw [store, Record.storeAll]
  cases Record.setSlot? rec st.value st.path <;> rfl

/-- An entry is read, its store is carried out, and the other entries follow. -/
theorem run_entries_cons (p : Pull (Option Store)) (bs : Bytes) (rec : Record) :
    (entries (p :: ps)).run (bs, rec) =
      match p.run bs with
      | (.error e, left) => (.error e, left, rec)
      | (.ok found, left) =>
        match rec.storeAll found.toList with
        | (.ok (), rec) => (entries ps).run (left, rec)
        | (.error e, rec) => (.error e, left, rec) := by
  have hreading : (reading p).run (bs, rec) = ((p.run bs).1, (p.run bs).2, rec) := rfl
  rw [entries, run_bind, entry, run_bind, hreading]
  rcases p.run bs with ⟨e | found, left⟩
  · rfl
  · cases found with
    | none => rfl
    | some st =>
      dsimp only
      rw [run_store]
      show _ = match rec.storeAll [st] with
        | (.ok (), rec) => (entries ps).run (left, rec)
        | (.error e, rec) => (.error e, left, rec)
      rcases rec.storeAll [st] with ⟨_ | ⟨⟩, _⟩ <;> rfl

/-- Filling a record ends as the collecting of its entries has ended, with the stores carried out
that were collected. A store that finds no slot ends it before that. -/
structure Ends (p : Fill Unit) (bs : Bytes) (c : Collected) (unread : Bytes) : Prop where
  behind : c.result = .ok () → unread = c.unread
  done : ∀ {rec out : Record}, rec.storeAll c.stores = (.ok (), out) →
    p.run (bs, rec) = (c.result, unread, out)
  stuck : ∀ {rec out : Record} {e : DecodeError}, rec.storeAll c.stores = (.error e, out) →
    ∃ left, p.run (bs, rec) = (.error e, left, out)

/-- Filling that fails before any store. -/
theorem Ends.failed {p : Fill Unit} {bs left : Bytes} {e : DecodeError}
    (h : ∀ rec, p.run (bs, rec) = (.error e, left, rec)) : Ends p bs ⟨[], bs, some e⟩ left where
  behind hresult := nomatch hresult
  done hall := by
    obtain ⟨-, rfl⟩ := Prod.mk.inj hall
    exact h _
  stuck hall := nomatch hall

theorem run_entries {rows : List (Read DecodeError (Option Store))}
    (h : List.Forall₂ Pull.Follows ps rows) (bs : Bytes) :
    ∃ unread, Ends (entries ps) bs (collect rows bs) unread := by
  -- the unread bytes are found along the entries alone, before there is a record to be filled
  induction h generalizing bs with
  | nil =>
    refine ⟨bs, fun _ => rfl, fun hall => ?_, fun hall => nomatch hall⟩
    obtain ⟨-, rfl⟩ := Prod.mk.inj hall
    rfl
  | @cons p row ps rows hp _ ih =>
    rw [collect]
    cases hrow : row bs with
    | error e =>
      obtain ⟨left, hleft⟩ := hp.error hrow
      exact ⟨left, .failed fun rec => by rw [run_entries_cons, hleft]⟩
    | ok r =>
      obtain ⟨found, left⟩ := r
      obtain ⟨unread, hends⟩ := ih left
      have hstores : ((collect rows left).after found.toList).stores =
        found.toList ++ (collect rows left).stores := rfl
      refine ⟨unread, hends.behind, fun {rec out} hall => ?_, fun {rec out e} hall => ?_⟩
      all_goals
        rw [hstores, Record.storeAll_append] at hall
        rw [run_entries_cons, hp.ok hrow]
        dsimp only
      · rcases hfound : rec.storeAll found.toList with ⟨e | ⟨⟩, mid⟩
        · rw [hfound] at hall
          cases hall
        · rw [hfound] at hall
          exact hends.done hall
      · rcases hfound : rec.storeAll found.toList with ⟨e' | ⟨⟩, mid⟩
        · rw [hfound] at hall
          cases hall
          exact ⟨left, rfl⟩
        · rw [hfound] at hall
          exact hends.stuck hall

end Fill

namespace Codec

/-- Filling a record ends as the collecting of its entries has ended. -/
theorem run_fill (layout : RecordLayout) (fields : List (BoundField Codec)) (bs : Bytes) :
    ∃ unread, Fill.Ends (fill layout fields) bs (collected layout fields bs) unread := by
  have hreading : ∀ rec, (Fill.reading (pullEntries layout fields)).run (bs, rec) =
      (((pullEntries layout fields).run bs).1, ((pullEntries layout fields).run bs).2, rec) :=
    fun _ => rfl
  rw [collected]
  rcases run_pullEntries layout fields bs with
    ⟨ps, rows, left, hps, hrows, hfollows⟩ | ⟨e, left, hps, hrows⟩
  · obtain ⟨unread, hends⟩ := Fill.run_entries hfollows left
    have hfill : ∀ rec, (fill layout fields).run (bs, rec) = (Fill.entries ps).run (left, rec) := by
      intro rec
      rw [fill, run_bind, hreading, hps]
    rw [hrows]
    exact ⟨unread, hends.behind, fun hall => (hfill _).trans (hends.done hall),
      fun hall => hfill _ ▸ hends.stuck hall⟩
  · rw [hrows]
    exact ⟨left, .failed fun rec => by rw [fill, run_bind, hreading, hps]⟩

section

variable {layout : RecordLayout} {fields : List (BoundField Codec)} {bs : Bytes} {rec out : Record}

/-- Filling a record does what settling its reads does. -/
theorem run_fill_of_ok {left : Bytes}
    (h : settle rec (recordReads layout fields bs) = (.ok left, out)) :
    (fill layout fields).run (bs, rec) = (.ok (), left, out) := by
  obtain ⟨unread, hends⟩ := run_fill layout fields bs
  rw [recordReads_eq, Collected.settle_reads] at h
  split at h
  · rename_i hall
    cases hresult : (collected layout fields bs).result with
    | ok u =>
      rw [hresult] at h
      cases h
      rw [hends.done hall, hends.behind hresult, hresult]
    | error e =>
      rw [hresult] at h
      cases h
  · cases h

theorem run_fill_of_error {e : DecodeError}
    (h : settle rec (recordReads layout fields bs) = (.error e, out)) :
    ∃ left, (fill layout fields).run (bs, rec) = (.error e, left, out) := by
  obtain ⟨unread, hends⟩ := run_fill layout fields bs
  rw [recordReads_eq, Collected.settle_reads] at h
  split at h
  · rename_i hall
    cases hresult : (collected layout fields bs).result with
    | ok u =>
      rw [hresult] at h
      cases h
    | error e =>
      rw [hresult] at h
      cases h
      exact ⟨unread, by rw [hends.done hall, hresult]⟩
  · rename_i hstuck
    cases h
    exact hends.stuck hstuck

end

theorem run_pull_record (id : Uuid) (layout : RecordLayout) (fields : List (BoundField Codec))
    (template : Record) (bs : Bytes) :
    (Codec.record id layout fields template).pull.run bs =
      match (fill layout fields).run (bs, template) with
      | (.ok (), left, rec) => (.ok (.record rec), left)
      | (.error e, left, _) => (.error e, left) :=
  rfl

/-- Taking a value off a reader gives what decoding gives. -/
theorem follows_decode (codec : Codec) : Pull.Follows codec.pull codec.decode := by
  cases codec with
  | scalar id type => exact type.follows_read.map _
  | array id element | set id element => exact (Pull.Follows.arrayItems element.decode).map _
  | tuple id elements =>
    exact (Pull.Follows.expectCount _).bind fun _ => (Pull.Follows.tupleItems elements).map _
  | range id element => exact (Pull.Follows.rangeOf element.decode).map _
  | multirange id element => exact (Pull.Follows.multirangeOf element.decode).map _
  | record id layout fields template =>
    constructor
    · intro bs v left h
      rw [decode_record] at h
      split at h
      · rename_i left' rec hsettled
        cases h
        rw [run_pull_record, run_fill_of_ok hsettled]
      · cases h
    · intro bs e h
      rw [decode_record] at h
      split at h
      · cases h
      · rename_i e' rec hsettled
        cases h
        obtain ⟨left, hleft⟩ := run_fill_of_error hsettled
        exact ⟨left, by rw [run_pull_record, hleft]⟩

/-! ## Decoding into storage -/

section

variable {id : Uuid} {layout : RecordLayout} {fields : List (BoundField Codec)} {template : Record}
  {bs : Bytes} {rec out : Record}

theorem decodeInto_record (rec : Record) (bs : Bytes) :
    (Codec.record id layout fields template).decodeInto (.record rec) bs =
      match (fill layout fields).run (bs, rec) with
      | (outcome, left, rec) => ⟨outcome, left, .record rec⟩ :=
  rfl

theorem decodeInto_record_of_ok {left : Bytes}
    (h : settle rec (recordReads layout fields bs) = (.ok left, out)) :
    (Codec.record id layout fields template).decodeInto (.record rec) bs =
      ⟨.ok (), left, .record out⟩ := by
  rw [decodeInto_record, run_fill_of_ok h]

theorem decodeInto_record_of_error {e : DecodeError}
    (h : settle rec (recordReads layout fields bs) = (.error e, out)) :
    ∃ left, (Codec.record id layout fields template).decodeInto (.record rec) bs =
      ⟨.error e, left, .record out⟩ := by
  obtain ⟨left, hleft⟩ := run_fill_of_error h
  exact ⟨left, by rw [decodeInto_record, hleft]⟩

end

section

variable {codec : Codec}

/-- Any codec but that of a record takes a value off the reader. -/
theorem decodeInto_of_ne_record
    (hother : ∀ id layout fields template, codec ≠ .record id layout fields template)
    (storage : Value) (bs : Bytes) :
    codec.decodeInto storage bs = match codec.pull.run bs with
      | (.ok value, left) => ⟨.ok (), left, value⟩
      | (.error e, left) => ⟨.error e, left, storage⟩ := by
  cases codec with
  | record id layout fields template => exact (hother id layout fields template rfl).elim
  | _ => rfl

theorem decodeInto_of_ok
    (hother : ∀ id layout fields template, codec ≠ .record id layout fields template)
    {bs left : Bytes} {v : Value} (h : codec.decode bs = .ok (v, left)) (storage : Value) :
    codec.decodeInto storage bs = ⟨.ok (), left, v⟩ := by
  rw [decodeInto_of_ne_record hother, codec.follows_decode.ok h]

theorem decodeInto_of_error
    (hother : ∀ id layout fields template, codec ≠ .record id layout fields template)
    {bs : Bytes} {e : DecodeError} (h : codec.decode bs = .error e) :
    ∃ left, ∀ storage, codec.decodeInto storage bs = ⟨.error e, left, storage⟩ := by
  obtain ⟨left, hleft⟩ := codec.follows_decode.error h
  exact ⟨left, fun storage => by rw [decodeInto_of_ne_record hother, hleft]⟩

end

end Codec

end TypedWire
