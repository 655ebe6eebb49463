import TypedWire.Codec.Decode
import TypedWire.Proofs.Wire.Reads

/-!
# Records entry by entry

Behind its count a record is a row of entries, one for every field or one for each that is present.
Reading an entry gives what is to be stored for it, and what is stored for a record is collected
from its entries, up to the first that cannot be read.

- `BoundField.entry`, `Codec.entries`: the entries of a record.
- `collect`, `Codec.collected`: what is collected from entries, and where it ends.
- `Codec.recordReads_eq`: reading a record is collecting from its entries.
-/

namespace TypedWire

/-! ## Stores after stores -/

section

variable {α β : Type} {done : List Store}

theorem afterStores_of_ok {p : Read DecodeError α} {bs : Bytes} {r : α × Bytes}
    (h : p bs = .ok r) : afterStores done p bs = .ok r :=
  Read.mapError_of_ok h

theorem afterStores_of_error {p : Read DecodeError α} {bs : Bytes} {e : DecodeError}
    (h : p bs = .error e) : afterStores done p bs = .error ⟨e, done⟩ :=
  Read.mapError_of_error _ h

theorem afterStores_bind (p : Read DecodeError α) (f : α → Read DecodeError β) :
    afterStores done (p >>= f) = afterStores done p >>= fun a => afterStores done (f a) :=
  Read.mapError_bind _ p f

theorem afterStores_pure (a : α) : afterStores done (pure a) = pure a := rfl

end

/-! ## What is collected from entries -/

/-- What was collected from a row of entries. -/
structure Collected where
  /-- What the entries that were read ask to be stored, in their order. -/
  stores : List Store
  /-- The bytes behind those entries. -/
  unread : Bytes
  /-- Why the entry behind them could not be read, if there is one. -/
  failure : Option DecodeError

namespace Collected

/-- How the collecting has ended. -/
def result (c : Collected) : Except DecodeError Unit :=
  match c.failure with
  | none => .ok ()
  | some e => .error e

/-- What is collected after the given stores. -/
def after (done : List Store) (c : Collected) : Collected := { c with stores := done ++ c.stores }

/-- The outcome of a read of fields. -/
def reads (c : Collected) : Except Interrupted (List Store × Bytes) :=
  match c.failure with
  | none => .ok (c.stores, c.unread)
  | some e => .error ⟨e, c.stores⟩

theorem reads_eq_ok {c : Collected} {stores : List Store} {left : Bytes}
    (h : c.reads = .ok (stores, left)) : c.stores = stores ∧ c.unread = left := by
  unfold reads at h
  split at h
  · exact Prod.mk.inj (Except.ok.inj h)
  · cases h

/-- Storage takes the stores, up to one that finds no slot, and then the outcome is that of the
collecting. -/
theorem settle_reads (c : Collected) (rec : Record) :
    settle rec c.reads = match rec.storeAll c.stores with
      | (.ok (), out) => (c.result.map fun _ => c.unread, out)
      | (.error e, out) => (.error e, out) := by
  obtain ⟨stores, unread, failure⟩ := c
  rw [reads, result]
  cases failure <;> rfl

end Collected

/-- Reads entries one after the other, up to the first that cannot be read. -/
def collect : List (Read DecodeError (Option Store)) → Bytes → Collected
  | [], bs => ⟨[], bs, none⟩
  | entry :: entries, bs =>
    match entry bs with
    | .ok (found, left) => (collect entries left).after found.toList
    | .error e => ⟨[], bs, some e⟩

/-- After some stores, entries are collected from one by one. -/
theorem reads_collect_cons (entry : Read DecodeError (Option Store))
    (entries : List (Read DecodeError (Option Store))) (done : List Store) (bs : Bytes) :
    ((collect (entry :: entries) bs).after done).reads =
      (afterStores done entry >>= fun found left =>
        ((collect entries left).after (done ++ found.toList)).reads) bs := by
  rw [collect]
  cases hentry : entry bs with
  | error e =>
    rw [Read.bind_of_error (afterStores_of_error hentry)]
    dsimp only [Collected.after, Collected.reads]
    rw [List.append_nil]
  | ok r =>
    rw [Read.bind_of_ok (afterStores_of_ok hentry)]
    dsimp only [Collected.after]
    rw [List.append_assoc]

/-! ## The entries of a record -/

/-- Reads what is sent for a field, and gives what is to be stored. Only an argument may lack a
required field. -/
def BoundField.entry (layout : RecordLayout) (b : BoundField Codec) :
    Read DecodeError (Option Store) :=
  match b.target with
  | .skip => do
    layout.skip
    return none
  | .slot path codec => do
    match (← Element.read codec.decode) with
    | some value => return some ⟨path, value⟩
    | none => if b.required ∧ layout ≠ .input then throw (.missingRequired b.name) else return none

section

variable {β : Type} {layout : RecordLayout} {name : String} {required : Bool} {flags : FieldFlags}
  {done : List Store}

/-- A field without a slot is passed over. -/
theorem BoundField.bind_entry_skip (k : Option Store → Read Interrupted β) :
    afterStores done (entry layout ⟨name, required, flags, .skip⟩) >>= k =
      afterStores done layout.skip >>= fun _ => k none := by
  rw [entry, afterStores_bind, bind_assoc]
  refine congrArg _ (funext fun _ => ?_)
  rw [afterStores_pure, pure_bind]

/-- A field with a slot is read as an element. -/
theorem BoundField.bind_entry_slot {path : StoragePath} {codec : Codec}
    (k : Option Store → Read Interrupted β) :
    afterStores done (entry layout ⟨name, required, flags, .slot path codec⟩) >>= k =
      afterStores done (Element.read codec.decode) >>= fun found =>
        match found with
        | some value => k (some ⟨path, value⟩)
        | none =>
          if required = true ∧ layout ≠ .input then throw ⟨.missingRequired name, done⟩
          else k none := by
  rw [entry, afterStores_bind, bind_assoc]
  refine congrArg _ (funext fun found => ?_)
  cases found with
  | some value => rfl
  | none =>
    dsimp only
    split <;> rfl

end

namespace Codec

/-- The entry of a field where every field is sent. -/
def denseEntry (layout : RecordLayout) (b : BoundField Codec) :
    Read DecodeError (Option Store) := do
  Read.skip 4
  b.entry layout

/-- An entry that says itself which field it is for. -/
def sparseEntry (fields : List (BoundField Codec)) : Read DecodeError (Option Store) := do
  let index ← Read.uint32
  match fields[index.toNat]? with
  | some b => b.entry .input
  | none => throw (.invalidIndex index)

/-- Reads the count of a record, and gives the entries that are to follow. -/
def entries (layout : RecordLayout) (fields : List (BoundField Codec)) :
    Read DecodeError (List (Read DecodeError (Option Store))) :=
  match layout with
  | .named | .output => do
    expectCount fields.length
    return fields.map (denseEntry layout)
  | .input => do
    let present ← Read.uint32
    if fields.length < present.toNat then throw (.elementCount fields.length present.toNat)
    return List.replicate present.toNat (sparseEntry fields)

/-- What is collected from the payload of a record. -/
def collected (layout : RecordLayout) (fields : List (BoundField Codec)) (bs : Bytes) : Collected :=
  match entries layout fields bs with
  | .ok (entries, left) => collect entries left
  | .error e => ⟨[], bs, some e⟩

variable {layout : RecordLayout} {fields : List (BoundField Codec)}

theorem decodeFields_cons (hlayout : layout ≠ .input) (b : BoundField Codec) (done : List Store) :
    decodeFields layout (b :: fields) done = afterStores done (denseEntry layout b) >>=
      fun found => decodeFields layout fields (done ++ found.toList) := by
  obtain ⟨name, required, flags, target⟩ := b
  rw [denseEntry, afterStores_bind, bind_assoc]
  cases target with
  | skip =>
    rw [decodeFields]
    refine congrArg _ (funext fun _ => ?_)
    rw [BoundField.bind_entry_skip, Option.toList_none, List.append_nil]
  | slot path codec =>
    rw [decodeFields]
    refine congrArg _ (funext fun _ => ?_)
    rw [BoundField.bind_entry_slot]
    refine congrArg _ (funext fun found => ?_)
    cases found with
    | some value => rfl
    | none => simp [hlayout]

theorem decodeAt_eq (index : UInt32) (i : Nat) (done : List Store) :
    decodeAt index i fields done =
      afterStores done (match fields[i]? with
        | some b => b.entry .input
        | none => throw (.invalidIndex index)) >>= fun found => pure (done ++ found.toList) := by
  induction fields generalizing i with
  | nil => rfl
  | cons b fields ih =>
    cases i with
    | succ i =>
      rw [decodeAt, List.getElem?_cons_succ]
      exact ih i
    | zero =>
      obtain ⟨name, required, flags, target⟩ := b
      rw [List.getElem?_cons_zero]
      dsimp only
      cases target with
      | skip => rw [decodeAt, BoundField.bind_entry_skip, Option.toList_none, List.append_nil]
      | slot path codec =>
        rw [decodeAt, BoundField.bind_entry_slot]
        refine congrArg _ (funext fun found => ?_)
        cases found with
        | some value => rfl
        | none => simp

/-- Fields that are all sent are collected from. -/
theorem decodeFields_eq (hlayout : layout ≠ .input) (done : List Store) (bs : Bytes) :
    decodeFields layout fields done bs =
      ((collect (fields.map (denseEntry layout)) bs).after done).reads := by
  induction fields generalizing done bs with
  | nil =>
    rw [decodeFields]
    show _ = Except.ok (done ++ [], bs)
    rw [List.append_nil]
    rfl
  | cons b fields ih =>
    rw [decodeFields_cons hlayout, List.map_cons, reads_collect_cons]
    exact Read.bind_congr fun _ left => ih _ left

/-- Fields with their positions are collected from. -/
theorem iterate_eq (n : Nat) (done : List Store) (bs : Bytes) :
    Read.iterate n (fun done => do
      let index ← afterStores done Read.uint32
      decodeAt index index.toNat fields done) done bs =
        ((collect (List.replicate n (sparseEntry fields)) bs).after done).reads := by
  have hbody : ∀ done, (do
      let index ← afterStores done Read.uint32
      decodeAt index index.toNat fields done) =
        afterStores done (sparseEntry fields) >>= fun found => pure (done ++ found.toList) := by
    intro done
    rw [sparseEntry, afterStores_bind, bind_assoc]
    exact congrArg _ (funext fun index => decodeAt_eq index index.toNat done)
  induction n generalizing done bs with
  | zero =>
    show Except.ok (done, bs) = Except.ok (done ++ [], bs)
    rw [List.append_nil]
  | succ n ih =>
    rw [Read.iterate, hbody, bind_assoc, List.replicate_succ, reads_collect_cons]
    refine Read.bind_congr fun found left => ?_
    rw [pure_bind]
    exact ih _ left

theorem reads_collected (layout : RecordLayout) (fields : List (BoundField Codec)) (bs : Bytes) :
    (collected layout fields bs).reads = (afterStores [] (entries layout fields) >>=
      fun found left => (collect found left).reads) bs := by
  rw [collected]
  cases hrun : entries layout fields bs with
  | error e =>
    rw [Read.bind_of_error (afterStores_of_error hrun)]
    rfl
  | ok r => rw [Read.bind_of_ok (afterStores_of_ok hrun)]

/-- Reading a record is collecting from its entries. -/
theorem recordReads_eq (layout : RecordLayout) (fields : List (BoundField Codec)) (bs : Bytes) :
    recordReads layout fields bs = (collected layout fields bs).reads := by
  rw [reads_collected, recordReads, recordStores.eq_def, entries.eq_def]
  cases layout with
  | named | output =>
    dsimp only
    rw [afterStores_bind, bind_assoc]
    refine Read.bind_congr fun _ left => (decodeFields_eq ?_ [] left).trans rfl
    nofun
  | input =>
    dsimp only
    rw [afterStores_bind, bind_assoc]
    refine Read.bind_congr fun present left => ?_
    split
    · rfl
    · exact iterate_eq present.toNat [] left

/-- A record is decoded by filling fresh storage. -/
theorem decode_record (id : Uuid) (layout : RecordLayout) (fields : List (BoundField Codec))
    (template : Record) (bs : Bytes) :
    (Codec.record id layout fields template).decode bs =
      match settle template (recordReads layout fields bs) with
      | (.ok left, rec) => .ok (.record rec, left)
      | (.error e, _) => .error e := by
  rw [decode]
  rfl

end Codec

end TypedWire
