import TypedWire.Proofs.Codec.Soundness
import TypedWire.Proofs.Wire.Delimited

/-!
# Payloads that know where they end

A scalar fills whatever bytes it is given. All other payloads are put together from counts and
elements, and an element gives its scalars exactly the bytes that its length says; so they know
where they end, whether or not a type is behind the codec.

- `Element.delimited_read`: an element knows where it ends, whatever reads its payload.
- `Interrupted.Short`: a record that breaks off for want of bytes has made the first of its stores.
- `Continues`: a read of further fields keeps the stores so far, and knows where it ends.
- `Codec.delimited_decode`: a payload that is no scalar knows where it ends.
- `Codec.decode_self_delimiting`: more bytes are left unread, and fewer run out.
-/

namespace TypedWire

open DecodeError (RunsOut)
open Read (Delimited Meets)

variable {α : Type}

/-! ## Elements, arrays and ranges -/

namespace Element

theorem delimited_payload : Delimited payload fun _ => RunsOut := by
  refine Read.delimited_uint32.next fun length => ?_
  split
  · exact .pure none
  · exact (Read.delimited_take length.toNat).map some

/-- An element knows where it ends, whatever reads its payload. -/
theorem delimited_read (p : Read DecodeError α) : Delimited (read p) fun _ => RunsOut := by
  refine delimited_payload.next fun found => ?_
  cases found with
  | none => exact .pure none
  | some bytes => exact (Delimited.inside bytes p.toEnd).map some

theorem delimited_required (what : String) (p : Read DecodeError α) :
    Delimited (required what p) fun _ => RunsOut := by
  refine (delimited_read p).next fun found => ?_
  cases found with
  | none => exact .throw _
  | some a => exact .pure a

end Element

theorem delimited_expectCount (n : Nat) : Delimited (expectCount n) fun _ => RunsOut := by
  refine Read.delimited_uint32.next fun count => ?_
  split
  · exact .throw _
  · exact .pure ()

theorem delimited_arrayItems (p : Read DecodeError α) :
    Delimited (arrayItems p) fun _ => RunsOut := by
  refine Read.delimited_uint32.next fun dimensions => ?_
  refine (Read.delimited_skip 8).next fun _ => ?_
  split
  · exact .pure []
  split
  · refine Read.delimited_int32.next fun upper => ?_
    refine Read.delimited_int32.next fun lower => ?_
    dsimp only
    split
    · exact .throw_bind _
    · exact (Element.delimited_required "array element" p).times _
  · exact .throw _

theorem delimited_rangeBound (what : String) (isThere : Bool) (p : Read DecodeError α) :
    Delimited (rangeBound what isThere p) fun _ => RunsOut := by
  unfold rangeBound
  split
  · exact (Element.delimited_required what p).map some
  · exact .pure none

theorem delimited_rangeOf (p : Read DecodeError α) : Delimited (rangeOf p) fun _ => RunsOut := by
  refine Read.delimited_uint8.next fun flags => ?_
  refine (delimited_rangeBound _ _ p).next fun lower => ?_
  exact (delimited_rangeBound _ _ p).next fun upper => .pure _

theorem delimited_multirangeOf (p : Read DecodeError α) :
    Delimited (multirangeOf p) fun _ => RunsOut :=
  Read.delimited_uint32.next fun count =>
    (Element.delimited_required "range" (rangeOf p)).times count.toNat

/-! ## Tuples and records -/

/-- A record breaks off for want of bytes, after the first of the stores that it asks for. -/
structure Interrupted.Short (stores : List Store) (i : Interrupted) : Prop where
  cause : i.cause.RunsOut
  done : i.done <+: stores

/-- After some stores, a read of further fields knows where it ends and keeps those stores. -/
structure Continues (done : List Store) (p : Read Interrupted (List Store)) : Prop where
  keeps : Meets p (done <+: ·) fun _ => True
  delimited : Delimited p Interrupted.Short

namespace Continues

variable {done : List Store}

theorem pure {stores : List Store} (h : done <+: stores) : Continues done (pure stores) :=
  ⟨.pure h, .pure stores⟩

theorem throw (i : Interrupted) : Continues done (throw i) :=
  ⟨.throw trivial, .throw i⟩

/-- What continues from more stores also continues from the first of them. -/
theorem mono {later : List Store} {p : Read Interrupted (List Store)} (hp : Continues later p)
    (h : done <+: later) : Continues done p :=
  ⟨hp.keeps.mono fun _ hlater => h.trans hlater, hp.delimited⟩

/-- An item is read, and then the fields are continued. -/
theorem after {p : Read DecodeError α} {f : α → Read Interrupted (List Store)}
    (hp : Delimited p fun _ => RunsOut) (hf : ∀ a, Continues done (f a)) :
    Continues done (afterStores done p >>= f) where
  keeps := (Meets.any _).bind fun a _ => (hf a).keeps
  delimited := by
    have hitem : Delimited (afterStores done p) fun _ i => i.cause.RunsOut ∧ i.done = done :=
      hp.mapError _ fun _ _ he => ⟨he, rfl⟩
    refine hitem.bind (fun a => (hf a).delimited) ?_
    rintro a bs stores left i hrun ⟨hcause, hdone⟩
    exact ⟨hcause, hdone ▸ (hf a).keeps.good hrun⟩

theorem bind {p : Read Interrupted (List Store)} {f : List Store → Read Interrupted (List Store)}
    (hp : Continues done p) (hf : ∀ stores, Continues stores (f stores)) :
    Continues done (p >>= f) where
  keeps := hp.keeps.bind fun stores hstores => ((hf stores).mono hstores).keeps
  delimited := by
    refine hp.delimited.bind (fun stores => (hf stores).delimited) ?_
    intro stores bs later left i hrun hshort
    exact ⟨hshort.cause, hshort.done.trans ((hf stores).keeps.good hrun)⟩

theorem iterate {f : List Store → Read Interrupted (List Store)}
    (hf : ∀ stores, Continues stores (f stores)) (n : Nat) (done : List Store) :
    Continues done (Read.iterate n f done) := by
  induction n generalizing done with
  | zero => exact .pure List.prefix_rfl
  | succ n ih => exact (hf done).bind ih

end Continues

theorem RecordLayout.delimited_skip (layout : RecordLayout) :
    Delimited layout.skip fun _ => RunsOut := by
  cases layout with
  | named | input => exact Element.delimited_payload.next fun _ => .pure ()
  | output => exact Read.delimited_skip typeIdBlock

/-- The stores of a record are continued if those of its fields are. -/
theorem continues_recordStores (layout : RecordLayout) (count : Nat)
    {dense : Read Interrupted (List Store)} {sparse : UInt32 → List Store →
      Read Interrupted (List Store)} (hdense : Continues [] dense)
    (hsparse : ∀ index done, Continues done (sparse index done)) :
    Continues [] (recordStores layout count dense sparse) := by
  cases layout with
  | named | output => exact .after (delimited_expectCount count) fun _ => hdense
  | input =>
    refine .after Read.delimited_uint32 fun present => ?_
    dsimp only
    split
    · exact .throw _
    · exact .iterate (fun done => .after Read.delimited_uint32 fun index => hsparse index done) _ []

namespace Codec

theorem delimited_decodeItems (codecs : List Codec) :
    Delimited (decodeItems codecs) fun _ => RunsOut := by
  induction codecs with
  | nil =>
    rw [decodeItems]
    exact .pure []
  | cons codec codecs ih =>
    rw [decodeItems]
    refine (Read.delimited_skip 4).next fun _ => ?_
    refine (Element.delimited_required _ codec.decode).next fun item => ?_
    exact ih.next fun items => .pure (item :: items)

theorem continues_decodeFields (layout : RecordLayout) (fields : List (BoundField Codec))
    (done : List Store) : Continues done (decodeFields layout fields done) := by
  induction fields generalizing done with
  | nil =>
    rw [decodeFields]
    exact .pure List.prefix_rfl
  | cons b fields ih =>
    obtain ⟨name, required, flags, target⟩ := b
    cases target with
    | skip =>
      rw [decodeFields]
      exact .after (Read.delimited_skip 4) fun _ => .after layout.delimited_skip fun _ => ih done
    | slot path codec =>
      rw [decodeFields]
      refine .after (Read.delimited_skip 4) fun _ => ?_
      refine .after (Element.delimited_read codec.decode) fun found => ?_
      cases found with
      | some v => exact (ih (done ++ [⟨path, v⟩])).mono (List.prefix_append ..)
      | none =>
        cases required with
        | true => exact .throw _
        | false => exact ih done

theorem continues_decodeAt (index : UInt32) (i : Nat) (fields : List (BoundField Codec))
    (done : List Store) : Continues done (decodeAt index i fields done) := by
  induction fields generalizing i with
  | nil =>
    rw [decodeAt]
    exact .throw _
  | cons b fields ih =>
    cases i with
    | zero =>
      obtain ⟨name, required, flags, target⟩ := b
      cases target with
      | skip =>
        rw [decodeAt]
        exact .after RecordLayout.input.delimited_skip fun _ => .pure List.prefix_rfl
      | slot path codec =>
        rw [decodeAt]
        refine .after (Element.delimited_read codec.decode) fun found => ?_
        cases found with
        | some v => exact .pure (List.prefix_append ..)
        | none => exact .pure List.prefix_rfl
    | succ i =>
      rw [decodeAt]
      exact ih i

theorem continues_recordReads (layout : RecordLayout) (fields : List (BoundField Codec)) :
    Continues [] (recordReads layout fields) :=
  continues_recordStores layout fields.length (continues_decodeFields layout fields [])
    fun index done => continues_decodeAt index index.toNat fields done

end Codec

/-! ## Payloads -/

/-- If all of some stores find their slots, so do the first of them. -/
theorem Record.storeAll_prefix {rec rec' : Record} {done stores : List Store}
    (h : rec.storeAll stores = (.ok (), rec')) (hstarts : done <+: stores) :
    ∃ mid, rec.storeAll done = (.ok (), mid) := by
  obtain ⟨later, rfl⟩ := hstarts
  rw [storeAll_append] at h
  split at h
  · exact ⟨_, ‹_›⟩
  · cases h

/-- A record is settled if all its stores are read and find their slots. -/
theorem settle_eq_ok {storage rec : Record} {left : Bytes}
    {outcome : Except Interrupted (List Store × Bytes)} :
    settle storage outcome = (.ok left, rec) ↔
      ∃ stores, outcome = .ok (stores, left) ∧ storage.storeAll stores = (.ok (), rec) := by
  constructor
  · intro h
    rcases outcome with ⟨cause, done⟩ | ⟨stores, left'⟩
    · rw [settle] at h
      split at h <;> cases h
    · rw [settle] at h
      split at h
      · rename_i hall
        cases h
        exact ⟨stores, rfl, hall⟩
      · cases h
  · rintro ⟨stores, rfl, hall⟩
    rw [settle, hall]

namespace Codec

theorem delimited_decode_record (typeId : Uuid) (layout : RecordLayout)
    (fields : List (BoundField Codec)) (template : Record) :
    Delimited (Codec.record typeId layout fields template).decode fun _ => RunsOut where
  exactly {bs v left} hrun := by
    rw [decode_record] at hrun
    split at hrun
    · rename_i rec hsettled
      obtain ⟨rfl, rfl⟩ := Prod.mk.inj (Except.ok.inj hrun)
      obtain ⟨stores, hreads, hall⟩ := settle_eq_ok.mp hsettled
      obtain ⟨front, rfl, hfront⟩ := (continues_recordReads layout fields).delimited.exactly hreads
      refine ⟨front, rfl, fun more => ?_, fun happend htail => ?_⟩
      · rw [decode_record, settle_eq_ok.mpr ⟨stores, hfront.takes more, hall⟩]
      · -- the stores made so far find their slots, so it is the break that is told
        obtain ⟨i, hi, hshort⟩ := hfront.cut happend htail
        obtain ⟨mid, hmid⟩ := Record.storeAll_prefix hall hshort.done
        exact ⟨i.cause, by rw [decode_record, hi, settle, hmid], hshort.cause⟩
    · cases hrun

/-- A payload that is no scalar knows where it ends. -/
theorem delimited_decode {codec : Codec} (h : codec.isScalar = false) :
    Delimited codec.decode fun _ => RunsOut := by
  cases codec with
  | scalar typeId type => cases h
  | array typeId element =>
    rw [decode]
    exact (delimited_arrayItems element.decode).map Value.array
  | set typeId element =>
    rw [decode]
    exact (delimited_arrayItems element.decode).map Value.set
  | tuple typeId elements =>
    rw [decode]
    exact (delimited_expectCount _).next fun _ => (delimited_decodeItems elements).map Value.tuple
  | record typeId layout fields template => exact delimited_decode_record ..
  | range typeId element =>
    rw [decode]
    exact (delimited_rangeOf element.decode).map Value.range
  | multirange typeId element =>
    rw [decode]
    exact (delimited_multirangeOf element.decode).map Value.multirange

/-- A payload that is no scalar says itself where it ends. Bytes behind it are left unread, and if
any of its own are missing at the end, reading it runs out of bytes and fails in no other way. -/
theorem decode_self_delimiting {codec : Codec} (h : codec.isScalar = false) :
    (∀ bs v left more, codec.decode bs = .ok (v, left) →
      codec.decode (bs ++ more) = .ok (v, left ++ more)) ∧
    ∀ bs v head, codec.decode bs = .ok (v, []) → head <+: bs → head ≠ bs →
      ∃ needed remaining, codec.decode head = .error (.overread needed remaining) := by
  constructor
  · intro bs v left more hrun
    exact (delimited_decode h).append hrun more
  · intro bs v head hrun hstarts hne
    obtain ⟨e, he, needed, remaining, rfl⟩ := (delimited_decode h).cut hrun hstarts hne
    exact ⟨needed, remaining, he⟩

/-- An argument that gives the second of two fields, the integers that are at least seven. -/
theorem decode_self_delimiting_argument :
    let field (name : String) (i : Nat) (codec : Codec) : BoundField Codec :=
      ⟨name, false, ⟨0⟩, .slot [i] codec⟩
    let codec := Codec.record .nil .input
      [field "id" 0 (.scalar .nil .uuid), field "span" 1 (.range .nil (.scalar .nil .int16))]
      [.null, .null]
    let bs : Bytes := [0, 0, 0, 1, 0, 0, 0, 1, 0, 0, 0, 7, 0x12, 0, 0, 0, 2, 0, 7]
    let span : Range Value := ⟨some (.scalar (.int16 7)), none, true, false, false⟩
    codec.isScalar = false ∧ codec.decode bs = .ok (.record [.null, .range span], []) ∧
      codec.decode (bs ++ [1, 2]) = .ok (.record [.null, .range span], [1, 2]) ∧
      ∃ needed remaining,
        codec.decode (bs.take 17) = .error (.overread needed remaining) := by
  intro field codec bs span
  have hrun : codec.decode bs = .ok (.record [.null, .range span], []) := by
    dsimp only [codec, field, bs, span]
    rfl
  have hdelimited := @decode_self_delimiting codec rfl
  exact ⟨rfl, hrun, hdelimited.1 bs _ [] [1, 2] hrun,
    hdelimited.2 bs _ _ hrun (List.take_prefix 17 bs) (by decide)⟩

end Codec

end TypedWire
