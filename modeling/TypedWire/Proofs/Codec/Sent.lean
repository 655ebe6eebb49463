import TypedWire.Proofs.Binding.Parts
import TypedWire.Proofs.Codec.Rewrites
import TypedWire.Proofs.Codec.Soundness

/-!
# What the fields of a record are sent as

A named tuple or a result sends all fields of a record, each behind four bytes that nothing looks
at. What decoding does with them is told field by field, without the bytes.

- `SentAs`, `Sends`: the bytes that fields are sent as, with their payloads.
- `readParts`: what decoding stores for fields with their payloads, and where it breaks off.
- `Codec.decodeFields_sent`, `Codec.exists_sent`: decoding the bytes of fields is reading the
  payloads, and all that is decoded is the bytes of fields.
- `Codec.MissingSent`: a field that may not be absent is sent as absent.
- `Descriptor.bind_required`: no record is decoded without a field that may not be absent, except
  an argument.
-/

namespace TypedWire

open Read (Takes Reads spellBlock)

variable {α : Type}

namespace Element

/-- The bytes of an element: the mark for absence, or the block of a payload. -/
inductive Framed : Bytes → Option Bytes → Prop
  | absent : Framed absentMark none
  | present {payload : Bytes} (short : payload.length < absent.toNat) :
      Framed (spellBlock payload) (some payload)

theorem reads_payload : Reads payload Framed := by
  intro bs found left
  constructor
  · intro h
    obtain ⟨n, mid, hn, hrest⟩ := Read.bind_eq_ok h
    obtain ⟨front, rfl, rfl⟩ := (Read.reads_uint32 _ _ _).mp hn
    split at hrest
    · rename_i habsent
      obtain ⟨rfl, rfl⟩ := Prod.mk.inj (Except.ok.inj hrest)
      exact ⟨_, rfl, habsent ▸ .absent⟩
    · rename_i hpresent
      obtain ⟨bytes, htake, rfl⟩ := Read.map_eq_ok hrest
      obtain ⟨inner, rfl, rfl, hlen⟩ := (Read.reads_take _ _ _ _).mp htake
      -- of the lengths that four bytes hold only the largest one marks absence
      have hshort : inner.length < absent.toNat := by
        have hne : n.toNat ≠ absent.toNat := fun heq => hpresent (UInt32.toNat_inj.mp heq)
        have hlt : n.toNat < UInt32.size := n.toNat_lt
        have hsize := size_absent
        omega
      refine ⟨spellBlock inner, ?_, .present hshort⟩
      rw [spellBlock, hlen, List.append_assoc]
  · rintro ⟨front, rfl, habsent | hshort⟩
    · exact Takes.bind (Read.takes_uint32 absent) (.pure none) left
    · exact takes_payload hshort left

/-- What is read as an element is the bytes of one. -/
theorem exists_framed {p : Read DecodeError α} {bs left : Bytes} {found : Option α}
    (h : read p bs = .ok (found, left)) :
    ∃ payload block, bs = block ++ left ∧ Framed block payload := by
  obtain ⟨payload, mid, hpayload, hrest⟩ := Read.bind_eq_ok h
  obtain ⟨block, rfl, hblock⟩ := (reads_payload _ _ _).mp hpayload
  cases payload with
  | none =>
    obtain ⟨-, rfl⟩ := Prod.mk.inj (Except.ok.inj hrest)
    exact ⟨none, block, rfl, hblock⟩
  | some bytes =>
    obtain ⟨a, hinside, -⟩ := Read.map_eq_ok hrest
    unfold Read.inside at hinside
    split at hinside
    · obtain ⟨-, rfl⟩ := Prod.mk.inj (Except.ok.inj hinside)
      exact ⟨some bytes, block, rfl, hblock⟩
    · cases hinside

end Element

theorem reads_layoutSkip (layout : RecordLayout) : Reads layout.skip (Takes layout.skip) := by
  cases layout with
  | named | input => exact ((Element.reads_payload.bind fun _ => .pure ())).self
  | output => exact (Read.reads_skip _).self

/-! ## Fields and their payloads -/

/-- The bytes of a field, with its payload: what is passed over if it has no slot, otherwise an
element. -/
inductive SentAs (layout : RecordLayout) : Target Codec → Option Bytes → Bytes → Prop
  | skip {block : Bytes} (passed : Takes layout.skip block ()) : SentAs layout .skip none block
  | slot {path : StoragePath} {codec : Codec} {payload : Option Bytes} {block : Bytes}
      (framed : Element.Framed block payload) : SentAs layout (.slot path codec) payload block

/-- The bytes of fields, with their payloads, one after the other and each behind four bytes. -/
inductive Sends (layout : RecordLayout) : List (BoundField Codec × Option Bytes) → Bytes → Prop
  | nil : Sends layout [] []
  | cons {b : BoundField Codec} {payload : Option Bytes}
      {parts : List (BoundField Codec × Option Bytes)} {reserved block rest : Bytes}
      (length : reserved.length = 4) (sent : SentAs layout b.target payload block)
      (others : Sends layout parts rest) :
      Sends layout ((b, payload) :: parts) (reserved ++ (block ++ rest))

/-- What decoding stores for fields with their payloads, after the given stores, up to the first one
that it breaks off at. -/
def readParts : List (BoundField Codec × Option Bytes) → List Store →
    Except Interrupted (List Store)
  | [], done => .ok done
  | (⟨_, _, _, .skip⟩, _) :: parts, done => readParts parts done
  | (⟨name, required, _, .slot _ _⟩, none) :: parts, done =>
    if required then .error ⟨.missingRequired name, done⟩ else readParts parts done
  | (⟨_, _, _, .slot path codec⟩, some payload) :: parts, done =>
    match codec.decode.toEnd payload with
    | .ok (value, _) => readParts parts (done ++ [⟨path, value⟩])
    | .error e => .error ⟨e, done⟩

namespace Codec

/-- Decoding the bytes of fields is reading their payloads. -/
theorem decodeFields_sent {layout : RecordLayout} {parts : List (BoundField Codec × Option Bytes)}
    {bytes : Bytes} (h : Sends layout parts bytes) (left : Bytes) (done : List Store) :
    decodeFields layout (parts.map Prod.fst) done (bytes ++ left) =
      (readParts parts done).map (·, left) := by
  induction h generalizing done with
  | nil =>
    rw [List.map_nil, decodeFields]
    rfl
  | @cons b payload parts reserved block rest hlen hsent hothers ih =>
    obtain ⟨name, required, flags, target⟩ := b
    have hskip := takes_afterStores done ((Read.reads_skip 4).takes (a := ()) hlen)
    rw [List.append_assoc, List.append_assoc]
    cases hsent with
    | skip passed =>
      rw [List.map_cons, decodeFields]
      refine (Read.bind_of_ok (hskip _)).trans ?_
      exact (Read.bind_of_ok (takes_afterStores done passed _)).trans (ih done)
    | @slot path codec _ _ framed =>
      rw [List.map_cons, decodeFields]
      refine (Read.bind_of_ok (hskip _)).trans ?_
      cases framed with
      | absent =>
        refine (Read.bind_of_ok (takes_afterStores done Element.takes_absent _)).trans ?_
        rw [readParts]
        cases required with
        | true =>
          rw [if_pos rfl]
          rfl
        | false => exact ih done
      | @present payload short =>
        have hread := Element.read_present (p := codec.decode) short (rest ++ left)
        rw [readParts]
        cases hend : codec.decode.toEnd payload with
        | ok found =>
          rw [hend] at hread
          exact (Read.bind_of_ok (Read.mapError_of_ok hread)).trans (ih _)
        | error e =>
          rw [hend] at hread
          exact Read.bind_of_error (Read.mapError_of_error _ hread)

/-- What is decoded as fields is the bytes of fields. -/
theorem exists_sent {layout : RecordLayout} {fields : List (BoundField Codec)}
    {done stores : List Store} {bs left : Bytes}
    (h : decodeFields layout fields done bs = .ok (stores, left)) :
    ∃ parts bytes, parts.map Prod.fst = fields ∧ bs = bytes ++ left ∧ Sends layout parts bytes := by
  induction fields generalizing done bs with
  | nil =>
    rw [decodeFields] at h
    obtain ⟨-, rfl⟩ := Prod.mk.inj (Except.ok.inj h)
    exact ⟨[], [], rfl, rfl, .nil⟩
  | cons b fields ih =>
    obtain ⟨name, required, flags, target⟩ := b
    cases target with
    | skip =>
      rw [decodeFields] at h
      obtain ⟨_, mid, hskip, hfield⟩ := Read.bind_eq_ok h
      obtain ⟨_, mid', hpass, hothers⟩ := Read.bind_eq_ok hfield
      obtain ⟨reserved, rfl, hlen⟩ := (Read.reads_skip 4 _ _ _).mp (Read.mapError_eq_ok hskip)
      obtain ⟨block, rfl, hblock⟩ := (reads_layoutSkip layout _ _ _).mp (Read.mapError_eq_ok hpass)
      obtain ⟨parts, bytes, rfl, rfl, hsends⟩ := ih hothers
      refine ⟨(⟨name, required, flags, .skip⟩, none) :: parts, reserved ++ (block ++ bytes), rfl, ?_,
        .cons hlen (.skip hblock) hsends⟩
      rw [List.append_assoc, List.append_assoc]
    | slot path codec =>
      rw [decodeFields] at h
      obtain ⟨_, mid, hskip, hfield⟩ := Read.bind_eq_ok h
      obtain ⟨found, mid', hread, hothers⟩ := Read.bind_eq_ok hfield
      obtain ⟨reserved, rfl, hlen⟩ := (Read.reads_skip 4 _ _ _).mp (Read.mapError_eq_ok hskip)
      obtain ⟨payload, block, rfl, hblock⟩ := Element.exists_framed (Read.mapError_eq_ok hread)
      -- whatever the element was, the other fields were decoded from what is behind it
      obtain ⟨done', hrest⟩ : ∃ done', decodeFields layout fields done' mid' = .ok (stores, left) := by
        cases found with
        | some value => exact ⟨_, hothers⟩
        | none =>
          cases required with
          | true => cases hothers
          | false => exact ⟨_, hothers⟩
      obtain ⟨parts, bytes, rfl, rfl, hsends⟩ := ih hrest
      refine ⟨(⟨name, required, flags, .slot path codec⟩, payload) :: parts,
        reserved ++ (block ++ bytes), rfl, ?_, .cons hlen (.slot hblock) hsends⟩
      rw [List.append_assoc, List.append_assoc]

end Codec

/-! ## Which fields decoding breaks off at -/

/-- A field with a slot that may not be absent is sent as absent. -/
structure MissingSent (part : BoundField Codec × Option Bytes) : Prop where
  required : part.1.required = true
  slot : ∃ path codec, part.1.target = .slot path codec
  absent : part.2 = none

/-- The payload of a field, if there is one and a slot for it, is decoded to its end. -/
def DecodesSent (part : BoundField Codec × Option Bytes) : Prop :=
  ∀ path codec payload, part.1.target = .slot path codec → part.2 = some payload →
    ∃ v, codec.decode payload = .ok (v, [])

section

variable {parts : List (BoundField Codec × Option Bytes)} {done stores : List Store}

/-- Payloads that are all read leave no required field missing. -/
theorem readParts_eq_ok (h : readParts parts done = .ok stores) :
    ∀ part ∈ parts, ¬MissingSent part := by
  induction parts generalizing done with
  | nil => exact List.forall_mem_nil _
  | cons part parts ih =>
    obtain ⟨⟨name, required, flags, target⟩, payload⟩ := part
    refine List.forall_mem_cons.mpr ?_
    cases target with
    | skip =>
      rw [readParts] at h
      refine ⟨?_, ih h⟩
      rintro ⟨-, ⟨path, codec, ⟨⟩⟩, -⟩
    | slot path codec =>
      cases payload with
      | none =>
        rw [readParts] at h
        cases required with
        | true => cases h
        | false =>
          refine ⟨?_, ih h⟩
          rintro ⟨⟨⟩, -, -⟩
      | some payload =>
        rw [readParts] at h
        split at h
        · refine ⟨?_, ih h⟩
          rintro ⟨-, -, ⟨⟩⟩
        · cases h

/-- What breaks off the reading of payloads is a required field that is missing, or a payload that
is not decoded. -/
theorem readParts_eq_error {i : Interrupted} (h : readParts parts done = .error i) :
    (∃ part ∈ parts, MissingSent part ∧ i.cause = .missingRequired part.1.name) ∨
      ∃ part ∈ parts, ¬DecodesSent part := by
  induction parts generalizing done with
  | nil => cases h
  | cons part parts ih =>
    -- a field that the reading does not break off at leaves the blame to a later one
    have hlater : ∀ {done}, readParts parts done = .error i →
        (∃ later ∈ part :: parts, MissingSent later ∧ i.cause = .missingRequired later.1.name) ∨
          ∃ later ∈ part :: parts, ¬DecodesSent later := by
      intro done h
      rcases ih h with ⟨later, hmem, found⟩ | ⟨later, hmem, found⟩
      · exact .inl ⟨later, List.mem_cons_of_mem _ hmem, found⟩
      · exact .inr ⟨later, List.mem_cons_of_mem _ hmem, found⟩
    obtain ⟨⟨name, required, flags, target⟩, payload⟩ := part
    cases target with
    | skip => exact hlater h
    | slot path codec =>
      cases payload with
      | none =>
        rw [readParts] at h
        cases required with
        | true =>
          obtain rfl := Except.error.inj h
          exact .inl ⟨_, List.mem_cons_self, ⟨rfl, ⟨path, codec, rfl⟩, rfl⟩, rfl⟩
        | false => exact hlater h
      | some payload =>
        rw [readParts] at h
        split at h
        · exact hlater h
        · rename_i e hend
          refine .inr ⟨_, List.mem_cons_self, fun hdecodes => ?_⟩
          obtain ⟨v, hv⟩ := hdecodes path codec payload rfl rfl
          have hok : codec.decode.toEnd payload = .ok (v, []) := (Read.bind_of_ok hv).trans rfl
          cases hok.symm.trans hend

end

/-! ## Records -/

/-- The same field with leave to be absent. -/
def BoundField.optional (b : BoundField Codec) : BoundField Codec := { b with required := false }

namespace Codec

variable {layout : RecordLayout} {fields : List (BoundField Codec)}

/-- Reading a record that sends all its fields is reading their payloads. -/
theorem recordReads_sent (hlayout : layout ≠ .input)
    {parts : List (BoundField Codec × Option Bytes)} {bytes : Bytes}
    (hparts : parts.map Prod.fst = fields) (hlen : fields.length < UInt32.size)
    (h : Sends layout parts bytes) (left : Bytes) :
    recordReads layout fields (countBytes fields.length ++ (bytes ++ left)) =
      (readParts parts []).map (·, left) := by
  subst hparts
  have hdense : ∀ p : Read Interrupted (List Store), p (bytes ++ left) =
      (readParts parts []).map (·, left) →
        (afterStores [] (expectCount (parts.map Prod.fst).length) >>= fun _ => p)
          (countBytes (parts.map Prod.fst).length ++ (bytes ++ left)) =
            (readParts parts []).map (·, left) := fun p hp =>
    (Read.bind_of_ok (takes_afterStores [] (takes_expectCount hlen) _)).trans hp
  cases layout with
  | named | output => exact hdense _ (decodeFields_sent h left [])
  | input => exact (hlayout rfl).elim

/-- What is read as a record that sends all its fields is a count and the bytes of fields. -/
theorem exists_sent_record (hlayout : layout ≠ .input) {stores : List Store} {bs left : Bytes}
    (h : recordReads layout fields bs = .ok (stores, left)) :
    ∃ parts bytes, parts.map Prod.fst = fields ∧ fields.length < UInt32.size ∧
      bs = countBytes fields.length ++ (bytes ++ left) ∧ Sends layout parts bytes ∧
        readParts parts [] = .ok stores := by
  have hdense : (afterStores [] (expectCount fields.length) >>= fun _ =>
      decodeFields layout fields []) bs = .ok (stores, left) := by
    cases layout with
    | named | output => exact h
    | input => exact (hlayout rfl).elim
  obtain ⟨_, mid, hcount, hfields⟩ := Read.bind_eq_ok hdense
  obtain ⟨front, rfl, hlen, rfl⟩ := (reads_expectCount _ _ _ _).mp (Read.mapError_eq_ok hcount)
  obtain ⟨parts, bytes, hparts, rfl, hsends⟩ := exists_sent hfields
  refine ⟨parts, bytes, hparts, hlen, rfl, hsends, ?_⟩
  have hrun := recordReads_sent hlayout hparts hlen hsends left
  rw [h] at hrun
  cases hread : readParts parts [] with
  | ok stores' =>
    rw [hread] at hrun
    exact congrArg Except.ok (Prod.mk.inj (Except.ok.inj hrun)).1.symm
  | error i =>
    rw [hread] at hrun
    cases hrun

theorem decodeAt_optional (index : UInt32) (i : Nat) (fields : List (BoundField Codec))
    (done : List Store) :
    decodeAt index i (fields.map BoundField.optional) done = decodeAt index i fields done := by
  induction fields generalizing i with
  | nil => rfl
  | cons b fields ih =>
    obtain ⟨name, required, flags, target⟩ := b
    cases i with
    | zero => cases target <;> rfl
    | succ i =>
      rw [List.map_cons, decodeAt, decodeAt]
      exact ih i

/-- Reading an argument does not look at what its fields require. -/
theorem decode_input_optional (id : Uuid) (fields : List (BoundField Codec)) (template : Record) :
    (Codec.record id .input fields template).decode =
      (Codec.record id .input (fields.map BoundField.optional) template).decode := by
  funext bs
  have hreads : recordReads .input (fields.map BoundField.optional) = recordReads .input fields := by
    unfold recordReads recordStores
    simp only [List.length_map, decodeAt_optional]
  rw [decode_record, decode_record, hreads]

/-- All fields are written only if those that may not be absent hold values. -/
theorem required_of_fieldsPayload {rec template : Record} {bytes : Bytes}
    (h : fieldsPayload layout rec template fields = .ok bytes) :
    ∀ b ∈ fields, b.required = true → ∀ path codec, b.target = .slot path codec →
      ∃ v, rec.slot? path = some v ∧ v.isNull = false := by
  induction fields generalizing bytes with
  | nil => exact fun _ hb => (List.not_mem_nil hb).elim
  | cons b fields ih =>
    obtain ⟨name, required, flags, target⟩ := b
    refine List.forall_mem_cons.mpr ?_
    cases target with
    | skip =>
      rw [fieldsPayload] at h
      obtain ⟨rest, hrest, -⟩ := outcome_bind_eq_ok.mp h
      exact ⟨fun _ _ _ htarget => (nomatch htarget), ih hrest⟩
    | slot path codec =>
      rw [fieldsPayload] at h
      obtain ⟨v, hload, h⟩ := outcome_bind_eq_ok.mp h
      obtain ⟨block, hblock, h⟩ := outcome_bind_eq_ok.mp h
      obtain ⟨rest, hrest, -⟩ := outcome_bind_eq_ok.mp h
      refine ⟨?_, ih hrest⟩
      rintro rfl path' codec' htarget
      obtain ⟨rfl, rfl⟩ := Target.slot.inj htarget
      exact ⟨v, loadSlot_eq_ok hload, (Element.spellRequired_eq_ok hblock).1⟩

/-- The present fields are counted only if those that may not be absent hold values. -/
theorem required_of_countPresent {rec template : Record} {count : Nat}
    (h : countPresent rec template fields = .ok count) :
    ∀ b ∈ fields, b.required = true → ∀ path codec, b.target = .slot path codec →
      ∃ v, rec.slot? path = some v ∧ v.isNull = false := by
  induction fields generalizing count with
  | nil => exact fun _ hb => (List.not_mem_nil hb).elim
  | cons b fields ih =>
    obtain ⟨name, required, flags, target⟩ := b
    refine List.forall_mem_cons.mpr ?_
    cases target with
    | skip =>
      rw [countPresent] at h
      exact ⟨fun _ _ _ htarget => (nomatch htarget), ih h⟩
    | slot path codec =>
      rw [countPresent] at h
      obtain ⟨v, hload, h⟩ := outcome_bind_eq_ok.mp h
      cases hnull : v.isNull with
      | false =>
        rw [hnull] at h
        obtain ⟨rest, hrest, -⟩ := outcome_bind_eq_ok.mp h
        refine ⟨fun _ path' codec' htarget => ?_, ih hrest⟩
        obtain ⟨rfl, rfl⟩ := Target.slot.inj htarget
        exact ⟨v, loadSlot_eq_ok hload, hnull⟩
      | true =>
        rw [hnull] at h
        cases required with
        | true => cases h
        | false => exact ⟨fun hrequired => (nomatch hrequired), ih h⟩

/-- A record is written only if the fields that may not be absent hold values. -/
theorem required_of_encode {id : Uuid} {template rec : Record} {w w' : Writer}
    (h : (Codec.record id layout fields template).encode (.record rec) w = .ok w') :
    ∀ b ∈ fields, b.required = true → ∀ path codec, b.target = .slot path codec →
      ∃ v, rec.slot? path = some v ∧ v.isNull = false := by
  rw [writes_encode] at h
  cases hpayload : (Codec.record id layout fields template).payload (.record rec) with
  | error e =>
    rw [hpayload] at h
    cases h
  | ok bytes =>
    simp only [payload] at hpayload
    cases layout with
    | named | output =>
      obtain ⟨body, hbody, -⟩ := outcome_bind_eq_ok.mp hpayload
      exact required_of_fieldsPayload hbody
    | input =>
      obtain ⟨count, hcount, -⟩ := outcome_bind_eq_ok.mp hpayload
      exact required_of_countPresent hcount

/-- An argument without any field is read as fresh storage. -/
theorem decode_input_nothing (id : Uuid) (fields : List (BoundField Codec)) (template : Record)
    (left : Bytes) :
    (Codec.record id .input fields template).decode (countBytes 0 ++ left) =
      .ok (.record template, left) := by
  have hcount := takes_afterStores [] (Read.takes_uint32 0) left
  have hreads : recordReads .input fields (countBytes 0 ++ left) = .ok ([], left) := by
    refine (Read.bind_of_ok hcount).trans ?_
    have hfew : ¬fields.length < (0 : UInt32).toNat := Nat.not_lt_zero _
    rw [if_neg hfew]
    rfl
  rw [decode_record, hreads]
  rfl

end Codec

/-- A result or a named tuple is decoded only if every field that may not be absent was sent with a
payload; if one was not, decoding fails, and over such a field unless a payload is to blame. An
argument is decoded as if all its fields could be absent. Nothing is encoded without a value for a
field that may not be absent. -/
theorem Descriptor.bind_required {d : Descriptor} {required : Bool} {shape : Shape} {codec : Codec}
    (h : d.bind required shape = .ok codec) {id : Uuid} {layout : RecordLayout}
    {fields : List (BoundField Codec)} {template : Record}
    (hpart : (Codec.record id layout fields template).Within codec) :
    (layout ≠ .input →
      (∀ bs v left, (Codec.record id layout fields template).decode bs = .ok (v, left) →
        ∃ parts bytes, parts.map Prod.fst = fields ∧
          bs = countBytes fields.length ++ (bytes ++ left) ∧ Sends layout parts bytes ∧
            ∀ part ∈ parts, ¬MissingSent part) ∧
      ∀ parts bytes left, parts.map Prod.fst = fields → fields.length < UInt32.size →
        Sends layout parts bytes → (∃ part ∈ parts, MissingSent part) →
          ∃ e, (Codec.record id layout fields template).decode
              (countBytes fields.length ++ (bytes ++ left)) = .error e ∧
            ((∀ part ∈ parts, DecodesSent part) →
              ∃ part ∈ parts, MissingSent part ∧ e = .missingRequired part.1.name)) ∧
    (layout = .input →
      (Codec.record id layout fields template).decode =
        (Codec.record id layout (fields.map BoundField.optional) template).decode ∧
      ∀ left, (Codec.record id layout fields template).decode (countBytes 0 ++ left) =
        .ok (.record template, left)) ∧
    ∀ (rec : Record) w w',
      (Codec.record id layout fields template).encode (.record rec) w = .ok w' →
        ∀ b ∈ fields, b.required = true → ∀ path codec, b.target = .slot path codec →
          ∃ v, rec.slot? path = some v ∧ v.isNull = false := by
  obtain ⟨d', shape', hbinds, -⟩ := (binds_of_bind h).part hpart
  obtain ⟨name, members, rfl, rfl, -, hbound⟩ := hbinds.record_fields
  refine ⟨fun hlayout => ⟨fun bs v left hrun => ?_, ?_⟩, ?_,
    fun rec w w' => Codec.required_of_encode⟩
  · obtain ⟨stores, rec, hreads, -, -⟩ := Binds.decode_record_eq_ok hbound hrun
    obtain ⟨parts, bytes, hparts, -, hbs, hsends, hread⟩ :=
      Codec.exists_sent_record hlayout hreads
    exact ⟨parts, bytes, hparts, hbs, hsends, readParts_eq_ok hread⟩
  · rintro parts bytes left hparts hlen hsends ⟨part, hmem, hmissing⟩
    have hreads := Codec.recordReads_sent hlayout hparts hlen hsends left
    cases hread : readParts parts [] with
    | ok stores => exact (readParts_eq_ok hread part hmem hmissing).elim
    | error i =>
      rw [hread] at hreads
      refine ⟨i.cause, Binds.decode_record_eq_error hbound hreads, fun hdecodes => ?_⟩
      rcases readParts_eq_error hread with hmissing | ⟨part, hmem, hnot⟩
      · exact hmissing
      · exact (hnot (hdecodes part hmem)).elim
  · intro hlayout
    rw [hlayout]
    exact ⟨Codec.decode_input_optional _ _ _, Codec.decode_input_nothing _ _ _⟩

/-- A point whose only coordinate is marked absent. -/
theorem bind_required_absent :
    let point := Descriptor.ofFields .objectShape .nil
      [.named "x" (.ofFields .baseScalar ScalarType.int16.id []) true]
    let shape := Shape.record "Point" [⟨"x", none, .scalar .int16, false⟩]
    ∃ codec, point.bind true shape = .ok codec ∧
      codec.decode [0, 0, 0, 1, 0, 0, 0, 0, 255, 255, 255, 255] = .error (.missingRequired "x") := by
  intro point shape
  have hbind : point.bind true shape = .ok _ := rfl
  let b : BoundField Codec :=
    ⟨"x", true, ⟨0⟩, .slot [0] (.scalar ScalarType.int16.id .int16)⟩
  have hsends : Sends .output [(b, none)] ([0, 0, 0, 0] ++ (Element.absentMark ++ [])) :=
    .cons rfl (.slot .absent) .nil
  obtain ⟨e, hrun, hcause⟩ := ((Descriptor.bind_required hbind .whole).1 nofun).2 _ _ [] rfl
    (by decide) hsends ⟨_, List.mem_singleton_self _, rfl, ⟨_, _, rfl⟩, rfl⟩
  obtain ⟨part, hmem, -, rfl⟩ := hcause fun part hmem path codec payload _ hpayload => by
    obtain rfl := List.mem_singleton.mp hmem
    cases hpayload
  obtain rfl := List.mem_singleton.mp hmem
  exact ⟨_, hbind, hrun⟩

/-- The same point as an argument is decoded without its coordinate, whether that is not listed or
marked absent, as if it were zero, though it is not encoded without one. -/
theorem required_not_listed :
    let point := Descriptor.ofFields .inputShape .nil
      [.named "x" (.ofFields .baseScalar ScalarType.int16.id []) true]
    let shape := Shape.record "Point" [⟨"x", none, .scalar .int16, false⟩]
    ∃ codec, point.bind true shape = .ok codec ∧
      codec.decode [0, 0, 0, 0] = .ok (.record [.scalar (.int16 0)], []) ∧
      codec.decode [0, 0, 0, 1, 0, 0, 0, 0, 255, 255, 255, 255] =
        .ok (.record [.scalar (.int16 0)], []) ∧
      codec.encode (.record [.null]) .empty = .error (.missingRequired "x") :=
  ⟨_, rfl, rfl, rfl, rfl⟩

end TypedWire
