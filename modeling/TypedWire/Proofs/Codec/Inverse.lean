import Mathlib.Data.List.Nodup
import TypedWire.Proofs.Codec.Rewrites
import TypedWire.Proofs.Codec.RoundTrip

/-!
# Encoding undoes decoding

What was decoded from a canonical payload is encoded to that payload, byte for byte. In a record, a
field that the payload sends is stored in a slot of its own, and any other leaves its slot fresh, so
that the fields are found as they were sent.

- `Codec.StoredFor`: the stores of a record are those for the fields that its payload sends.
- `Codec.decodeFields_blocks`, `Codec.iterate_entries`: what the fields of a payload have stored.
- `Codec.fieldsPayload_blocks`, `Codec.presentPayload_entries`: what is written for them.
- `Descriptor.bind_canonical`: decoding a canonical payload and encoding gives the payload.
-/

namespace TypedWire

open Read (spellBlock)

namespace Codec

/-! ## Reading the fields of a record -/

/-- The stores are those for the fields that were sent, with what was read from their payloads. -/
structure StoredFor (sent : BoundField Codec → Bytes → Prop) (stores : List Store) : Prop where
  sound : ∀ st ∈ stores, ∃ b codec bs, sent b bs ∧ b.target = .slot st.path codec ∧
    codec.decode bs = .ok (st.value, [])
  complete : ∀ b bs path codec, sent b bs → b.target = .slot path codec →
    ∃ st ∈ stores, st.path = path

namespace StoredFor

variable {sent sent' : BoundField Codec → Bytes → Prop} {stores : List Store}

theorem nil (h : ∀ b bs, ¬sent b bs) : StoredFor sent [] where
  sound _ hst := nomatch hst
  complete b bs _ _ hsent := (h b bs hsent).elim

/-- A field without a slot, or one that is not sent, has nothing stored. -/
theorem skip {part : BoundField Codec × Option Bytes}
    {parts : List (BoundField Codec × Option Bytes)}
    (h : StoredFor (fun b bs => (b, some bs) ∈ parts) stores)
    (hnothing : ∀ path codec, part.1.target = .slot path codec → part.2 = none) :
    StoredFor (fun b bs => (b, some bs) ∈ part :: parts) stores where
  sound st hst := by
    obtain ⟨b, codec, bs, hb, htarget, hread⟩ := h.sound st hst
    exact ⟨b, codec, bs, List.mem_cons_of_mem _ hb, htarget, hread⟩
  complete b bs path codec hb htarget := by
    rcases List.mem_cons.mp hb with rfl | hb
    · cases hnothing path codec htarget
    · exact h.complete b bs path codec hb htarget

/-- One more field has its value stored. -/
theorem cons {b : BoundField Codec} {bs : Bytes} {path : StoragePath} {codec : Codec} {v : Value}
    (htarget : b.target = .slot path codec) (hread : codec.decode bs = .ok (v, []))
    (h : StoredFor sent stores) (hhere : sent' b bs) (hsent : ∀ b bs, sent b bs → sent' b bs)
    (hcases : ∀ b' bs', sent' b' bs' → b' = b ∨ sent b' bs') :
    StoredFor sent' (⟨path, v⟩ :: stores) where
  sound := by
    rintro st (_ | ⟨_, hst⟩)
    · exact ⟨b, codec, bs, hhere, htarget, hread⟩
    · obtain ⟨b', codec', bs', hb', htarget', hread'⟩ := h.sound st hst
      exact ⟨b', codec', bs', hsent b' bs' hb', htarget', hread'⟩
  complete b' bs' path' codec' hb' htarget' := by
    rcases hcases b' bs' hb' with rfl | hb'
    · obtain ⟨rfl, -⟩ := Target.slot.inj (htarget.symm.trans htarget')
      exact ⟨_, List.mem_cons_self, rfl⟩
    · obtain ⟨st, hst, hpath⟩ := h.complete b' bs' path' codec' hb' htarget'
      exact ⟨st, List.mem_cons_of_mem _ hst, hpath⟩

end StoredFor

/-- Storing what is found for a field with a slot. -/
theorem decodeFields_slot {layout : RecordLayout} {b : BoundField Codec} {path : StoragePath}
    {codec : Codec} {fields : List (BoundField Codec)} {done stores : List Store}
    {bytes left : Bytes} (htarget : b.target = .slot path codec)
    (h : decodeFields layout (b :: fields) done (List.replicate 4 0 ++ bytes) =
      .ok (stores, left)) :
    ∃ found rest, Element.read codec.decode bytes = .ok (found, rest) ∧
      (found = none → b.required = false) ∧
        decodeFields layout fields (done ++ (found.map fun v => ⟨path, v⟩).toList) rest =
          .ok (stores, left) := by
  obtain ⟨name, required, flags, target⟩ := b
  obtain rfl : target = .slot path codec := htarget
  rw [decodeFields] at h
  obtain ⟨_, mid, hskip, hrest⟩ := Read.bind_eq_ok h
  have hzeros := takes_afterStores done (Read.takes_skip (List.replicate 4 0)) bytes
  obtain ⟨-, rfl⟩ := Prod.mk.inj (Except.ok.inj (hskip.symm.trans hzeros))
  obtain ⟨found, rest, hfound, hfields⟩ := Read.bind_eq_ok hrest
  refine ⟨found, rest, Read.mapError_eq_ok hfound, ?_⟩
  cases found with
  | some v =>
    refine ⟨?_, hfields⟩
    rintro ⟨⟩
  | none =>
    cases required with
    | true => cases hfields
    | false => exact ⟨fun _ => rfl, (List.append_nil done).symm ▸ hfields⟩

theorem decodeFields_skip {layout : RecordLayout} {b : BoundField Codec}
    {fields : List (BoundField Codec)} {done : List Store} {bytes : Bytes}
    (htarget : b.target = .skip) :
    decodeFields layout (b :: fields) done (List.replicate 4 0 ++ (layout.skippedBytes ++ bytes)) =
      decodeFields layout fields done bytes := by
  obtain ⟨name, required, flags, target⟩ := b
  obtain rfl : target = .skip := htarget
  rw [decodeFields]
  have hzeros := takes_afterStores done (Read.takes_skip (List.replicate 4 0))
  refine (Read.bind_of_ok (hzeros _)).trans ?_
  exact Read.bind_of_ok (takes_afterStores done (takes_layoutSkip layout) bytes)

/-- The blocks of all fields of a record have the sent ones stored, and no required one is left
out. -/
theorem decodeFields_blocks {layout : RecordLayout} {parts : List (BoundField Codec × Option Bytes)}
    (hshort : ∀ part ∈ parts, ∀ bs, part.2 = some bs → bs.length < Element.absent.toNat)
    {done stores : List Store}
    (h : decodeFields layout (parts.map Prod.fst) done
      (parts.flatMap fun part => List.replicate 4 0 ++ fieldBlock layout part.1 part.2) =
        .ok (stores, [])) :
    ∃ new, stores = done ++ new ∧ StoredFor (fun b bs => (b, some bs) ∈ parts) new ∧
      ∀ b path codec, (b, none) ∈ parts → b.target = .slot path codec → b.required = false := by
  induction parts generalizing done with
  | nil =>
    rw [List.map_nil, decodeFields] at h
    obtain ⟨rfl, -⟩ := Prod.mk.inj (Except.ok.inj h)
    exact ⟨[], (List.append_nil done).symm, .nil fun _ _ => List.not_mem_nil,
      fun _ _ _ hnil => absurd hnil List.not_mem_nil⟩
  | cons part parts ih =>
    obtain ⟨b, sent⟩ := part
    have hshort' := fun part hpart => hshort part (List.mem_cons_of_mem (b, sent) hpart)
    rw [List.map_cons, List.flatMap_cons, List.append_assoc] at h
    cases htarget : b.target with
    | skip =>
      simp only [fieldBlock, htarget] at h
      rw [decodeFields_skip htarget] at h
      obtain ⟨new, hnew, hstored, hrequired⟩ := ih hshort' h
      refine ⟨new, hnew, hstored.skip fun _ _ hslot => (by cases htarget.symm.trans hslot), ?_⟩
      rintro b' path codec (_ | ⟨_, hmem⟩) htarget'
      · cases htarget.symm.trans htarget'
      · exact hrequired b' path codec hmem htarget'
    | slot path codec =>
      obtain ⟨found, rest, hread, hneeded, h⟩ := decodeFields_slot htarget h
      simp only [fieldBlock, htarget] at hread
      cases sent with
      | none =>
        obtain ⟨rfl, rfl⟩ := Prod.mk.inj (Except.ok.inj (hread.symm.trans
          (Element.takes_absent _)))
        obtain ⟨new, hnew, hstored, hrequired⟩ := ih hshort' h
        rw [Option.map_none, Option.toList_none, List.append_nil] at hnew
        refine ⟨new, hnew, hstored.skip fun _ _ _ => rfl, ?_⟩
        rintro b' path' codec' (_ | ⟨_, hmem⟩) htarget'
        · exact hneeded rfl
        · exact hrequired b' path' codec' hmem htarget'
      | some bs =>
        obtain ⟨v, rfl, hv, rfl⟩ :=
          Element.read_spellBlock (hshort (b, some bs) List.mem_cons_self bs rfl) hread
        obtain ⟨new, hnew, hstored, hrequired⟩ := ih hshort' h
        rw [Option.map_some, Option.toList_some, List.append_assoc] at hnew
        refine ⟨⟨path, v⟩ :: new, hnew, hstored.cons htarget hv List.mem_cons_self
          (fun _ _ => List.mem_cons_of_mem _) ?_, ?_⟩
        · rintro b' bs' (_ | ⟨_, hmem⟩)
          · exact .inl rfl
          · exact .inr hmem
        · rintro b' path' codec' (_ | ⟨_, hmem⟩) htarget'
          exact hrequired b' path' codec' hmem htarget'

/-- Storing what is found for the field at a position. -/
theorem decodeAt_slot {index : UInt32} {i : Nat} {fields : List (BoundField Codec)}
    {b : BoundField Codec} {path : StoragePath} {codec : Codec} {done stores : List Store}
    {bytes left : Bytes} (hb : fields[i]? = some b) (htarget : b.target = .slot path codec)
    (h : decodeAt index i fields done bytes = .ok (stores, left)) :
    ∃ found, Element.read codec.decode bytes = .ok (found, left) ∧
      stores = done ++ (found.map fun v => ⟨path, v⟩).toList := by
  induction fields generalizing i with
  | nil => cases hb
  | cons c fields ih =>
    cases i with
    | succ i =>
      rw [decodeAt] at h
      exact ih hb h
    | zero =>
      obtain rfl := Option.some.inj hb
      obtain ⟨name, required, flags, target⟩ := c
      obtain rfl : target = .slot path codec := htarget
      rw [decodeAt] at h
      obtain ⟨found, rest, hfound, h⟩ := Read.bind_eq_ok h
      have hread := Read.mapError_eq_ok hfound
      cases found with
      | some v =>
        obtain ⟨rfl, rfl⟩ := Prod.mk.inj (Except.ok.inj h)
        exact ⟨some v, hread, rfl⟩
      | none =>
        obtain ⟨rfl, rfl⟩ := Prod.mk.inj (Except.ok.inj h)
        exact ⟨none, hread, (List.append_nil _).symm⟩

/-- The entries of an argument send a payload for a field. -/
def SentAt (fields : List (BoundField Codec)) (entries : List (UInt32 × Bytes))
    (b : BoundField Codec) (bs : Bytes) : Prop :=
  ∃ e ∈ entries, fields[e.1.toNat]? = some b ∧ e.2 = bs

/-- The entries of an argument have their fields stored. -/
theorem iterate_entries {fields : List (BoundField Codec)} {entries : List (UInt32 × Bytes)}
    (hslots : ∀ e ∈ entries, ∃ b path codec, fields[e.1.toNat]? = some b ∧
      b.target = .slot path codec)
    (hshort : ∀ e ∈ entries, e.2.length < Element.absent.toNat) {n : Nat}
    {done stores : List Store}
    (h : Read.iterate n (fun done => do
        let index ← afterStores done Read.uint32
        decodeAt index index.toNat fields done) done
      (entries.flatMap fun e => BigEndian.encode 4 e.1.toNat ++ spellBlock e.2) =
        .ok (stores, [])) :
    n = entries.length ∧
      ∃ new, stores = done ++ new ∧ StoredFor (SentAt fields entries) new := by
  induction entries generalizing n done with
  | nil =>
    cases n with
    | zero =>
      obtain ⟨rfl, -⟩ := Prod.mk.inj (Except.ok.inj h)
      refine ⟨rfl, [], (List.append_nil _).symm, .nil ?_⟩
      rintro b bs ⟨e, he, -⟩
      cases he
    | succ n =>
      obtain ⟨done', mid, hstep, -⟩ := Read.bind_eq_ok h
      obtain ⟨index, mid', hindex, -⟩ := Read.bind_eq_ok hstep
      cases Read.mapError_eq_ok hindex
  | cons e entries ih =>
    rw [List.flatMap_cons, List.append_assoc] at h
    cases n with
    | zero =>
      obtain ⟨-, hnil⟩ := Prod.mk.inj (Except.ok.inj h)
      have hlen := congrArg List.length hnil
      rw [List.length_append, BigEndian.length_encode, List.length_nil] at hlen
      omega
    | succ n =>
      obtain ⟨done', mid, hstep, h⟩ := Read.bind_eq_ok h
      obtain ⟨index, mid', hindex, hat⟩ := Read.bind_eq_ok hstep
      have htakes := Read.takes_uint32 e.1
        (spellBlock e.2 ++ entries.flatMap fun e => BigEndian.encode 4 e.1.toNat ++ spellBlock e.2)
      obtain ⟨rfl, rfl⟩ :=
        Prod.mk.inj (Except.ok.inj ((Read.mapError_eq_ok hindex).symm.trans htakes))
      obtain ⟨b, path, codec, hb, htarget⟩ := hslots e List.mem_cons_self
      obtain ⟨found, hread, rfl⟩ := decodeAt_slot hb htarget hat
      obtain ⟨v, rfl, hv, rfl⟩ := Element.read_spellBlock (hshort e List.mem_cons_self) hread
      obtain ⟨rfl, new, hnew, hstored⟩ :=
        ih (fun e he => hslots e (List.mem_cons_of_mem _ he))
          (fun e he => hshort e (List.mem_cons_of_mem _ he)) h
      rw [Option.map_some, Option.toList_some, List.append_assoc] at hnew
      refine ⟨rfl, ⟨path, v⟩ :: new, hnew, hstored.cons htarget hv
        ⟨e, List.mem_cons_self, hb, rfl⟩ ?_ ?_⟩
      · rintro b' bs' ⟨e', he', hb', hbs'⟩
        exact ⟨e', List.mem_cons_of_mem _ he', hb', hbs'⟩
      · rintro b' bs' ⟨e', _ | ⟨_, he'⟩, hb', hbs'⟩
        · exact .inl (Option.some.inj (hb'.symm.trans hb))
        · exact .inr ⟨e', he', hb', hbs'⟩

/-! ## Writing the fields of a record -/

section

variable {rec template : Record}

/-- A record that holds what was sent, and nothing for the other fields, is written as it was
sent. -/
theorem fieldsPayload_blocks {layout : RecordLayout}
    {parts : List (BoundField Codec × Option Bytes)}
    (hshort : ∀ part ∈ parts, ∀ bs, part.2 = some bs → bs.length < Element.absent.toNat)
    (hsent : ∀ b bs path codec, (b, some bs) ∈ parts → b.target = .slot path codec →
      ∃ v, rec.slot? path = some v ∧ v.isNull = false ∧ codec.payload v = .ok bs)
    (habsent : ∀ b path codec, (b, none) ∈ parts → b.target = .slot path codec →
      b.required = false ∧ rec.slot? path = some .null) :
    fieldsPayload layout rec template (parts.map Prod.fst) =
      .ok (parts.flatMap fun part => List.replicate 4 0 ++ fieldBlock layout part.1 part.2) := by
  induction parts with
  | nil => rw [List.map_nil, fieldsPayload, List.flatMap_nil]
  | cons part parts ih =>
    have hrest := ih (fun part hpart => hshort part (List.mem_cons_of_mem _ hpart))
      (fun b bs path codec hb => hsent b bs path codec (List.mem_cons_of_mem _ hb))
      (fun b path codec hb => habsent b path codec (List.mem_cons_of_mem _ hb))
    obtain ⟨⟨name, required, flags, target⟩, sent⟩ := part
    rw [List.map_cons, List.flatMap_cons]
    cases target with
    | skip =>
      rw [fieldsPayload, hrest]
      rfl
    | slot path codec =>
      rw [fieldsPayload]
      cases sent with
      | none =>
        obtain ⟨hrequired, hslot⟩ := habsent _ path codec List.mem_cons_self rfl
        obtain rfl : required = false := hrequired
        rw [loadSlot_of_slot? hslot, outcome_bind_ok, hrest]
        rfl
      | some bs =>
        obtain ⟨v, hslot, hnull, hv⟩ := hsent _ bs path codec List.mem_cons_self rfl
        have hframe := Element.frame_ok (hshort _ List.mem_cons_self bs rfl)
        have hspell : Element.spellField name required codec.payload v = .ok (spellBlock bs) := by
          cases required <;>
            simp [Element.spellField, Element.spellRequired, Element.spell, hnull, hv, hframe]
        rw [loadSlot_of_slot? hslot, outcome_bind_ok, hspell, outcome_bind_ok, hrest]
        rfl

/-- A field that an argument holds is counted and written with its position. -/
theorem presentPayload_held {b : BoundField Codec} {path : StoragePath} {codec : Codec} {v : Value}
    {bytes rest : Bytes} (htarget : b.target = .slot path codec) (hslot : rec.slot? path = some v)
    (hnull : v.isNull = false) (hv : codec.payload v = .ok bytes)
    (hshort : bytes.length < Element.absent.toNat) {fields : List (BoundField Codec)}
    {count index : Nat} (hcount : countPresent rec template fields = .ok count)
    (hrest : presentPayload rec template (index + 1) fields = .ok rest) :
    countPresent rec template (b :: fields) = .ok (count + 1) ∧
      presentPayload rec template index (b :: fields) =
        .ok (countBytes index ++ spellBlock bytes ++ rest) := by
  have hspell : Element.spell codec.payload v = .ok (spellBlock bytes) := by
    rw [Element.spell, hnull, if_neg Bool.false_ne_true, hv, Element.frame_ok hshort]
  obtain ⟨name, required, flags, target⟩ := b
  obtain rfl : target = .slot path codec := htarget
  rw [countPresent, presentPayload, loadSlot_of_slot? hslot, outcome_bind_ok, outcome_bind_ok,
    hnull, if_neg Bool.false_ne_true, if_neg Bool.false_ne_true, hcount, hspell, outcome_bind_ok,
    outcome_bind_ok, hrest]
  exact ⟨rfl, rfl⟩

/-- A field without a slot, or with nothing in it, is passed over. -/
theorem presentPayload_passed {b : BoundField Codec} (hempty : ∀ path codec,
      b.target = .slot path codec → b.required = false ∧ rec.slot? path = some .null)
    (fields : List (BoundField Codec)) (index : Nat) :
    countPresent rec template (b :: fields) = countPresent rec template fields ∧
      presentPayload rec template index (b :: fields) =
        presentPayload rec template (index + 1) fields := by
  obtain ⟨name, required, flags, target⟩ := b
  cases target with
  | skip =>
    rw [countPresent, presentPayload]
    exact ⟨rfl, rfl⟩
  | slot path codec =>
    obtain ⟨hrequired, hslot⟩ := hempty path codec rfl
    obtain rfl : required = false := hrequired
    rw [countPresent, presentPayload, loadSlot_of_slot? hslot, outcome_bind_ok, outcome_bind_ok]
    exact ⟨rfl, rfl⟩

/-- An argument that holds what was sent, and nothing for the other fields, is written as it was
sent: from any position on, the entries that are left are those of the fields that are left. -/
theorem presentPayload_entries {all : List (BoundField Codec)} {after : List (BoundField Codec)}
    (before : List (BoundField Codec)) {entries : List (UInt32 × Bytes)}
    (hall : all = before ++ after) (hincreasing : entries.Pairwise fun e e' => e.1 < e'.1)
    (hfrom : ∀ e ∈ entries, before.length ≤ e.1.toNat)
    (hshort : ∀ e ∈ entries, e.2.length < Element.absent.toNat)
    (hsent : ∀ e ∈ entries, ∃ b path codec v, all[e.1.toNat]? = some b ∧
      b.target = .slot path codec ∧ rec.slot? path = some v ∧ v.isNull = false ∧
        codec.payload v = .ok e.2)
    (habsent : ∀ (k : Nat) b path codec, before.length ≤ k → all[k]? = some b →
      b.target = .slot path codec → (∀ e ∈ entries, e.1.toNat ≠ k) →
        b.required = false ∧ rec.slot? path = some .null) :
    countPresent rec template after = .ok entries.length ∧
      presentPayload rec template before.length after =
        .ok (entries.flatMap fun e => BigEndian.encode 4 e.1.toNat ++ spellBlock e.2) := by
  induction after generalizing before entries with
  | nil =>
    -- no position is left for an entry
    have hnil : entries = [] := by
      refine List.eq_nil_iff_forall_not_mem.mpr fun e he => ?_
      obtain ⟨b, -, -, -, hb, -⟩ := hsent e he
      have hlt := (List.getElem?_eq_some_iff.mp hb).1
      rw [hall, List.append_nil] at hlt
      exact absurd (hfrom e he) (Nat.not_le.mpr hlt)
    subst hnil
    rw [countPresent, presentPayload]
    exact ⟨rfl, rfl⟩
  | cons b after ih =>
    have hall' : all = (before ++ [b]) ++ after := by
      rw [hall, List.append_assoc]
      rfl
    have hlen : (before ++ [b]).length = before.length + 1 := List.length_append
    have hb : all[before.length]? = some b := by
      rw [hall, List.getElem?_append_right (Nat.le_refl _), Nat.sub_self]
      rfl
    have hrest := fun {entries} => @ih (before ++ [b]) entries hall'
    rw [hlen] at hrest
    by_cases hhere : ∃ e ∈ entries, e.1.toNat = before.length
    · -- the first entry is that of the field, because the others have greater positions
      obtain ⟨e, he, heq⟩ := hhere
      cases entries with
      | nil => cases he
      | cons first entries =>
        obtain ⟨hlater, hincreasing'⟩ := List.pairwise_cons.mp hincreasing
        have hfirst : first.1.toNat = before.length := by
          rcases List.mem_cons.mp he with rfl | he
          · exact heq
          · have hlt : first.1.toNat < e.1.toNat := hlater e he
            have hle := hfrom first List.mem_cons_self
            omega
        obtain ⟨b', path, codec, v, hb', htarget, hslot, hnull, hv⟩ :=
          hsent first List.mem_cons_self
        obtain rfl := Option.some.inj (hb.symm.trans (hfirst ▸ hb'))
        obtain ⟨hcount, hpayload⟩ := hrest hincreasing'
          (fun e he => hfirst ▸ hlater e he)
          (fun e he => hshort e (List.mem_cons_of_mem _ he))
          (fun e he => hsent e (List.mem_cons_of_mem _ he))
          (fun k c path codec hk hc htarget hnone => by
            refine habsent k c path codec (Nat.le_of_succ_le hk) hc htarget ?_
            rintro e (_ | ⟨_, he⟩)
            · omega
            · exact hnone e he)
        have hindex : countBytes before.length = BigEndian.encode 4 first.1.toNat := by
          rw [countBytes, ← hfirst, UInt32.ofNat_toNat]
        rw [List.flatMap_cons, ← hindex]
        exact presentPayload_held htarget hslot hnull hv (hshort first List.mem_cons_self) hcount
          hpayload
    · -- the field was not sent: it has no slot, or its slot holds nothing
      have hnot : ∀ e ∈ entries, e.1.toNat ≠ before.length := fun e he heq => hhere ⟨e, he, heq⟩
      obtain ⟨hcount, hpayload⟩ := @presentPayload_passed rec template b
        (fun path codec htarget => habsent _ b path codec (Nat.le_refl _) hb htarget hnot) after
          before.length
      rw [hcount, hpayload]
      exact hrest hincreasing
        (fun e he => Nat.lt_of_le_of_ne (hfrom e he) (hnot e he).symm) hshort hsent
        (fun k c path codec hk => habsent k c path codec (Nat.le_of_succ_le hk))

end

end Codec

/-! ## Records -/

namespace Descriptor

section

variable {d : Descriptor} {layout : RecordLayout} {members : List (Member Shape)}
  {bound : List (BoundField Codec)}

/-- Fields of different names do not share a slot. -/
theorem FieldsBind.eq_of_path (h : FieldsBind layout members d.fields bound)
    (hnames : (bound.map BoundField.name).Nodup) {b c : BoundField Codec} {path : StoragePath}
    {codec codec' : Codec} (hb : b ∈ bound) (hc : c ∈ bound) (htarget : b.target = .slot path codec)
    (htarget' : c.target = .slot path codec') : b = c := by
  obtain ⟨i, hi⟩ := List.mem_iff_getElem?.mp hb
  obtain ⟨k, hk⟩ := List.mem_iff_getElem?.mp hc
  obtain ⟨f, hf⟩ := h.exists_field hi
  obtain ⟨g, hg⟩ := h.exists_field hk
  have hname := (h.path_eq_iff hf hg hi hk htarget htarget').mp rfl
  rw [← (h.field i f b hf hi).name, ← (h.field k g c hg hk).name] at hname
  exact List.inj_on_of_nodup_map hnames hb hc hname

variable {sent : BoundField Codec → Bytes → Prop} {stores : List Store} {rec : Record}

/-- The slot of a field that was sent holds what its payload says. -/
theorem FieldsBind.holds_sent (h : FieldsBind layout members d.fields bound)
    (hnames : (bound.map BoundField.name).Nodup) (hsent : ∀ b bs, sent b bs → b ∈ bound)
    (hunique : ∀ b bs bs', sent b bs → sent b bs' → bs = bs')
    (hstored : Codec.StoredFor sent stores)
    (hall : Record.StoredAll members stores (Shape.defaultRecord members) rec)
    {b : BoundField Codec} {path : StoragePath} {codec : Codec} {bs : Bytes} (hb : sent b bs)
    (htarget : b.target = .slot path codec) :
    ∃ v, rec.slot? path = some v ∧ codec.decode bs = .ok (v, []) := by
  obtain ⟨_, _, shape, _, _, hresolve, _⟩ :=
    resolves_of_mem h.length h.field (hsent b bs hb) htarget
  rcases hall.leaf (.of_resolve? hresolve) with ⟨st, hst, rfl, hslot⟩ | ⟨hnone, -⟩
  · -- only the field itself stores to its slot
    obtain ⟨b', codec', bs', hb', htarget', hread⟩ := hstored.sound st hst
    obtain rfl := h.eq_of_path hnames (hsent b bs hb) (hsent b' bs' hb') htarget htarget'
    obtain rfl := hunique b bs bs' hb hb'
    obtain ⟨-, rfl⟩ := Target.slot.inj (htarget.symm.trans htarget')
    exact ⟨st.value, hslot, hread⟩
  · obtain ⟨st, hst, hpath⟩ := hstored.complete b bs path codec hb htarget
    exact (hnone st hst hpath).elim

/-- The slot of a field that was not sent and may be absent holds nothing. -/
theorem FieldsBind.holds_absent (h : FieldsBind layout members d.fields bound)
    (hnames : (bound.map BoundField.name).Nodup) (hsent : ∀ b bs, sent b bs → b ∈ bound)
    (hstored : Codec.StoredFor sent stores)
    (hall : Record.StoredAll members stores (Shape.defaultRecord members) rec)
    {b : BoundField Codec} {path : StoragePath} {codec : Codec} (hb : b ∈ bound)
    (habsent : ∀ bs, ¬sent b bs) (hrequired : b.required = false)
    (htarget : b.target = .slot path codec) : rec.slot? path = some .null := by
  obtain ⟨_, _, shape, _, _, hresolve, hoptional⟩ := resolves_of_mem h.length h.field hb htarget
  have hleaf := Leaf.of_resolve? hresolve
  rcases hall.leaf hleaf with ⟨st, hst, rfl, -⟩ | ⟨-, hslot⟩
  · obtain ⟨b', codec', bs', hb', htarget', -⟩ := hstored.sound st hst
    obtain rfl := h.eq_of_path hnames hb (hsent b' bs' hb') htarget htarget'
    exact (habsent bs' hb').elim
  · rw [hslot, hleaf.slot?_default]
    cases shape with
    | optional inner => rw [Shape.default]
    | _ => simp [hrequired, Shape.isOptional] at hoptional

/-- The fields of a record that has all of them are written as they were sent. -/
theorem FieldsBind.rewrites_dense (h : FieldsBind layout members d.fields bound)
    (hnames : (bound.map BoundField.name).Nodup)
    (hall : Record.StoredAll members stores (Shape.defaultRecord members) rec)
    {parts : List (BoundField Codec × Option Bytes)} (hbound : parts.map Prod.fst = bound)
    (hshort : ∀ part ∈ parts, ∀ bs, part.2 = some bs → bs.length < Element.absent.toNat)
    (hparts : ∀ b bs path codec, (b, some bs) ∈ parts → b.target = .slot path codec →
      Rewrites codec.decode codec.payload bs)
    (hrun : Codec.decodeFields layout bound []
      (parts.flatMap fun part => List.replicate 4 0 ++ Codec.fieldBlock layout part.1 part.2) =
        .ok (stores, [])) :
    Codec.fieldsPayload layout rec (Shape.defaultRecord members) bound =
      .ok (parts.flatMap fun part =>
        List.replicate 4 0 ++ Codec.fieldBlock layout part.1 part.2) := by
  subst hbound
  obtain ⟨stores', rfl, hstored, hrequired⟩ := Codec.decodeFields_blocks hshort hrun
  have hmem : ∀ b sent, (b, sent) ∈ parts → b ∈ parts.map Prod.fst :=
    fun b sent hb => List.mem_map_of_mem hb
  -- a field has one part, because its name is its own
  have hone : ∀ b sent sent', (b, sent) ∈ parts → (b, sent') ∈ parts → sent = sent' :=
    fun b sent sent' hb hb' =>
      congrArg Prod.snd (List.inj_on_of_nodup_map hnames.of_map hb hb' rfl)
  refine Codec.fieldsPayload_blocks hshort ?_ ?_
  · intro b bs path codec hb htarget
    obtain ⟨v, hslot, hread⟩ := h.holds_sent hnames (fun b bs => hmem b (some bs))
      (fun b bs bs' hb hb' => Option.some.inj (hone b _ _ hb hb')) hstored hall hb htarget
    obtain ⟨hnull, hv⟩ := hparts b bs path codec hb htarget v hread
    exact ⟨v, hslot, hnull, hv⟩
  · intro b path codec hb htarget
    have hoptional := hrequired b path codec hb htarget
    have habsent : ∀ bs, (b, some bs) ∉ parts := fun bs hb' => nomatch hone b _ _ hb hb'
    exact ⟨hoptional, h.holds_absent hnames (fun b bs => hmem b (some bs)) hstored hall
      (hmem b none hb) habsent hoptional htarget⟩

/-- The fields of an argument are written as they were sent. -/
theorem FieldsBind.rewrites_sparse (h : FieldsBind layout members d.fields bound)
    (hnames : (bound.map BoundField.name).Nodup)
    (hall : Record.StoredAll members stores (Shape.defaultRecord members) rec)
    {entries : List (UInt32 × Bytes)} (hincreasing : entries.Pairwise fun e e' => e.1 < e'.1)
    (hslots : ∀ e ∈ entries, ∃ b path codec, bound[e.1.toNat]? = some b ∧
      b.target = .slot path codec)
    (hrequired : ∀ (k : Nat) b path codec, bound[k]? = some b → b.target = .slot path codec →
      b.required = true → ∃ e ∈ entries, e.1.toNat = k)
    (hshort : ∀ e ∈ entries, e.2.length < Element.absent.toNat)
    (hparts : ∀ e ∈ entries, ∀ b path codec, bound[e.1.toNat]? = some b →
      b.target = .slot path codec → Rewrites codec.decode codec.payload e.2)
    (hstored : Codec.StoredFor (Codec.SentAt bound entries) stores) :
    countPresent rec (Shape.defaultRecord members) bound = .ok entries.length ∧
      Codec.presentPayload rec (Shape.defaultRecord members) 0 bound =
        .ok (entries.flatMap fun e => BigEndian.encode 4 e.1.toNat ++ spellBlock e.2) := by
  have hmem : ∀ b bs, Codec.SentAt bound entries b bs → b ∈ bound := by
    rintro b bs ⟨e, -, hb, -⟩
    exact List.mem_of_getElem? hb
  -- a field stands at one position, and no two entries have the same
  have hposition : ∀ {i k : Nat} {b}, bound[i]? = some b → bound[k]? = some b → i = k :=
    fun hi hk => (List.getElem?_inj (List.getElem?_eq_some_iff.mp hi).1 hnames.of_map).mp
      (hi.trans hk.symm)
  have hentry : ∀ e ∈ entries, ∀ e' ∈ entries, e.1 = e'.1 → e = e' := by
    have hdistinct : (entries.map Prod.fst).Nodup := by
      refine List.pairwise_map.mpr (hincreasing.imp fun {e e'} hlt heq => ?_)
      exact absurd (heq ▸ hlt) (UInt32.lt_irrefl _)
    exact fun e he e' he' => List.inj_on_of_nodup_map hdistinct he he'
  refine Codec.presentPayload_entries [] rfl hincreasing (fun e _ => Nat.zero_le _) hshort ?_ ?_
  · intro e he
    obtain ⟨b, path, codec, hb, htarget⟩ := hslots e he
    have hunique : ∀ b bs bs', Codec.SentAt bound entries b bs →
        Codec.SentAt bound entries b bs' → bs = bs' := by
      rintro b _ _ ⟨e₁, he₁, hb₁, rfl⟩ ⟨e₂, he₂, hb₂, rfl⟩
      rw [hentry e₁ he₁ e₂ he₂ (UInt32.toNat_inj.mp (hposition hb₁ hb₂))]
    obtain ⟨v, hslot, hread⟩ :=
      h.holds_sent hnames hmem hunique hstored hall ⟨e, he, hb, rfl⟩ htarget
    obtain ⟨hnull, hv⟩ := hparts e he b path codec hb htarget v hread
    exact ⟨b, path, codec, v, hb, htarget, hslot, hnull, hv⟩
  · intro k b path codec _ hb htarget hnone
    have hoptional : b.required = false := by
      refine Bool.eq_false_iff.mpr fun hreq => ?_
      obtain ⟨e, he, heq⟩ := hrequired k b path codec hb htarget hreq
      exact hnone e he heq
    refine ⟨hoptional, h.holds_absent hnames hmem hstored hall (List.mem_of_getElem? hb) ?_
      hoptional htarget⟩
    rintro bs ⟨e, he, hb', -⟩
    exact hnone e he (hposition hb' hb)

/-- Writing a record read from a canonical payload gives the payload, if that holds of its
fields. -/
theorem FieldsBind.rewrites_record (h : FieldsBind layout members d.fields bound)
    (hnames : (bound.map BoundField.name).Nodup)
    (hparts : ∀ b ∈ bound, ∀ path codec, b.target = .slot path codec → ∀ bs, codec.Canonical bs →
      Rewrites codec.decode codec.payload bs) {bs : Bytes}
    (hcanonical : Codec.Canonical
      (.record d.id layout bound (Shape.defaultRecord members)) bs) :
    Rewrites (Codec.record d.id layout bound (Shape.defaultRecord members)).decode
      (Codec.record d.id layout bound (Shape.defaultRecord members)).payload bs := by
  intro v hrun
  obtain ⟨stores, rec, hreads, rfl, hall⟩ := Binds.decode_record_eq_ok h hrun
  refine ⟨rfl, ?_⟩
  cases hcanonical with
  | @dense _ _ _ _ count parts all hbound short canonical =>
    have hrun : (do
        afterStores [] (expectCount bound.length)
        Codec.decodeFields layout bound [] : Read Interrupted (List Store))
          (BigEndian.encode 4 count.toNat ++ parts.flatMap fun part =>
            List.replicate 4 0 ++ Codec.fieldBlock layout part.1 part.2) = .ok (stores, []) := by
      cases layout with
      | named | output => exact hreads
      | input => exact (all rfl).elim
    obtain ⟨_, mid, hexpect, hfields⟩ := Read.bind_eq_ok hrun
    have hexpected := Read.mapError_eq_ok hexpect
    obtain ⟨hcount, rfl⟩ := Codec.expectCount_eq_ok hexpected
    have hpayload := h.rewrites_dense hnames hall hbound short
      (fun b bs path codec hb htarget => hparts b (hbound ▸ List.mem_map_of_mem hb) path codec
        htarget bs (canonical _ hb path codec bs htarget rfl)) hfields
    cases layout with
    | named | output =>
      rw [Codec.payload, hpayload, outcome_bind_ok, hcount]
      rfl
    | input => exact (all rfl).elim
  | @sparse _ _ _ count entries increasing slots required short canonical =>
    obtain ⟨present, mid, hpresent, hrun⟩ := Read.bind_eq_ok hreads
    have htakes := Read.takes_uint32 count (entries.flatMap fun e =>
      BigEndian.encode 4 e.1.toNat ++ spellBlock e.2)
    obtain ⟨rfl, rfl⟩ :=
      Prod.mk.inj (Except.ok.inj ((Read.mapError_eq_ok hpresent).symm.trans htakes))
    dsimp only at hrun
    split at hrun
    · cases hrun
    · obtain ⟨hlen, new, rfl, hstored⟩ := Codec.iterate_entries slots short hrun
      obtain ⟨hcount, hpayload⟩ := h.rewrites_sparse hnames hall increasing slots required short
        (fun e he b path codec hb htarget => hparts b (List.mem_of_getElem? hb) path codec htarget
          e.2 (canonical e he b path codec hb htarget)) hstored
      rw [Codec.payload, hcount, outcome_bind_ok, hpayload, outcome_bind_ok, countBytes, ← hlen,
        UInt32.ofNat_toNat]
      rfl

end

/-! ## Values -/

/-- Writing what the codec of a type reads from a canonical payload gives the payload. -/
theorem Binds.rewrites {d : Descriptor} {shape : Shape} {codec : Codec} (h : Binds d shape codec) :
    codec.DistinctNames → ∀ bs, codec.Canonical bs → Rewrites codec.decode codec.payload bs := by
  induction h with
  | @scalar d type kind base =>
    intro _ bs hcanonical v hrun
    cases hcanonical with
    | scalar here =>
      rw [Codec.decode] at hrun
      obtain ⟨s, hs, rfl⟩ := Read.map_eq_ok hrun
      have htype := ((ScalarType.meets_read type).good hs).1
      refine ⟨rfl, ?_⟩
      simp only [Codec.payload, if_pos htype]
      exact ScalarType.payload_read hs here
  | array kind fields element ih | setAsArray kind fields element ih =>
    intro hnames bs hcanonical v hrun
    cases hnames with
    | array hnames =>
      cases hcanonical with
      | array short parts =>
        rw [Codec.decode] at hrun
        obtain ⟨items, hitems, rfl⟩ := Read.map_eq_ok hrun
        refine ⟨rfl, ?_⟩
        rw [Codec.payload]
        exact rewrites_array short (fun bs hbs => ih hnames bs (parts bs hbs)) hitems
  | set kind fields element ih =>
    intro hnames bs hcanonical v hrun
    cases hnames with
    | set hnames =>
      cases hcanonical with
      | set short parts =>
        rw [Codec.decode] at hrun
        obtain ⟨items, hitems, rfl⟩ := Read.map_eq_ok hrun
        refine ⟨rfl, ?_⟩
        rw [Codec.payload]
        exact rewrites_array short (fun bs hbs => ih hnames bs (parts bs hbs)) hitems
  | @tuple d shapes codecs kind arity length scalars items ih =>
    intro hnames bs hcanonical
    cases hnames with
    | tuple hnames =>
      refine Codec.rewrites_tuple hcanonical fun codec hcodec => ?_
      obtain ⟨i, hi⟩ := List.mem_iff_getElem?.mp hcodec
      obtain ⟨f, shape, hf, hshape⟩ := exists_item arity length hi
      exact ih i f shape codec hf hshape hi (hnames codec hcodec)
  | @record d name members bound kind values length fields codecs ih =>
    intro hnames bs hcanonical
    cases hnames with
    | record names hnames =>
      refine FieldsBind.rewrites_record ⟨length, fields, codecs⟩ names ?_ hcanonical
      intro b hb path codec htarget
      obtain ⟨i, f, shape, hf, hi, hresolve, -⟩ := resolves_of_mem length fields hb htarget
      exact ih i f b path shape codec hf hi htarget hresolve (hnames b hb path codec htarget)
  | range kind fields ranged element ih =>
    intro hnames bs hcanonical v hrun
    cases hnames with
    | range hnames =>
      rw [Codec.decode] at hrun
      obtain ⟨r, hr, rfl⟩ := Read.map_eq_ok hrun
      refine ⟨rfl, ?_⟩
      rw [Codec.payload]
      exact rewrites_range hcanonical (ih hnames) hr
  | multirange kind fields ranged element ih =>
    intro hnames bs hcanonical v hrun
    cases hnames with
    | multirange hnames =>
      cases hcanonical with
      | multirange short parts =>
        rw [Codec.decode] at hrun
        obtain ⟨ranges, hranges, rfl⟩ := Read.map_eq_ok hrun
        refine ⟨rfl, ?_⟩
        rw [Codec.payload]
        exact rewrites_multirange short parts (ih hnames) hranges

/-- What a bound codec decodes from all of a canonical payload is encoded to the payload. -/
theorem bind_canonical {d : Descriptor} {required : Bool} {shape : Shape} {codec : Codec}
    (h : d.bind required shape = .ok codec) (hnames : codec.DistinctNames) {bs : Bytes}
    (hcanonical : codec.Canonical bs) {v : Value} (hrun : codec.decode bs = .ok (v, [])) :
    ∃ w, codec.encode v .empty = .ok w ∧ w.intoBytes = .ok bs := by
  obtain ⟨-, hpayload⟩ := (binds_of_bind h).rewrites hnames bs hcanonical v hrun
  refine ⟨Writer.empty.raw bs, ?_, rfl⟩
  rw [codec.writes_encode v, hpayload]
  rfl

/-- An argument of a range without an upper bound, with a member that is not sent. -/
theorem bind_canonical_span :
    let int32 := ofFields .baseScalar ScalarType.int32.id []
    let span := ofFields .inputShape .nil
      [.named "note" (ofFields .baseScalar ScalarType.str.id []) false,
        .named "span" (ofFields .range .nil [.element int32]) true]
    let members := [⟨"span", none, .range (.scalar .int32), false⟩,
      ⟨"note", none, .optional (.scalar .str), false⟩]
    let bs : Bytes := [0, 0, 0, 1, 0, 0, 0, 1, 0, 0, 0, 9, 18, 0, 0, 0, 4, 0, 0, 0, 3]
    let v := Value.record [.range ⟨some (.scalar (.int32 3)), none, true, false, false⟩, .null]
    ∃ codec w, span.bind true (.record "Span" members) = .ok codec ∧ codec.decode bs = .ok (v, []) ∧
      codec.encode v .empty = .ok w ∧ w.intoBytes = .ok bs := by
  intro int32 span members bs v
  let range := Codec.range .nil (.scalar ScalarType.int32.id .int32)
  let fields : List (BoundField Codec) :=
    [⟨"note", false, ⟨0⟩, .slot [1] (.scalar ScalarType.str.id .str)⟩,
      ⟨"span", true, ⟨0⟩, .slot [0] range⟩]
  let codec := Codec.record .nil .input fields (Shape.defaultRecord members)
  have hbind : span.bind true (.record "Span" members) = .ok codec := rfl
  have hnames : codec.DistinctNames := by
    refine .record (by decide) (List.forall_mem_cons.mpr
      ⟨?_, List.forall_mem_singleton.mpr ?_⟩)
    · rintro path codec ⟨⟩
      exact .scalar
    · rintro path codec ⟨⟩
      exact .range .scalar
  have hrange : range.Canonical [18, 0, 0, 0, 4, 0, 0, 0, 3] :=
    @Codec.Canonical.range _ _ 18 (some [0, 0, 0, 3]) none rfl (by decide) rfl rfl (by decide)
      (List.forall_mem_singleton.mpr (.scalar trivial))
  have hcanonical : codec.Canonical bs := by
    refine @Codec.Canonical.sparse _ _ _ 1 [(1, [18, 0, 0, 0, 4, 0, 0, 0, 3])]
      (List.pairwise_singleton _ _) ?_ ?_ (by decide) ?_
    · rintro e (_ | ⟨_, ⟨⟩⟩)
      exact ⟨_, _, _, rfl, rfl⟩
    · rintro (_ | _ | _) b path codec ⟨⟩ ⟨⟩ hrequired
      · cases hrequired
      · exact ⟨_, List.mem_cons_self, rfl⟩
    · rintro e (_ | ⟨_, ⟨⟩⟩) b path codec ⟨⟩ ⟨⟩
      exact hrange
  have hrun : codec.decode bs = .ok (v, []) := by
    unfold bs
    rfl
  obtain ⟨w, hw, hbytes⟩ := bind_canonical hbind hnames hcanonical hrun
  exact ⟨codec, w, hbind, hrun, hw, hbytes⟩

end Descriptor

end TypedWire
