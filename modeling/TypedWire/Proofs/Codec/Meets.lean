import TypedWire.Codec.Decode
import TypedWire.Proofs.Wire.Reads

/-!
# What decoding gives and fails with

Rules that take what the reads of the parts give to what the read of the whole gives. Along the way
no read fails over the storage, which only the stores of a record touch.

- `DecodeError.InBytes`: a failure that the bytes are to blame for.
- `meets_arrayItems`, `meets_rangeOf`, `meets_multirangeOf`: the parts of a value.
- `meets_recordReads`: the stores that a record asks for.
-/

namespace TypedWire

open Read (Meets)

/-- The bytes are to blame for a failure, not the storage. -/
def DecodeError.InBytes (e : DecodeError) : Prop := ∀ expected, e ≠ .storageMismatch expected

variable {α : Type} {good : α → Prop}

/-! ## Items -/

theorem meets_take (n : Nat) : Meets (Read.take n) (fun _ => True) DecodeError.InBytes where
  good _ := trivial
  bad hrun := by
    unfold Read.take at hrun
    split at hrun
    · cases hrun
    · exact Except.error.inj hrun ▸ fun _ h => nomatch h

theorem meets_skip (n : Nat) : Meets (Read.skip n) (fun _ => True) DecodeError.InBytes :=
  (meets_take n).bind fun _ _ => .pure trivial

theorem meets_word (width : Nat) : Meets (Read.word width) (fun _ => True) DecodeError.InBytes :=
  (meets_take width).map _ fun _ h => h

theorem meets_uint8 : Meets Read.uint8 (fun _ => True) DecodeError.InBytes :=
  (meets_word 1).map _ fun _ h => h

theorem meets_uint32 : Meets Read.uint32 (fun _ => True) DecodeError.InBytes :=
  (meets_word 4).map _ fun _ h => h

theorem meets_int32 : Meets Read.int32 (fun _ => True) DecodeError.InBytes :=
  meets_uint32.map _ fun _ h => h

theorem meets_expectCount (n : Nat) :
    Meets (expectCount n) (fun _ => True) DecodeError.InBytes := by
  refine meets_uint32.bind fun count _ => ?_
  split
  · exact .throw fun _ h => nomatch h
  · exact .pure trivial

theorem meets_toEnd {p : Read DecodeError α} (hp : Meets p good DecodeError.InBytes) :
    Meets p.toEnd good DecodeError.InBytes := by
  have hfinish : Meets Read.finish (fun _ => True) DecodeError.InBytes := by
    refine ⟨fun _ => trivial, fun hrun => ?_⟩
    unfold Read.finish at hrun
    split at hrun
    · cases hrun
    · exact Except.error.inj hrun ▸ fun _ h => nomatch h
  exact hp.bind fun a ha => hfinish.bind fun _ _ => .pure ha

/-! ## Elements -/

namespace Element

theorem meets_payload : Meets payload (fun _ => True) DecodeError.InBytes := by
  refine meets_uint32.bind fun length _ => ?_
  split
  · exact .pure trivial
  · exact (meets_take length.toNat).map _ fun _ h => h

theorem meets_read {p : Read DecodeError α} (hp : Meets p good DecodeError.InBytes) :
    Meets (read p) (fun found => ∀ a, found = some a → good a) DecodeError.InBytes := by
  refine meets_payload.bind fun found _ => ?_
  cases found with
  | none => exact .pure fun _ h => nomatch h
  | some bytes =>
    refine ((meets_toEnd hp).inside bytes).map _ fun a ha => ?_
    rintro _ ⟨⟩
    exact ha

theorem meets_required (what : String) {p : Read DecodeError α}
    (hp : Meets p good DecodeError.InBytes) : Meets (required what p) good DecodeError.InBytes := by
  refine (meets_read hp).bind fun found hfound => ?_
  cases found with
  | none => exact .throw fun _ h => nomatch h
  | some a => exact .pure (hfound a rfl)

end Element

/-! ## Arrays and ranges -/

theorem meets_arrayItems {p : Read DecodeError α} (hp : Meets p good DecodeError.InBytes) :
    Meets (arrayItems p) (fun items => ∀ a ∈ items, good a) DecodeError.InBytes := by
  refine meets_uint32.bind fun dimensions _ => (meets_skip 8).bind fun _ _ => ?_
  split
  · exact .pure fun _ h => nomatch h
  · split
    · refine meets_int32.bind fun upper _ => meets_int32.bind fun lower _ => ?_
      dsimp only
      split
      · exact .throw_bind fun _ h => nomatch h
      · exact (Element.meets_required _ hp).times _
    · exact .throw fun _ h => nomatch h

theorem meets_rangeBound (what : String) (isThere : Bool) {p : Read DecodeError α}
    (hp : Meets p good DecodeError.InBytes) : Meets (rangeBound what isThere p)
      (fun bound => ∀ a, bound = some a → isThere = true ∧ good a) DecodeError.InBytes := by
  unfold rangeBound
  cases isThere with
  | true =>
    refine (Element.meets_required what hp).map _ fun a ha => ?_
    rintro _ ⟨⟩
    exact ⟨rfl, ha⟩
  | false => exact .pure fun _ h => nomatch h

/-- The bounds of a range that is read are good, and an empty one has none. -/
theorem meets_rangeOf {p : Read DecodeError α} (hp : Meets p good DecodeError.InBytes) :
    Meets (rangeOf p) (fun r => (∀ a ∈ r.lower.toList ++ r.upper.toList, good a) ∧
      (r.empty = true → r.lower = none ∧ r.upper = none)) DecodeError.InBytes := by
  refine meets_uint8.bind fun flags _ => (meets_rangeBound _ _ hp).bind fun lower hlower =>
    (meets_rangeBound _ _ hp).bind fun upper hupper => .pure ⟨?_, ?_⟩
  · intro a ha
    rcases List.mem_append.mp ha with h | h
    · exact (hlower a (Option.mem_toList.mp h)).2
    · exact (hupper a (Option.mem_toList.mp h)).2
  · intro hempty
    -- a bound is read only if the flags do not say that the range is empty
    have hnone : ∀ {bound : Option α} {flag : Bool}, (∀ a, bound = some a →
        (!hasFlag flags RangeFlags.empty && flag) = true ∧ good a) → bound = none := by
      intro bound flag h
      cases bound with
      | none => rfl
      | some a =>
        have hthere := (h a rfl).1
        rw [show hasFlag flags RangeFlags.empty = true from hempty] at hthere
        cases hthere
    exact ⟨hnone hlower, hnone hupper⟩

theorem meets_multirangeOf {p : Read DecodeError α} (hp : Meets p good DecodeError.InBytes) :
    Meets (multirangeOf p) (fun ranges => ∀ r ∈ ranges,
      (∀ a ∈ r.lower.toList ++ r.upper.toList, good a) ∧
        (r.empty = true → r.lower = none ∧ r.upper = none)) DecodeError.InBytes :=
  meets_uint32.bind fun count _ => (Element.meets_required _ (meets_rangeOf hp)).times count.toNat

/-! ## Tuples and records -/

namespace Codec

theorem meets_decodeItems {good : Nat → Value → Prop} {codecs : List Codec}
    (h : ∀ (i : Nat) codec, codecs[i]? = some codec →
      Meets codec.decode (good i) DecodeError.InBytes) :
    Meets (decodeItems codecs) (fun items => items.length = codecs.length ∧
      ∀ (i : Nat) v, items[i]? = some v → good i v) DecodeError.InBytes := by
  induction codecs generalizing good with
  | nil =>
    rw [decodeItems]
    refine .pure ⟨rfl, fun i v hv => ?_⟩
    cases hv
  | cons codec codecs ih =>
    rw [decodeItems]
    refine (meets_skip 4).bind fun _ _ =>
      (Element.meets_required _ (h 0 codec rfl)).bind fun item hitem =>
        (ih fun i => h (i + 1)).bind fun items hitems => .pure ⟨?_, ?_⟩
    · exact congrArg (· + 1) hitems.1
    · rintro (_ | i) v hv
      · exact Option.some.inj hv ▸ hitem
      · exact hitems.2 i v hv

/-- Every store is of a good value for its path. -/
def Stores (good : StoragePath → Value → Prop) (stores : List Store) : Prop :=
  ∀ st ∈ stores, good st.path st.value

/-- The stores before an interruption are good, and the bytes are to blame for it. -/
def Interrupts (good : StoragePath → Value → Prop) (i : Interrupted) : Prop :=
  i.cause.InBytes ∧ Stores good i.done

variable {good : StoragePath → Value → Prop} {done : List Store}

theorem Stores.snoc {path : StoragePath} {v : Value} (h : Stores good done) (hv : good path v) :
    Stores good (done ++ [⟨path, v⟩]) := by
  intro st hst
  rcases List.mem_append.mp hst with hst | hst
  · exact h st hst
  · obtain rfl := List.mem_singleton.mp hst
    exact hv

theorem meets_afterStores {β : Type} {q : β → Prop} {p : Read DecodeError β}
    (h : Stores good done) (hp : Meets p q DecodeError.InBytes) :
    Meets (afterStores done p) q (Interrupts good) :=
  hp.mapError _ fun _ he => ⟨he, h⟩

theorem meets_layoutSkip (layout : RecordLayout) :
    Meets layout.skip (fun _ => True) DecodeError.InBytes := by
  cases layout with
  | named | input => exact Element.meets_payload.bind fun _ _ => .pure trivial
  | output => exact meets_skip _

/-- The values that go to the slots of some fields are good. -/
def FieldsMeet (good : StoragePath → Value → Prop) (fields : List (BoundField Codec)) : Prop :=
  ∀ b ∈ fields, ∀ path codec, b.target = .slot path codec →
    Meets codec.decode (good path) DecodeError.InBytes

theorem FieldsMeet.tail {b : BoundField Codec} {fields : List (BoundField Codec)}
    (h : FieldsMeet good (b :: fields)) : FieldsMeet good fields :=
  fun b hb => h b (List.mem_cons_of_mem _ hb)

theorem meets_decodeFields (layout : RecordLayout) {fields : List (BoundField Codec)}
    (h : FieldsMeet good fields) (hdone : Stores good done) :
    Meets (decodeFields layout fields done) (Stores good) (Interrupts good) := by
  induction fields generalizing done with
  | nil =>
    rw [decodeFields]
    exact .pure hdone
  | cons b fields ih =>
    have hskip := meets_afterStores hdone (meets_skip 4)
    obtain ⟨name, required, flags, target⟩ := b
    cases target with
    | skip =>
      rw [decodeFields]
      exact hskip.bind fun _ _ =>
        (meets_afterStores hdone (meets_layoutSkip layout)).bind fun _ _ => ih h.tail hdone
    | slot path codec =>
      have hcodec := h _ List.mem_cons_self path codec rfl
      rw [decodeFields]
      refine hskip.bind fun _ _ =>
        (meets_afterStores hdone (Element.meets_read hcodec)).bind fun found hfound => ?_
      cases found with
      | some v => exact ih h.tail (hdone.snoc (hfound v rfl))
      | none =>
        cases required with
        | true =>
          refine .throw ⟨?_, hdone⟩
          rintro _ ⟨⟩
        | false => exact ih h.tail hdone

theorem meets_decodeAt (index : UInt32) (i : Nat) {fields : List (BoundField Codec)}
    (h : FieldsMeet good fields) (hdone : Stores good done) :
    Meets (decodeAt index i fields done) (Stores good) (Interrupts good) := by
  induction fields generalizing i with
  | nil =>
    rw [decodeAt]
    refine .throw ⟨?_, hdone⟩
    rintro _ ⟨⟩
  | cons b fields ih =>
    cases i with
    | zero =>
      obtain ⟨name, required, flags, target⟩ := b
      cases target with
      | skip =>
        rw [decodeAt]
        exact (meets_afterStores hdone (meets_layoutSkip .input)).bind fun _ _ => .pure hdone
      | slot path codec =>
        have hcodec := h _ List.mem_cons_self path codec rfl
        rw [decodeAt]
        refine (meets_afterStores hdone (Element.meets_read hcodec)).bind fun found hfound => ?_
        cases found with
        | some v => exact .pure (hdone.snoc (hfound v rfl))
        | none => exact .pure hdone
    | succ i =>
      rw [decodeAt]
      exact ih i h.tail

/-- A record asks for good stores only, also if it breaks off. -/
theorem meets_recordReads (layout : RecordLayout) {fields : List (BoundField Codec)}
    (h : FieldsMeet good fields) :
    Meets (recordReads layout fields) (Stores good) (Interrupts good) := by
  have hnothing : Stores good [] := fun _ hst => nomatch hst
  -- named tuples and objects send every field, an argument those that are present
  have hdense : Meets (afterStores [] (expectCount fields.length) >>= fun _ =>
      decodeFields layout fields []) (Stores good) (Interrupts good) :=
    (meets_afterStores hnothing (meets_expectCount fields.length)).bind fun _ _ =>
      meets_decodeFields layout h hnothing
  cases layout with
  | named | output => exact hdense
  | input =>
    refine (meets_afterStores hnothing meets_uint32).bind fun count _ => ?_
    have hrun : Meets (Read.iterate count.toNat (fun done => do
        let index ← afterStores done Read.uint32
        decodeAt index index.toNat fields done) []) (Stores good) (Interrupts good) :=
      Meets.iterate (fun done hdone => (meets_afterStores hdone meets_uint32).bind fun index _ =>
        meets_decodeAt index index.toNat h hdone) count.toNat [] hnothing
    split
    · exact .throw_bind ⟨fun _ h => (nomatch h), hnothing⟩
    · exact hrun

end Codec

end TypedWire
