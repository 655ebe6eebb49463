import TypedWire.Proofs.Codec.Delimited
import TypedWire.Proofs.Codec.Entries
import TypedWire.Proofs.Codec.Takes
import TypedWire.Proofs.Wire.Weighs

/-!
# How large decoded values get

A count on the wire is four bytes and may be large, but every element, whatever is in it, takes four
bytes for its length. So no value is larger than its payload by more than a factor that the codec
sets, however deep arrays are nested.

- `Value.nodes`: the number of values in a value.
- `Codec.growth`: the values that a codec gives for a byte, at most.
- `Element.weighs_read`: what is in an element is paid for by its length.
- `Codec.weighs_decode`: the values that are decoded, by the bytes that are taken.
- `Codec.decode_bounded`: decoded values are bounded by their payloads, and counts that promise too
  much fail.
-/

namespace TypedWire

open Read (TakesFront Weighs)

/-! ## Counting values -/

namespace Value

mutual

/-- The number of values in a value, with itself. The ranges of a multirange count as well. -/
def nodes : Value → Nat
  | .null | .scalar _ => 1
  | .array items | .set items | .tuple items | .record items => nodesAll items + 1
  | .range r => nodesRange r + 1
  | .multirange ranges => nodesRanges ranges + 1

/-- The number of values in some values. -/
def nodesAll : List Value → Nat
  | [] => 0
  | v :: vs => v.nodes + nodesAll vs

/-- The number of values in a bound that may be missing. -/
def nodesBound : Option Value → Nat
  | none => 0
  | some v => v.nodes

/-- The number of values in the bounds of a range. -/
def nodesRange : Range Value → Nat
  | ⟨lower, upper, _, _, _⟩ => nodesBound lower + nodesBound upper

/-- The number of values in some ranges, with the ranges. -/
def nodesRanges : List (Range Value) → Nat
  | [] => 0
  | r :: rs => nodesRange r + 1 + nodesRanges rs

end

theorem nodesAll_eq_sum : ∀ vs : List Value, nodesAll vs = (vs.map nodes).sum
  | [] => by rw [nodesAll, List.map_nil, List.sum_nil]
  | v :: vs => by rw [nodesAll, nodesAll_eq_sum vs, List.map_cons, List.sum_cons]

theorem nodesRanges_eq_sum : ∀ rs : List (Range Value),
    nodesRanges rs = (rs.map fun r => nodesRange r + 1).sum
  | [] => by rw [nodesRanges, List.map_nil, List.sum_nil]
  | r :: rs => by rw [nodesRanges, nodesRanges_eq_sum rs, List.map_cons, List.sum_cons]

theorem nodesBound_eq_elim (bound : Option Value) : nodesBound bound = bound.elim 0 nodes := by
  cases bound <;> rw [nodesBound] <;> rfl

end Value

namespace Record

/-- A slot that is replaced adds no more than the values that are put into it. -/
theorem nodes_set_le {rec : Record} {i : Nat} {v w : Value} {more : Nat} (hi : rec[i]? = some w)
    (h : v.nodes ≤ w.nodes + more) :
    Value.nodesAll (rec.set i v) ≤ Value.nodesAll rec + more := by
  induction rec generalizing i with
  | nil => cases hi
  | cons u rec ih =>
    cases i with
    | zero =>
      obtain rfl := Option.some.inj hi
      rw [List.set_cons_zero, Value.nodesAll, Value.nodesAll]
      omega
    | succ i =>
      have hrest := ih hi
      rw [List.set_cons_succ, Value.nodesAll, Value.nodesAll]
      omega

theorem nodes_setSlot?_le {rec rec' : Record} {path : StoragePath} {v : Value}
    (h : rec.setSlot? v path = some rec') :
    Value.nodesAll rec' ≤ Value.nodesAll rec + v.nodes := by
  induction path generalizing rec rec' with
  | nil => cases h
  | cons i path ih =>
    rcases setSlot?_cons_eq_some h with ⟨-, hi, rfl⟩ | ⟨inner, inner', -, hi, hset, rfl⟩
    · exact nodes_set_le (List.getElem?_eq_getElem hi) (Nat.le_add_left _ _)
    · refine nodes_set_le hi ?_
      have hinner := ih hset
      rw [Value.nodes, Value.nodes]
      omega

/-- Stores add no more than the values that are stored. -/
theorem nodes_storeAll_le (rec : Record) (stores : List Store) :
    Value.nodesAll (rec.storeAll stores).2 ≤
      Value.nodesAll rec + (stores.map (·.value.nodes)).sum := by
  induction stores generalizing rec with
  | nil => exact Nat.le_refl _
  | cons st stores ih =>
    rw [storeAll, List.map_cons, List.sum_cons]
    split
    · rename_i mid hset
      have hfirst := nodes_setSlot?_le hset
      have hothers := ih mid
      omega
    · exact Nat.le_add_right _ _

end Record

/-! ## What codecs give for bytes -/

namespace Codec

mutual

/-- The values that a codec gives for a byte, at most. It is that many at least, also for an element
without bytes, whose length is paid for. -/
def growth : Codec → Nat
  | .scalar .. => 1
  | .array _ element | .set _ element | .range _ element | .multirange _ element =>
    element.growth + 1
  | .tuple _ elements => growthAll elements + 1
  | .record _ _ fields template => growthFields fields + Value.nodesAll template + 1

/-- The values that some codecs give for a byte, at most. -/
def growthAll : List Codec → Nat
  | [] => 0
  | codec :: codecs => codec.growth + growthAll codecs

/-- The values that the codecs of some fields give for a byte, at most. -/
def growthFields : List (BoundField Codec) → Nat
  | [] => 0
  | ⟨_, _, _, .skip⟩ :: fields => growthFields fields
  | ⟨_, _, _, .slot _ codec⟩ :: fields => codec.growth + growthFields fields

end

end Codec

/-! ## Elements pay for what is in them -/

section

variable {α : Type} {p : Read DecodeError α} {weight : α → Nat} {rate : Nat}

namespace Element

/-- An element takes four bytes and its payload. -/
theorem length_payload {bs left : Bytes} {found : Option Bytes}
    (h : payload bs = .ok (found, left)) :
    left.length + 4 + (found.getD []).length = bs.length := by
  obtain ⟨n, mid, hn, h⟩ := Read.bind_eq_ok h
  have hfront := Read.length_uint32 hn
  split at h
  · obtain ⟨rfl, rfl⟩ := Prod.mk.inj (Except.ok.inj h)
    exact hfront
  · obtain ⟨bytes, htake, rfl⟩ := Read.map_eq_ok h
    have hbytes := Read.length_take htake
    obtain ⟨inner, -, rfl, hinner⟩ := (Read.reads_take _ _ _ _).mp htake
    show left.length + 4 + inner.length = bs.length
    omega

/-- An element that is read takes four bytes, and those that its payload is read from. -/
theorem read_eq_ok {bs left : Bytes} {found : Option α} (h : read p bs = .ok (found, left)) :
    (found = none ∧ left.length + 4 = bs.length) ∨
      ∃ a bytes, found = some a ∧ p bytes = .ok (a, []) ∧
        left.length + 4 + bytes.length = bs.length := by
  obtain ⟨payload, mid, hpayload, h⟩ := Read.bind_eq_ok h
  have hlen := length_payload hpayload
  cases payload with
  | none =>
    obtain ⟨rfl, rfl⟩ := Prod.mk.inj (Except.ok.inj h)
    exact .inl ⟨rfl, hlen⟩
  | some bytes =>
    obtain ⟨a, hinside, rfl⟩ := Read.map_eq_ok h
    unfold Read.inside at hinside
    split at hinside
    · rename_i hend
      obtain ⟨rfl, rfl⟩ := Prod.mk.inj (Except.ok.inj hinside)
      exact .inr ⟨_, bytes, rfl, Read.toEnd_eq_ok hend, hlen⟩
    · cases hinside

/-- An element that may not be absent takes four bytes, whatever reads its payload. -/
theorem length_required {what : String} {bs left : Bytes} {a : α}
    (h : required what p bs = .ok (a, left)) : left.length + 4 ≤ bs.length := by
  obtain ⟨found, mid, hread, h⟩ := Read.bind_eq_ok h
  obtain ⟨-, rfl⟩ : found = some a ∧ mid = left := by
    cases found with
    | none => cases h
    | some a' =>
      obtain ⟨rfl, rfl⟩ := Prod.mk.inj (Except.ok.inj h)
      exact ⟨rfl, rfl⟩
  rcases read_eq_ok hread with ⟨-, hlen⟩ | ⟨_, _, -, -, hlen⟩ <;> omega

/-- The length of an element pays for what its payload has on top. -/
theorem weighs_read (hp : Weighs p weight rate rate) :
    Weighs (read p) (·.elim 0 weight) rate 0 := by
  constructor
  · intro bs found left hrun
    rcases read_eq_ok hrun with ⟨-, hlen⟩ | ⟨_, _, -, -, hlen⟩ <;> omega
  · intro bs found left hrun
    rcases read_eq_ok hrun with ⟨rfl, hlen⟩ | ⟨a, bytes, rfl, hinner, hlen⟩
    · have hfront := Nat.mul_le_mul_left rate (Nat.le.intro hlen)
      show 0 + rate * left.length ≤ rate * bs.length + 0
      omega
    · have hweight := hp.weighs hinner
      rw [← hlen, Nat.mul_add, Nat.mul_add]
      show weight a + rate * left.length ≤ _
      rw [List.length_nil, Nat.mul_zero, Nat.add_zero] at hweight
      omega

theorem weighs_required (what : String) (hp : Weighs p weight rate rate) :
    Weighs (required what p) weight rate 0 := by
  refine (weighs_read hp).bind fun found => ?_
  cases found with
  | none => exact .throw _
  | some a => exact .pure (Nat.le_refl _)

end Element

/-! ## Arrays and ranges -/

theorem weighs_arrayItems (hp : Weighs p weight rate rate) :
    Weighs (arrayItems p) (fun items => (items.map weight).sum) rate 0 := by
  refine .after .uint32 fun dimensions => .after (.skip 8) fun _ => ?_
  split
  · exact .pure (Nat.le_refl 0)
  split
  · refine .after (TakesFront.uint32.map _) fun upper =>
      .after (TakesFront.uint32.map _) fun lower => ?_
    dsimp only
    split
    · exact .throw_bind _ _
    · exact (Element.weighs_required "array element" hp).times _
  · exact .throw _

theorem weighs_rangeBound (what : String) (isThere : Bool) (hp : Weighs p weight rate rate) :
    Weighs (rangeBound what isThere p) (·.elim 0 weight) rate 0 := by
  unfold rangeBound
  split
  · exact (Element.weighs_required what hp).map fun a => Nat.le_refl _
  · exact .pure (Nat.le_refl 0)

end

theorem weighs_rangeOf {p : Read DecodeError Value} {rate : Nat}
    (hp : Weighs p Value.nodes rate rate) : Weighs (rangeOf p) Value.nodesRange rate 0 := by
  refine .after .uint8 fun flags => ?_
  refine (weighs_rangeBound _ _ hp).bind fun lower => ?_
  refine (weighs_rangeBound _ _ hp).bind fun upper => .pure ?_
  rw [Value.nodesRange, Value.nodesBound_eq_elim, Value.nodesBound_eq_elim]
  omega

theorem weighs_multirangeOf {p : Read DecodeError Value} {rate : Nat}
    (hp : Weighs p Value.nodes rate rate) :
    Weighs (multirangeOf p) Value.nodesRanges (rate + 1) 0 := by
  have hrange : Weighs (rangeOf p) (fun r => Value.nodesRange r + 1) (rate + 1) (rate + 1) :=
    ((weighs_rangeOf hp).add 1).mono (Nat.le_succ rate) (by omega)
  have hsum : Value.nodesRanges = _ := funext Value.nodesRanges_eq_sum
  rw [hsum]
  exact .after .uint32 fun count => (Element.weighs_required "range" hrange).times count.toNat

/-! ## Records -/

/-- How many values there are in what is stored for an entry. -/
def Store.nodes (found : Option Store) : Nat := found.elim 0 (·.value.nodes)

/-- What is collected from entries is paid for by the bytes that they take, also if one of them
cannot be read. -/
theorem collect_le {entries : List (Read DecodeError (Option Store))} {rate : Nat}
    (h : ∀ entry ∈ entries, Weighs entry Store.nodes rate 0) (bs : Bytes) :
    ((collect entries bs).stores.map (·.value.nodes)).sum +
      rate * (collect entries bs).unread.length ≤ rate * bs.length := by
  induction entries generalizing bs with
  | nil => exact Nat.le_of_eq (Nat.zero_add _)
  | cons entry entries ih =>
    obtain ⟨hentry, hentries⟩ := List.forall_mem_cons.mp h
    rw [collect]
    split
    · rename_i found left hrun
      have hfirst := hentry.weighs hrun
      have hothers := ih hentries left
      have hfound : (found.toList.map (·.value.nodes)).sum = Store.nodes found := by
        cases found <;> rfl
      dsimp only [Collected.after]
      rw [List.map_append, List.sum_append, hfound]
      omega
    · exact Nat.le_of_eq (Nat.zero_add _)

/-- An entry is paid for at the rate of the codec of its field. -/
theorem BoundField.weighs_entry {b : BoundField Codec} {rate : Nat} (layout : RecordLayout)
    (h : ∀ path codec, b.target = .slot path codec → Weighs codec.decode Value.nodes rate rate) :
    Weighs (b.entry layout) Store.nodes rate 0 := by
  obtain ⟨name, required, flags, target⟩ := b
  cases target with
  | skip => exact .after layout.delimited_skip.takesFront fun _ => .pure (Nat.le_refl 0)
  | slot path codec =>
    refine (Element.weighs_read (h path codec rfl)).bind fun found => ?_
    cases found with
    | some value => exact .pure (Nat.le_refl _)
    | none =>
      dsimp only
      split
      · exact .throw _
      · exact .pure (Nat.le_refl 0)

namespace Codec

variable {layout : RecordLayout} {fields : List (BoundField Codec)} {rate : Nat}

theorem takesFront_entries (layout : RecordLayout) (fields : List (BoundField Codec)) :
    TakesFront (entries layout fields) := by
  cases layout with
  | named | output => exact (delimited_expectCount _).takesFront.bind fun _ => .pure _
  | input =>
    refine TakesFront.uint32.bind fun present => ?_
    split
    · exact (TakesFront.throw _).bind fun _ => .pure _
    · exact .pure _

theorem weighs_entries (h : ∀ b ∈ fields, Weighs (b.entry layout) Store.nodes rate 0)
    {bs left : Bytes} {found : List (Read DecodeError (Option Store))}
    (hrun : entries layout fields bs = .ok (found, left)) :
    ∀ entry ∈ found, Weighs entry Store.nodes rate 0 := by
  have hdense : ∀ entry ∈ fields.map (denseEntry layout), Weighs entry Store.nodes rate 0 := by
    intro entry hentry
    obtain ⟨b, hb, rfl⟩ := List.mem_map.mp hentry
    exact .after (.skip 4) fun _ => h b hb
  cases layout with
  | named | output =>
    obtain ⟨_, mid, -, hfound⟩ := Read.bind_eq_ok hrun
    obtain ⟨rfl, -⟩ := Prod.mk.inj (Except.ok.inj hfound)
    exact hdense
  | input =>
    obtain ⟨present, mid, -, hfound⟩ := Read.bind_eq_ok hrun
    split at hfound
    · cases hfound
    · obtain ⟨rfl, -⟩ := Prod.mk.inj (Except.ok.inj hfound)
      intro entry hentry
      obtain rfl := List.eq_of_mem_replicate hentry
      refine .after .uint32 fun index => ?_
      split
      · rename_i b hb
        exact h b (List.mem_of_getElem? hb)
      · exact .throw _

/-- What is collected from a record is paid for by the bytes that its entries take. -/
theorem collected_le (h : ∀ b ∈ fields, Weighs (b.entry layout) Store.nodes rate 0) (bs : Bytes) :
    ((collected layout fields bs).stores.map (·.value.nodes)).sum +
      rate * (collected layout fields bs).unread.length ≤ rate * bs.length := by
  unfold collected
  split
  · rename_i found left hrun
    have hfront := ((takesFront_entries layout fields).suffix hrun).length_le
    exact Nat.le_trans (collect_le (weighs_entries h hrun) left) (Nat.mul_le_mul_left rate hfront)
  · exact Nat.le_of_eq (Nat.zero_add _)

/-- A decoded record is its fresh storage and what was paid for. -/
theorem weighs_decode_record (id : Uuid) {template : Record}
    (h : ∀ b ∈ fields, Weighs (b.entry layout) Store.nodes rate 0) :
    Weighs (Codec.record id layout fields template).decode Value.nodes rate
      (Value.nodesAll template + 1) := by
  constructor
  · intro bs v left hrun
    exact ((delimited_decode_record id layout fields template).takesFront.suffix hrun).length_le
  · intro bs v left hrun
    rw [decode_record, recordReads_eq] at hrun
    split at hrun
    · rename_i left' rec hsettled
      obtain ⟨rfl, rfl⟩ := Prod.mk.inj (Except.ok.inj hrun)
      obtain ⟨stores, hreads, hall⟩ := settle_eq_ok.mp hsettled
      obtain ⟨rfl, rfl⟩ := Collected.reads_eq_ok hreads
      have hpaid := collected_le h bs
      have hstored := Record.nodes_storeAll_le template (collected layout fields bs).stores
      rw [hall] at hstored
      rw [Value.nodes]
      dsimp only at hstored
      omega
    · cases hrun

/-! ## Values -/

/-- A value around what was paid for is one more. -/
theorem weighs_around {α : Type} {p : Read DecodeError α} {weight : α → Nat} {make : α → Value}
    (hp : Weighs p weight rate 0) (h : ∀ a, (make a).nodes ≤ weight a + 1) :
    Weighs (make <$> p) Value.nodes (rate + 1) (rate + 1) :=
  (hp.map h).mono (Nat.le_succ rate) (by omega)

mutual

/-- The values that are decoded are paid for by the bytes that are taken, at the rate of the codec,
but for as many as the codec gives for a byte. -/
theorem weighs_decode : ∀ codec : Codec,
    Weighs codec.decode Value.nodes codec.growth codec.growth
  | .scalar _ type => by
    rw [decode, growth]
    exact .after type.takesFront_read fun s => .pure (Nat.le_of_eq (by rw [Value.nodes]))
  | .array _ element => by
    rw [decode, growth]
    refine weighs_around (weighs_arrayItems (weighs_decode element)) fun items => Nat.le_of_eq ?_
    rw [Value.nodes, Value.nodesAll_eq_sum]
  | .set _ element => by
    rw [decode, growth]
    refine weighs_around (weighs_arrayItems (weighs_decode element)) fun items => Nat.le_of_eq ?_
    rw [Value.nodes, Value.nodesAll_eq_sum]
  | .tuple _ elements => by
    rw [decode, growth]
    refine .after (delimited_expectCount _).takesFront fun _ => ?_
    refine weighs_around (weighs_decodeItems elements) fun items => Nat.le_of_eq ?_
    rw [Value.nodes]
  | .record id layout fields template => by
    rw [growth]
    refine (weighs_decode_record id (weighs_fields layout fields)).mono ?_ ?_ <;> omega
  | .range _ element => by
    rw [decode, growth]
    refine weighs_around (weighs_rangeOf (weighs_decode element)) fun r => Nat.le_of_eq ?_
    rw [Value.nodes]
  | .multirange _ element => by
    have hranges := weighs_multirangeOf (weighs_decode element)
    rw [decode, growth]
    refine (hranges.map fun ranges => Nat.le_of_eq ?_).mono (Nat.le_refl _) (Nat.le_add_left 1 _)
    rw [Value.nodes]

theorem weighs_decodeItems : ∀ codecs : List Codec,
    Weighs (decodeItems codecs) Value.nodesAll (growthAll codecs) 0
  | [] => by
    rw [decodeItems]
    exact .pure (Nat.le_refl 0)
  | codec :: codecs => by
    have hitem := Element.weighs_required "tuple element" (weighs_decode codec)
    have hitems := weighs_decodeItems codecs
    rw [decodeItems, growthAll]
    refine .after (.skip 4) fun _ => ?_
    refine (hitem.mono (Nat.le_add_right _ _) (Nat.le_refl 0)).bind fun item => ?_
    refine (hitems.mono (Nat.le_add_left _ _) (Nat.le_refl 0)).bind fun items => .pure ?_
    rw [Value.nodesAll]
    omega

theorem weighs_fields (layout : RecordLayout) : ∀ fields : List (BoundField Codec),
    ∀ b ∈ fields, Weighs (b.entry layout) Store.nodes (growthFields fields) 0
  | [] => List.forall_mem_nil _
  | ⟨name, required, flags, .skip⟩ :: fields => by
    rw [growthFields]
    refine List.forall_mem_cons.mpr ⟨?_, weighs_fields layout fields⟩
    refine BoundField.weighs_entry layout fun path codec htarget => ?_
    cases htarget
  | ⟨name, required, flags, .slot path codec⟩ :: fields => by
    have hcodec := weighs_decode codec
    rw [growthFields]
    refine List.forall_mem_cons.mpr ⟨?_, fun b hb => ?_⟩
    · refine (BoundField.weighs_entry layout fun path' codec' htarget => ?_).mono
        (Nat.le_add_right _ _) (Nat.le_refl 0)
      obtain ⟨rfl, rfl⟩ := Target.slot.inj htarget
      exact hcodec
    · exact (weighs_fields layout fields b hb).mono (Nat.le_add_left _ _) (Nat.le_refl 0)

end

/-- What the size of a payload says about what is decoded from it. -/
structure Bounded (codec : Codec) : Prop where
  /-- There are no more values than the codec gives for the bytes and for one byte more. -/
  nodes : ∀ {bs : Bytes} {v : Value} {left : Bytes}, codec.decode bs = .ok (v, left) →
    v.nodes ≤ codec.growth * (bs.length + 1)
  /-- An array or a set cannot have a negative number of elements. -/
  negative : ∀ {id : Uuid} {element : Codec} {reserved : Bytes} {upper lower : Int32} (body : Bytes),
    codec = .array id element ∨ codec = .set id element → reserved.length = 8 →
      upper.toInt - lower.toInt + 1 < 0 →
        codec.decode (boundsHeader reserved upper lower ++ body) =
          .error (.invalidBounds upper lower)
  /-- Nor can it have more elements than there are bytes for their lengths. -/
  elements : ∀ {id : Uuid} {element : Codec} {reserved : Bytes} {upper lower : Int32} {body : Bytes},
    codec = .array id element ∨ codec = .set id element → reserved.length = 8 →
      (body.length : Int) < 4 * (upper.toInt - lower.toInt + 1) →
        ∃ e, codec.decode (boundsHeader reserved upper lower ++ body) = .error e
  /-- The same goes for the ranges of a multirange. -/
  ranges : ∀ {id : Uuid} {element : Codec} {count : UInt32} {body : Bytes},
    codec = .multirange id element → body.length < 4 * count.toNat →
      ∃ e, codec.decode (BigEndian.encode 4 count.toNat ++ body) = .error e

/-- Elements without bytes for their lengths are not read. -/
theorem times_required_fails {α : Type} (what : String) (p : Read DecodeError α) {n : Nat}
    {body : Bytes} (h : body.length < 4 * n) :
    ∃ e, Read.times n (Element.required what p) body = .error e := by
  cases hrun : Read.times n (Element.required what p) body with
  | error e => exact ⟨e, rfl⟩
  | ok r =>
    have hlen := Read.length_times Element.length_required hrun
    omega

/-- An array or a set whose elements are not read is not decoded. -/
theorem decode_items_eq_error {codec element : Codec} {id : Uuid} {bs : Bytes} {e : DecodeError}
    (hcodec : codec = .array id element ∨ codec = .set id element)
    (h : arrayItems element.decode bs = .error e) : codec.decode bs = .error e := by
  rcases hcodec with rfl | rfl
  · rw [decode]
    exact Read.map_of_error _ h
  · rw [decode]
    exact Read.map_of_error _ h

theorem bounded (codec : Codec) : codec.Bounded where
  nodes {bs v left} hrun := by
    have hweight := (weighs_decode codec).weighs hrun
    rw [Nat.mul_add, Nat.mul_one]
    omega
  negative {id element reserved upper lower} body hcodec hlen hcount := by
    refine decode_items_eq_error hcodec ?_
    rw [arrayItems_bounds hlen, if_pos hcount]
  elements {id element reserved upper lower body} hcodec hlen hcount := by
    have hmany : body.length < 4 * (upper.toInt - lower.toInt + 1).toNat := by omega
    obtain ⟨e, he⟩ := times_required_fails "array element" element.decode hmany
    refine ⟨e, decode_items_eq_error hcodec ?_⟩
    rw [arrayItems_bounds hlen, if_neg (by omega), he]
  ranges {id element count body} hcodec hcount := by
    obtain rfl := hcodec
    obtain ⟨e, he⟩ := times_required_fails "range" (rangeOf element.decode) hcount
    rw [decode]
    exact ⟨e, Read.map_of_error _ ((Read.bind_of_ok (Read.takes_uint32 count body)).trans he)⟩

/-- Decoded values are bounded by their payloads. Counts that promise more than there are bytes for
fail, and 64 bits are enough to compute the count of an array. -/
theorem decode_bounded (codec : Codec) : codec.Bounded ∧ ∀ upper lower : Int32,
    (upper.toInt64 - lower.toInt64).toInt = upper.toInt - lower.toInt ∧
      (upper.toInt64 - lower.toInt64 + 1).toInt = upper.toInt - lower.toInt + 1 := by
  refine ⟨bounded codec, fun upper lower => ?_⟩
  have hupper := upper.toInt_lt
  have hupper' := upper.le_toInt
  have hlower := lower.toInt_lt
  have hlower' := lower.le_toInt
  have hspan : (upper.toInt64 - lower.toInt64).toInt = upper.toInt - lower.toInt := by
    rw [Int64.toInt_sub, Int32.toInt_toInt64, Int32.toInt_toInt64]
    exact Int.bmod_eq_of_le (by omega) (by omega)
  refine ⟨hspan, ?_⟩
  rw [Int64.toInt_add, hspan, Int64.toInt_one]
  exact Int.bmod_eq_of_le (by omega) (by omega)

end Codec

end TypedWire
