import TypedWire.Proofs.Codec.Scalar
import TypedWire.Proofs.Codec.Takes

/-!
# Canonical payloads

Decoding takes many payloads for one value: it passes over reserved bytes, takes any lower bound of
an array, and the fields of an argument in any order. A payload is canonical if it makes none of
these choices in its own way, at any depth. Counts, and the lengths of what has a fixed size, are
left to decoding, which checks them.

- `ScalarType.Canonical`: canonical payloads of scalars.
- `Codec.Canonical`: canonical payloads of a codec, put together from those of the parts.
- `Codec.DistinctNames`: no record has two fields of one name.
- `ScalarType.payload_read`: writing the scalar read from a canonical payload gives the payload.
-/

namespace TypedWire

open Read (Reads spellBlock)

/-- Payloads of a scalar type with nothing left to the writer: a truth value is 0 or 1, the reserved
bytes of a duration are zero, and JSON is printed as it is printed here. -/
def ScalarType.Canonical (type : ScalarType) (bs : Bytes) : Prop :=
  match type with
  | .bool => ∀ b ∈ bs, b = 0 ∨ b = 1
  | .duration => ∀ b ∈ bs.drop 8, b = 0
  | .json => ∀ text j, Utf8.decode? bs.tail = some text → Json.parse? text = some j →
      text = j.compact
  | _ => True

namespace Codec

/-- What stands for a field in a record that has all of them: its payload as an element, the mark
for absence, or the bytes of a field without a slot. -/
def fieldBlock (layout : RecordLayout) (b : BoundField Codec) (payload : Option Bytes) : Bytes :=
  match b.target with
  | .skip => layout.skippedBytes
  | .slot .. => (payload.map spellBlock).getD Element.absentMark

/-- Payloads in which nothing is left to the writer. The payloads of parts are shorter than the
length that marks an absent element. -/
inductive Canonical : Codec → Bytes → Prop
  | scalar {id : Uuid} {type : ScalarType} {bs : Bytes} (h : type.Canonical bs) :
      Canonical (.scalar id type) bs
  /-- One dimension, from 1 on, and zeros in the reserved bytes. -/
  | array {id : Uuid} {element : Codec} {upper : Int32} {payloads : List Bytes}
      (short : ∀ bs ∈ payloads, bs.length < Element.absent.toNat)
      (h : ∀ bs ∈ payloads, Canonical element bs) :
      Canonical (.array id element) (arrayHeader upper ++ payloads.flatMap spellBlock)
  | set {id : Uuid} {element : Codec} {upper : Int32} {payloads : List Bytes}
      (short : ∀ bs ∈ payloads, bs.length < Element.absent.toNat)
      (h : ∀ bs ∈ payloads, Canonical element bs) :
      Canonical (.set id element) (arrayHeader upper ++ payloads.flatMap spellBlock)
  | tuple {id : Uuid} {elements : List Codec} {count : UInt32} {parts : List (Codec × Bytes)}
      (codecs : parts.map Prod.fst = elements)
      (short : ∀ part ∈ parts, part.2.length < Element.absent.toNat)
      (h : ∀ part ∈ parts, Canonical part.1 part.2) :
      Canonical (.tuple id elements) (BigEndian.encode 4 count.toNat ++
        parts.flatMap fun part => List.replicate 4 0 ++ spellBlock part.2)
  /-- A named tuple or a result sends all of its fields. -/
  | dense {id : Uuid} {layout : RecordLayout} {fields : List (BoundField Codec)} {template : Record}
      {count : UInt32} {parts : List (BoundField Codec × Option Bytes)} (all : layout ≠ .input)
      (bound : parts.map Prod.fst = fields)
      (short : ∀ part ∈ parts, ∀ bs, part.2 = some bs → bs.length < Element.absent.toNat)
      (h : ∀ part ∈ parts, ∀ path codec bs, part.1.target = .slot path codec →
        part.2 = some bs → Canonical codec bs) :
      Canonical (.record id layout fields template) (BigEndian.encode 4 count.toNat ++
        parts.flatMap fun part => List.replicate 4 0 ++ fieldBlock layout part.1 part.2)
  /-- An argument sends the fields that it has, with their positions in order, and has those that
  are required. -/
  | sparse {id : Uuid} {fields : List (BoundField Codec)} {template : Record} {count : UInt32}
      {entries : List (UInt32 × Bytes)} (increasing : entries.Pairwise fun e e' => e.1 < e'.1)
      (slots : ∀ e ∈ entries, ∃ b path codec, fields[e.1.toNat]? = some b ∧
        b.target = .slot path codec)
      (required : ∀ (k : Nat) b path codec, fields[k]? = some b → b.target = .slot path codec →
        b.required = true → ∃ e ∈ entries, e.1.toNat = k)
      (short : ∀ e ∈ entries, e.2.length < Element.absent.toNat)
      (h : ∀ e ∈ entries, ∀ b path codec, fields[e.1.toNat]? = some b →
        b.target = .slot path codec → Canonical codec e.2) :
      Canonical (.record id .input fields template) (BigEndian.encode 4 count.toNat ++
        entries.flatMap fun e => BigEndian.encode 4 e.1.toNat ++ spellBlock e.2)
  /-- Only five bits of the flags are used, and only one of an empty range. -/
  | range {id : Uuid} {element : Codec} {flags : UInt8} {lower upper : Option Bytes}
      (used : flags &&& ~~~0x1f = 0)
      (plain : hasFlag flags RangeFlags.empty = true → flags = RangeFlags.empty)
      (hasLower : lower.isSome =
        (!hasFlag flags RangeFlags.empty && !hasFlag flags RangeFlags.lowerInfinite))
      (hasUpper : upper.isSome =
        (!hasFlag flags RangeFlags.empty && !hasFlag flags RangeFlags.upperInfinite))
      (short : ∀ bs ∈ lower.toList ++ upper.toList, bs.length < Element.absent.toNat)
      (h : ∀ bs ∈ lower.toList ++ upper.toList, Canonical element bs) :
      Canonical (.range id element)
        (flags :: (lower.toList ++ upper.toList).flatMap spellBlock)
  | multirange {id : Uuid} {element : Codec} {count : UInt32} {payloads : List Bytes}
      (short : ∀ bs ∈ payloads, bs.length < Element.absent.toNat)
      (h : ∀ bs ∈ payloads, Canonical (.range id element) bs) :
      Canonical (.multirange id element)
        (BigEndian.encode 4 count.toNat ++ payloads.flatMap spellBlock)

/-- No record within has two fields of one name. -/
inductive DistinctNames : Codec → Prop
  | scalar {id : Uuid} {type : ScalarType} : DistinctNames (.scalar id type)
  | array {id : Uuid} {element : Codec} (h : DistinctNames element) :
      DistinctNames (.array id element)
  | set {id : Uuid} {element : Codec} (h : DistinctNames element) : DistinctNames (.set id element)
  | tuple {id : Uuid} {elements : List Codec} (h : ∀ codec ∈ elements, DistinctNames codec) :
      DistinctNames (.tuple id elements)
  | record {id : Uuid} {layout : RecordLayout} {fields : List (BoundField Codec)}
      {template : Record} (names : (fields.map BoundField.name).Nodup)
      (h : ∀ b ∈ fields, ∀ path codec, b.target = .slot path codec → DistinctNames codec) :
      DistinctNames (.record id layout fields template)
  | range {id : Uuid} {element : Codec} (h : DistinctNames element) :
      DistinctNames (.range id element)
  | multirange {id : Uuid} {element : Codec} (h : DistinctNames element) :
      DistinctNames (.multirange id element)

end Codec

/-! ## Scalars -/

namespace ScalarType

variable {α β : Type}

/-- All of some bytes is read as what they spell. -/
theorem spells_of_sized {type : ScalarType} {length : Nat} {p : Read DecodeError α}
    {spells : Bytes → α → Prop} (hp : Reads p spells) {bs : Bytes} {a : α}
    (h : sized type length p bs = .ok (a, [])) : bs.length = length ∧ spells bs a := by
  obtain ⟨found, mid, hfound, h⟩ := Read.bind_eq_ok h
  obtain ⟨rfl, rfl⟩ := Prod.mk.inj (Except.ok.inj hfound)
  dsimp only at h
  split at h
  · cases h
  · rename_i hlen
    obtain ⟨front, rfl, hfront⟩ := (hp _ _ _).mp h
    rw [List.append_nil] at hlen ⊢
    exact ⟨Decidable.not_not.mp hlen, hfront⟩

theorem present_eq_ok {e : DecodeError} {found : Option α} {bs left : Bytes} {a : α}
    (h : present e found bs = .ok (a, left)) : found = some a ∧ bs = left := by
  cases found with
  | none => cases h
  | some a' =>
    obtain ⟨rfl, rfl⟩ := Prod.mk.inj (Except.ok.inj h)
    exact ⟨rfl, rfl⟩

theorem wholeText_eq_ok {bs left : Bytes} {text : String} (h : wholeText bs = .ok (text, left)) :
    Utf8.decode? bs = some text ∧ left = [] := by
  obtain ⟨bytes, mid, hrest, h⟩ := Read.bind_eq_ok h
  obtain ⟨rfl, rfl⟩ := Prod.mk.inj (Except.ok.inj hrest)
  obtain ⟨hdecode, rfl⟩ := present_eq_ok h
  exact ⟨hdecode, rfl⟩

/-- A count that is read is spelled by all of the bytes, and gives what is counted. -/
theorem spells_of_count {type : ScalarType} {length : Nat} {p : Read DecodeError α}
    {spells : Bytes → α → Prop} (hp : Reads p spells) {of? : α → Option β} {e : DecodeError}
    {f : β → Scalar} {bs : Bytes} {s : Scalar}
    (h : (do
      let n ← type.sized length p
      f <$> present e (of? n)) bs = .ok (s, [])) :
    bs.length = length ∧ ∃ n b, spells bs n ∧ of? n = some b ∧ s = f b := by
  obtain ⟨n, mid, hn, h⟩ := Read.bind_eq_ok h
  obtain ⟨b, hb, rfl⟩ := Read.map_eq_ok h
  obtain ⟨hof, rfl⟩ := present_eq_ok hb
  obtain ⟨hlen, hspells⟩ := spells_of_sized hp hn
  exact ⟨hlen, n, b, hspells, hof, rfl⟩

/-- Writing the scalar read from a canonical payload gives the payload. -/
theorem payload_read {type : ScalarType} {bs : Bytes} {s : Scalar}
    (h : type.read bs = .ok (s, [])) (hcanonical : type.Canonical bs) : s.payload = .ok bs := by
  cases type with
  | uuid =>
    obtain ⟨u, hu, rfl⟩ := Read.map_eq_ok h
    obtain ⟨-, rfl⟩ := spells_of_sized Read.reads_uuid hu
    rfl
  | str =>
    obtain ⟨text, htext, rfl⟩ := Read.map_eq_ok h
    obtain ⟨hdecode, -⟩ := wholeText_eq_ok htext
    rw [Scalar.payload, Utf8.decode?_eq_some_iff.mp hdecode]
  | bytes =>
    obtain ⟨content, hcontent, rfl⟩ := Read.map_eq_ok h
    obtain ⟨rfl, -⟩ := Prod.mk.inj (Except.ok.inj hcontent)
    rfl
  | int16 =>
    obtain ⟨n, hn, rfl⟩ := Read.map_eq_ok h
    obtain ⟨-, rfl⟩ := spells_of_sized Read.reads_int16 hn
    rfl
  | int32 =>
    obtain ⟨n, hn, rfl⟩ := Read.map_eq_ok h
    obtain ⟨-, rfl⟩ := spells_of_sized Read.reads_int32 hn
    rfl
  | int64 =>
    obtain ⟨n, hn, rfl⟩ := Read.map_eq_ok h
    obtain ⟨-, rfl⟩ := spells_of_sized Read.reads_int64 hn
    rfl
  | float32 =>
    obtain ⟨n, hn, rfl⟩ := Read.map_eq_ok h
    obtain ⟨-, rfl⟩ := spells_of_sized Read.reads_uint32 hn
    rfl
  | float64 =>
    obtain ⟨n, hn, rfl⟩ := Read.map_eq_ok h
    obtain ⟨-, rfl⟩ := spells_of_sized Read.reads_uint64 hn
    rfl
  | bool =>
    obtain ⟨b, hb, rfl⟩ := Read.map_eq_ok h
    obtain ⟨-, rfl⟩ := spells_of_sized Read.reads_uint8 hb
    rcases hcanonical b List.mem_cons_self with rfl | rfl <;> rfl
  | datetime | localDatetime =>
    obtain ⟨-, n, m, rfl, hm, rfl⟩ := spells_of_count Read.reads_int64 h
    rw [Scalar.payload, (Moment.ofMicros?_eq_some_iff.mp hm).2]
    rfl
  | localDate =>
    obtain ⟨-, n, d, rfl, hd, rfl⟩ := spells_of_count Read.reads_int32 h
    rw [Scalar.payload, Date.ofWireDays?_eq_some_iff.mp hd]
    rfl
  | localTime =>
    obtain ⟨-, n, t, rfl, ht, rfl⟩ := spells_of_count Read.reads_int64 h
    rw [Scalar.payload, (TimeOfDay.ofMicros?_eq_some_iff.mp ht).2]
    rfl
  | duration =>
    have hmicros := Read.reads_int64.bind fun micros =>
      (Read.reads_skip 8).bind fun _ => Reads.pure micros
    obtain ⟨-, n, d, ⟨n', head, _, rfl, rfl, -, reserved, _, rfl, hlen, rfl, rfl⟩, hd, rfl⟩ :=
      spells_of_count hmicros h
    -- what stands behind the count is reserved, and zero
    have hzero : reserved = List.replicate 8 0 := by
      refine List.eq_replicate_iff.mpr ⟨hlen, fun b hb => hcanonical b ?_⟩
      rw [List.append_nil, List.drop_left' (BigEndian.length_encode 8 _)]
      exact hb
    rw [Scalar.payload, (Duration.ofWireMicros?_eq_some_iff.mp hd).2, hzero, List.append_nil]
    rfl
  | json =>
    obtain ⟨format, mid, hformat, hrest⟩ := Read.bind_eq_ok h
    obtain ⟨_, rfl, rfl⟩ := (Read.reads_uint8 _ _ _).mp hformat
    dsimp only at hrest
    split at hrest
    · cases hrest
    · rename_i hone
      obtain ⟨text, left, htext, hjson⟩ := Read.bind_eq_ok hrest
      obtain ⟨j, hj, rfl⟩ := Read.map_eq_ok hjson
      obtain ⟨hdecode, rfl⟩ := wholeText_eq_ok htext
      obtain ⟨hparse, -⟩ := present_eq_ok hj
      have hprinted : text = j.compact := hcanonical text j hdecode hparse
      rw [Scalar.payload, ← hprinted, ← Utf8.decode?_eq_some_iff.mp hdecode,
        Decidable.not_not.mp hone]
      rfl

end ScalarType

end TypedWire
