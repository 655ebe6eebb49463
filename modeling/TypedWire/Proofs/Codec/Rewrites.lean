import Mathlib.Data.List.Forall2
import TypedWire.Proofs.Codec.Canonical

/-!
# Writing what was read from canonical payloads

The rules for the parts of a value say how a read runs on a payload that is put together from those
of the parts, and that writing what it gave puts the payload together again.

- `Rewrites p payload bs`: writing what `p` reads from all of `bs` gives `bs`.
- `Element.read_spellBlock`, `times_blocks`: reads of elements run on their payloads.
- `rewrites_array`, `rewrites_range`, `rewrites_multirange`, `Codec.rewrites_tuple`: the rules.
-/

namespace TypedWire

open Read (Reads spellBlock)

variable {α β : Type}

/-- Writing what `p` reads from all of some bytes gives the bytes, and it is no absent value. -/
def Rewrites (p : Read DecodeError Value) (payload : Value → Except EncodeError Bytes)
    (bs : Bytes) : Prop :=
  ∀ v, p bs = .ok (v, []) → v.isNull = false ∧ payload v = .ok bs

/-! ## Elements -/

namespace Element

/-- On the block of a payload, the read of an element runs on the payload. -/
theorem read_spellBlock {p : Read DecodeError α} {inner rest left : Bytes} {found : Option α}
    (hshort : inner.length < absent.toNat)
    (h : read p (spellBlock inner ++ rest) = .ok (found, left)) :
    ∃ a, found = some a ∧ p inner = .ok (a, []) ∧ left = rest := by
  rw [read_present hshort] at h
  obtain ⟨⟨a, mid⟩, hinner, heq⟩ := outcome_map_eq_ok.mp h
  obtain ⟨rfl, rfl⟩ := Prod.mk.inj heq
  exact ⟨a, rfl, Read.toEnd_eq_ok hinner, rfl⟩

theorem required_spellBlock {what : String} {p : Read DecodeError α} {inner rest left : Bytes}
    {a : α} (hshort : inner.length < absent.toNat)
    (h : required what p (spellBlock inner ++ rest) = .ok (a, left)) :
    p inner = .ok (a, []) ∧ left = rest := by
  obtain ⟨found, mid, hread, hfound⟩ := Read.bind_eq_ok h
  obtain ⟨a', rfl, hinner, rfl⟩ := read_spellBlock hshort hread
  obtain ⟨rfl, rfl⟩ := Prod.mk.inj (Except.ok.inj hfound)
  exact ⟨hinner, rfl⟩

/-- No element is read from nothing. -/
theorem required_nil {what : String} {p : Read DecodeError α} {a : α} {left : Bytes} :
    required what p [] ≠ .ok (a, left) := by
  intro h
  cases h

theorem frame_ok {inner : Bytes} (hshort : inner.length < absent.toNat) :
    frame (.ok inner) = .ok (spellBlock inner) := by
  have hsize := size_absent
  have hn : (UInt32.ofNat inner.length).toNat = inner.length :=
    UInt32.toNat_ofNat_of_lt' (by omega)
  unfold frame lengthPrefix
  rw [outcome_bind_ok, if_pos (by omega), outcome_bind_ok, hn]
  rfl

theorem spellRequired_ok {what : String} {payload : Value → Except EncodeError Bytes} {v : Value}
    {inner : Bytes} (hshort : inner.length < absent.toNat) (hnull : v.isNull = false)
    (h : payload v = .ok inner) : spellRequired what payload v = .ok (spellBlock inner) := by
  rw [spellRequired, hnull, if_neg Bool.false_ne_true, h, frame_ok hshort]

end Element

/-- What stands side by side stands in the lists. -/
theorem forall₂_and_mem {R : α → β → Prop} {l : List α} {l' : List β} (h : List.Forall₂ R l l') :
    List.Forall₂ (fun a b => a ∈ l ∧ R a b) l l' :=
  (List.forall₂_and_left _ _).mpr ⟨fun _ ha => ha, h⟩

/-- Reading elements from the blocks of some payloads reads each payload. -/
theorem times_blocks {what : String} {p : Read DecodeError α} {payloads : List Bytes}
    (hshort : ∀ bs ∈ payloads, bs.length < Element.absent.toNat) {n : Nat} {items : List α}
    (h : Read.times n (Element.required what p) (payloads.flatMap spellBlock) = .ok (items, [])) :
    List.Forall₂ (fun bs a => p bs = .ok (a, [])) payloads items ∧ items.length = n := by
  induction payloads generalizing n items with
  | nil =>
    cases n with
    | zero =>
      obtain ⟨rfl, -⟩ := Prod.mk.inj (Except.ok.inj h)
      exact ⟨.nil, rfl⟩
    | succ n =>
      obtain ⟨a, mid, ha, -⟩ := Read.bind_eq_ok h
      exact (Element.required_nil ha).elim
  | cons bs payloads ih =>
    rw [List.flatMap_cons] at h
    cases n with
    | zero =>
      obtain ⟨-, hnil⟩ := Prod.mk.inj (Except.ok.inj h)
      have hlen := congrArg List.length hnil
      rw [List.length_append, Element.length_spellBlock, List.length_nil] at hlen
      omega
    | succ n =>
      obtain ⟨a, mid, ha, h⟩ := Read.bind_eq_ok h
      obtain ⟨as, mid', has, h⟩ := Read.bind_eq_ok h
      obtain ⟨rfl, rfl⟩ := Prod.mk.inj (Except.ok.inj h)
      obtain ⟨hread, rfl⟩ := Element.required_spellBlock (hshort bs List.mem_cons_self) ha
      obtain ⟨hrest, rfl⟩ := ih (fun bs hbs => hshort bs (List.mem_cons_of_mem _ hbs)) has
      exact ⟨.cons hread hrest, rfl⟩

/-- Writing some things, each with its own block, writes the blocks. -/
theorem spellEach_blocks {spell : α → Except EncodeError Bytes} {block : β → Bytes} {items : List α}
    {parts : List β} (h : List.Forall₂ (fun b a => spell a = .ok (block b)) parts items) :
    spellEach spell items = .ok (parts.flatMap block) := by
  induction h with
  | nil => rfl
  | @cons b a parts items hba _ ih =>
    rw [spellEach, hba, outcome_bind_ok, ih, List.flatMap_cons]
    rfl

/-! ## Arrays and ranges -/

section

variable {p : Read DecodeError Value} {payload : Value → Except EncodeError Bytes}

theorem rewrites_array {upper : Int32} {payloads : List Bytes} {items : List Value}
    (hshort : ∀ bs ∈ payloads, bs.length < Element.absent.toNat)
    (h : ∀ bs ∈ payloads, Rewrites p payload bs)
    (hrun : arrayItems p (arrayHeader upper ++ payloads.flatMap spellBlock) = .ok (items, [])) :
    arrayPayload payload items = .ok (arrayHeader upper ++ payloads.flatMap spellBlock) := by
  rw [arrayItems_header] at hrun
  split at hrun
  · cases hrun
  · rename_i hnonneg
    obtain ⟨hitems, hlen⟩ := times_blocks hshort hrun
    have hupper : int32? items.length = some upper := by
      rw [int32?_eq_some_iff]
      omega
    have heach : List.Forall₂ (fun bs v =>
        Element.spellRequired "array element" payload v = .ok (spellBlock bs)) payloads items := by
      refine (forall₂_and_mem hitems).imp fun bs v hbs => ?_
      obtain ⟨hnull, hv⟩ := h bs hbs.1 v hbs.2
      exact Element.spellRequired_ok (hshort bs hbs.1) hnull hv
    rw [arrayPayload, hupper]
    dsimp only
    rw [spellEach_blocks heach]
    rfl

/-- The flags of a canonical range that is not empty are those written for the range. -/
theorem flags_of_used : ∀ {flags : UInt8}, flags &&& ~~~0x1f = 0 →
    hasFlag flags RangeFlags.empty = false →
      flagIf (hasFlag flags RangeFlags.lowerInclusive) RangeFlags.lowerInclusive |||
        flagIf (hasFlag flags RangeFlags.upperInclusive) RangeFlags.upperInclusive |||
        flagIf (hasFlag flags RangeFlags.lowerInfinite) RangeFlags.lowerInfinite |||
        flagIf (hasFlag flags RangeFlags.upperInfinite) RangeFlags.upperInfinite = flags := by
  have hall : ∀ n : Fin 256, UInt8.ofNat n &&& ~~~0x1f = 0 →
      hasFlag (UInt8.ofNat n) RangeFlags.empty = false →
        flagIf (hasFlag (UInt8.ofNat n) RangeFlags.lowerInclusive) RangeFlags.lowerInclusive |||
          flagIf (hasFlag (UInt8.ofNat n) RangeFlags.upperInclusive) RangeFlags.upperInclusive |||
          flagIf (hasFlag (UInt8.ofNat n) RangeFlags.lowerInfinite) RangeFlags.lowerInfinite |||
          flagIf (hasFlag (UInt8.ofNat n) RangeFlags.upperInfinite) RangeFlags.upperInfinite =
            UInt8.ofNat n := by
    decide +kernel
  intro flags
  have h := hall ⟨flags.toNat, flags.toNat_lt⟩
  rwa [UInt8.ofNat_toNat] at h

/-- A bound that the flags promise is read from its block. -/
theorem rangeBound_block {what : String} {isThere : Bool} {bytes : Option Bytes}
    {rest left : Bytes} {bound : Option α} {p : Read DecodeError α}
    (hthere : bytes.isSome = isThere)
    (hshort : ∀ bs ∈ bytes.toList, bs.length < Element.absent.toNat)
    (h : rangeBound what isThere p (bytes.toList.flatMap spellBlock ++ rest) = .ok (bound, left)) :
    Option.Rel (fun bs a => p bs = .ok (a, [])) bytes bound ∧ left = rest := by
  subst hthere
  unfold rangeBound at h
  cases bytes with
  | none =>
    obtain ⟨rfl, rfl⟩ := Prod.mk.inj (Except.ok.inj h)
    exact ⟨.none, rfl⟩
  | some bs =>
    obtain ⟨a, ha, rfl⟩ := Read.map_eq_ok h
    rw [Option.toList_some, List.flatMap_singleton] at ha
    obtain ⟨hread, rfl⟩ := Element.required_spellBlock (hshort bs List.mem_cons_self) ha
    exact ⟨.some hread, rfl⟩

/-- The block of a bound is written for what was read from it. -/
theorem spellBound_block (what : String) {bytes : Option Bytes} {bound : Option Value}
    (hread : Option.Rel (fun bs a => p bs = .ok (a, [])) bytes bound)
    (hshort : ∀ bs ∈ bytes.toList, bs.length < Element.absent.toNat)
    (h : ∀ bs ∈ bytes.toList, Rewrites p payload bs) :
    spellBound what payload bound = .ok (bytes.toList.flatMap spellBlock) := by
  cases hread with
  | none => rfl
  | @some bs v hv =>
    obtain ⟨hnull, hpayload⟩ := h bs List.mem_cons_self v hv
    rw [spellBound, Option.toList_some, List.flatMap_singleton]
    exact Element.spellRequired_ok (hshort bs List.mem_cons_self) hnull hpayload

/-- A bound is missing exactly if its bytes are. -/
theorem isNone_of_rel {R : α → β → Prop} {a : Option α} {b : Option β} (h : Option.Rel R a b) :
    b.isNone = !a.isSome := by
  cases h <;> rfl

theorem rewrites_range {id : Uuid} {element : Codec} {bs : Bytes} {r : Range Value}
    (hcanonical : Codec.Canonical (.range id element) bs)
    (h : ∀ bs, element.Canonical bs → Rewrites p payload bs)
    (hrun : rangeOf p bs = .ok (r, [])) : rangePayload payload r = .ok bs := by
  cases hcanonical with
  | @range _ _ flags lower upper used plain hasLower hasUpper short parts =>
    obtain ⟨flags', mid, hflags, hrun⟩ := Read.bind_eq_ok hrun
    obtain ⟨_, hfront, rfl⟩ := (Read.reads_uint8 _ _ _).mp hflags
    obtain ⟨rfl, rfl⟩ := List.cons.inj hfront
    rw [List.flatMap_append] at hrun ⊢
    obtain ⟨lo, mid, hlo, hrun⟩ := Read.bind_eq_ok hrun
    obtain ⟨hi, mid', hhi, hrun⟩ := Read.bind_eq_ok hrun
    obtain ⟨rfl, rfl⟩ := Prod.mk.inj (Except.ok.inj hrun)
    obtain ⟨hlowerShort, hupperShort⟩ := List.forall_mem_append.mp short
    obtain ⟨hlowerPart, hupperPart⟩ := List.forall_mem_append.mp parts
    obtain ⟨hreadLower, rfl⟩ := rangeBound_block hasLower hlowerShort hlo
    rw [← List.append_nil (upper.toList.flatMap spellBlock)] at hhi
    obtain ⟨hreadUpper, -⟩ := rangeBound_block hasUpper hupperShort hhi
    unfold rangePayload
    dsimp only
    cases hempty : hasFlag flags RangeFlags.empty with
    | true =>
      -- an empty range has no bounds and no other flag
      have hlower : lower = none := by simpa [hempty] using hasLower
      have hupper : upper = none := by simpa [hempty] using hasUpper
      rw [if_pos rfl, plain hempty, hlower, hupper]
      rfl
    | false =>
      have hlowerBlock := spellBound_block "range lower bound" hreadLower hlowerShort
        fun bs hbs => h bs (hlowerPart bs hbs)
      have hupperBlock := spellBound_block "range upper bound" hreadUpper hupperShort
        fun bs hbs => h bs (hupperPart bs hbs)
      have hlowerInfinite : lo.isNone = hasFlag flags RangeFlags.lowerInfinite := by
        rw [isNone_of_rel hreadLower, hasLower, hempty, Bool.not_false, Bool.true_and, Bool.not_not]
      have hupperInfinite : hi.isNone = hasFlag flags RangeFlags.upperInfinite := by
        rw [isNone_of_rel hreadUpper, hasUpper, hempty, Bool.not_false, Bool.true_and, Bool.not_not]
      rw [if_neg Bool.false_ne_true, hlowerBlock, outcome_bind_ok, hupperBlock, outcome_bind_ok]
      unfold rangeFlags
      dsimp only
      rw [hlowerInfinite, hupperInfinite, flags_of_used used hempty]
      rfl

theorem rewrites_multirange {id : Uuid} {element : Codec} {count : UInt32} {payloads : List Bytes}
    {ranges : List (Range Value)}
    (hshort : ∀ bs ∈ payloads, bs.length < Element.absent.toNat)
    (hcanonical : ∀ bs ∈ payloads, Codec.Canonical (.range id element) bs)
    (h : ∀ bs, element.Canonical bs → Rewrites p payload bs)
    (hrun : multirangeOf p (BigEndian.encode 4 count.toNat ++ payloads.flatMap spellBlock) =
      .ok (ranges, [])) :
    multirangePayload payload ranges =
      .ok (BigEndian.encode 4 count.toNat ++ payloads.flatMap spellBlock) := by
  have hbody : Read.times count.toNat (Element.required "range" (rangeOf p))
      (payloads.flatMap spellBlock) = .ok (ranges, []) :=
    (Read.bind_of_ok (Read.takes_uint32 count _)).symm.trans hrun
  obtain ⟨hranges, hlen⟩ := times_blocks hshort hbody
  have heach : List.Forall₂ (fun bs r =>
      Element.frame (rangePayload payload r) = .ok (spellBlock bs)) payloads ranges := by
    refine (forall₂_and_mem hranges).imp fun bs r hbs => ?_
    rw [rewrites_range (hcanonical bs hbs.1) h hbs.2, Element.frame_ok (hshort bs hbs.1)]
  unfold multirangePayload
  rw [spellEach_blocks heach, outcome_bind_ok, countBytes, hlen, UInt32.ofNat_toNat]
  rfl

end

/-! ## Tuples -/

namespace Codec

/-- A count that has to be the given one is spelled as it is. -/
theorem expectCount_eq_ok {n : Nat} {count : UInt32} {rest left : Bytes}
    (h : expectCount n (BigEndian.encode 4 count.toNat ++ rest) = .ok ((), left)) :
    BigEndian.encode 4 count.toNat = countBytes n ∧ left = rest := by
  obtain ⟨front, hsplit, -, rfl⟩ := (reads_expectCount n _ _ _).mp h
  have hlen : (BigEndian.encode 4 count.toNat).length = (countBytes n).length := by
    rw [BigEndian.length_encode, length_countBytes]
  obtain ⟨hcount, hrest⟩ := List.append_inj hsplit hlen
  exact ⟨hcount, hrest.symm⟩

/-- Passing over four bytes that are zero. -/
theorem skip_zeros {f : Unit → Read DecodeError α} (rest : Bytes) :
    (Read.skip 4 >>= f) (List.replicate 4 0 ++ rest) = f () rest :=
  Read.bind_of_ok (Read.takes_skip (List.replicate 4 0) rest)

theorem decodeItems_blocks {parts : List (Codec × Bytes)}
    (hshort : ∀ part ∈ parts, part.2.length < Element.absent.toNat) {items : List Value}
    (h : decodeItems (parts.map Prod.fst)
      (parts.flatMap fun part => List.replicate 4 0 ++ spellBlock part.2) = .ok (items, [])) :
    List.Forall₂ (fun part v => part.1.decode part.2 = .ok (v, [])) parts items := by
  induction parts generalizing items with
  | nil =>
    rw [List.map_nil, decodeItems] at h
    obtain ⟨rfl, -⟩ := Prod.mk.inj (Except.ok.inj h)
    exact .nil
  | cons part parts ih =>
    rw [List.map_cons, decodeItems, List.flatMap_cons, List.append_assoc, skip_zeros] at h
    obtain ⟨item, mid, hitem, h⟩ := Read.bind_eq_ok h
    obtain ⟨items', mid', hitems, h⟩ := Read.bind_eq_ok h
    obtain ⟨rfl, rfl⟩ := Prod.mk.inj (Except.ok.inj h)
    obtain ⟨hread, rfl⟩ := Element.required_spellBlock (hshort part List.mem_cons_self) hitem
    exact .cons hread (ih (fun part hpart => hshort part (List.mem_cons_of_mem _ hpart)) hitems)

theorem itemsPayload_blocks {parts : List (Codec × Bytes)} {items : List Value}
    (h : List.Forall₂ (fun part v => part.2.length < Element.absent.toNat ∧ v.isNull = false ∧
      part.1.payload v = .ok part.2) parts items) :
    itemsPayload (parts.map Prod.fst) items =
      .ok (parts.flatMap fun part => List.replicate 4 0 ++ spellBlock part.2) := by
  induction h with
  | nil => rfl
  | @cons part v parts items hpart _ ih =>
    obtain ⟨hshort, hnull, hv⟩ := hpart
    rw [List.map_cons, itemsPayload, Element.spellRequired_ok hshort hnull hv, outcome_bind_ok, ih,
      outcome_bind_ok, List.flatMap_cons]
    rfl

theorem rewrites_tuple {id : Uuid} {elements : List Codec} {bs : Bytes}
    (hcanonical : Canonical (.tuple id elements) bs)
    (h : ∀ codec ∈ elements, ∀ bs, codec.Canonical bs → Rewrites codec.decode codec.payload bs) :
    Rewrites (Codec.tuple id elements).decode (Codec.tuple id elements).payload bs := by
  intro v hrun
  cases hcanonical with
  | @tuple _ _ count parts codecs short parts' =>
    subst codecs
    rw [decode] at hrun
    obtain ⟨_, mid, hexpect, hrun⟩ := Read.bind_eq_ok hrun
    obtain ⟨hcount, rfl⟩ := expectCount_eq_ok hexpect
    obtain ⟨items, hitems, rfl⟩ := Read.map_eq_ok hrun
    have hread := decodeItems_blocks short hitems
    have hlen := hread.length_eq
    have hwrite : List.Forall₂ (fun part v => part.2.length < Element.absent.toNat ∧
        v.isNull = false ∧ part.1.payload v = .ok part.2) parts items := by
      refine (forall₂_and_mem hread).imp fun part v hpart => ⟨short part hpart.1, ?_⟩
      exact h part.1 (List.mem_map_of_mem hpart.1) part.2 (parts' part hpart.1) v hpart.2
    refine ⟨rfl, ?_⟩
    rw [payload, if_pos (by rw [List.length_map, hlen]), itemsPayload_blocks hwrite,
      outcome_bind_ok, hcount, List.length_map, hlen]
    rfl

end Codec

end TypedWire
