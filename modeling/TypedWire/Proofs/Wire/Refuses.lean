import TypedWire.Proofs.Wire.Reads

/-!
# Where reads fail

A read of several steps fails in one of them: the steps before it have taken their bytes, and it is
told what it needs and what remains.

- `Read.Refuses p refuses`: `p` fails on exactly the bytes that are refused, and for that reason.
- `Read.Short needed bs e`: too few bytes remain, and `e` says so.
- `Read.refuses_block`, `Read.refuses_text`, `Read.refuses_message`: the reads of several steps.
-/

namespace TypedWire.Read

variable {ε α β : Type}

/-- `p` fails on exactly the bytes that are refused, and for that reason. -/
def Refuses (p : Read ε α) (refuses : Bytes → ε → Prop) : Prop :=
  ∀ bs e, p bs = .error e ↔ refuses bs e

namespace Refuses

variable {refuses : Bytes → ε → Prop}

theorem congr {p : Read ε α} {refuses' : Bytes → ε → Prop} (h : Refuses p refuses)
    (hiff : ∀ bs e, refuses bs e ↔ refuses' bs e) : Refuses p refuses' :=
  fun bs e => (h bs e).trans (hiff bs e)

theorem pure (a : α) : Refuses (pure a : Read ε α) fun _ _ => False := by
  intro bs e
  exact ⟨nofun, nofun⟩

theorem throw (e : ε) : Refuses (throw e : Read ε α) fun _ e' => e' = e := by
  intro bs e'
  constructor
  · intro h
    exact (Except.error.inj h).symm
  · rintro rfl
    rfl

/-- What would follow a failure does not count. -/
theorem throw_bind (e : ε) (f : α → Read ε β) :
    Refuses (MonadExcept.throw e >>= f) fun _ e' => e' = e :=
  Refuses.throw e

/-- A sequence of two reads fails in the first, or in the second behind what the first takes. -/
theorem bind {p : Read ε α} {f : α → Read ε β} {spells : Bytes → α → Prop}
    {refuses' : α → Bytes → ε → Prop} (hreads : Reads p spells) (hp : Refuses p refuses)
    (hf : ∀ a, Refuses (f a) (refuses' a)) :
    Refuses (p >>= f) fun bs e =>
      refuses bs e ∨ ∃ a front rest, bs = front ++ rest ∧ spells front a ∧ refuses' a rest e := by
  intro bs e
  constructor
  · intro h
    rcases bind_eq_error h with hfirst | ⟨a, rest, ha, hrest⟩
    · exact .inl ((hp bs e).mp hfirst)
    · obtain ⟨front, hbs, hspells⟩ := (hreads _ _ _).mp ha
      exact .inr ⟨a, front, rest, hbs, hspells, (hf a rest e).mp hrest⟩
  · rintro (hfirst | ⟨a, front, rest, rfl, hspells, hrest⟩)
    · exact bind_of_error ((hp bs e).mpr hfirst)
    · rw [bind_of_ok (hreads.takes hspells rest)]
      exact (hf a rest e).mpr hrest

theorem map {p : Read ε α} (f : α → β) (hp : Refuses p refuses) : Refuses (f <$> p) refuses := by
  intro bs e
  rw [← hp]
  cases h : p bs with
  | ok r => simp [map_of_ok f h]
  | error e' => simp [map_of_error f h]

end Refuses

/-- Fewer bytes remain than are needed, and the failure says so. -/
def Short (needed : Nat) (bs : Bytes) (e : DecodeError) : Prop :=
  bs.length < needed ∧ e = .overread needed bs.length

theorem refuses_take (n : Nat) : Refuses (take n) (Short n) := by
  intro bs e
  rw [take, Short]
  by_cases h : n ≤ bs.length
  · rw [if_pos h]
    constructor
    · intro hok
      cases hok
    · intro hshort
      exact absurd hshort.1 (Nat.not_lt.mpr h)
  · rw [if_neg h]
    constructor
    · intro he
      exact ⟨Nat.not_le.mp h, (Except.error.inj he).symm⟩
    · intro hshort
      rw [hshort.2]

theorem refuses_skip (n : Nat) : Refuses (skip n) (Short n) := (refuses_take n).map fun _ => ()

theorem refuses_word (width : Nat) : Refuses (word width) (Short width) := (refuses_take width).map _

theorem refuses_uint8 : Refuses uint8 (Short 1) := (refuses_word 1).map _

theorem refuses_uint16 : Refuses uint16 (Short 2) := (refuses_word 2).map _

theorem refuses_uint32 : Refuses uint32 (Short 4) := (refuses_word 4).map _

theorem refuses_uint64 : Refuses uint64 (Short 8) := (refuses_word 8).map _

theorem refuses_uuid : Refuses uuid (Short 16) := (refuses_take 16).map _

theorem refuses_peekUInt32 : Refuses peekUInt32 (Short 4) := by
  intro bs e
  rw [← refuses_uint32, peekUInt32]
  cases uint32 bs <;> simp

theorem refuses_finish :
    Refuses finish fun bs e => bs ≠ [] ∧ e = .trailingBytes bs.length := by
  intro bs e
  cases bs with
  | nil => exact ⟨nofun, fun h => absurd rfl h.1⟩
  | cons b bs =>
    constructor
    · intro h
      exact ⟨nofun, (Except.error.inj h).symm⟩
    · rintro ⟨-, rfl⟩
      rfl

/-- A block fails for want of a length, or of the bytes that the length announces. -/
theorem refuses_block : Refuses block fun bs e => Short 4 bs e ∨
    ∃ (n : UInt32) (rest : Bytes), bs = BigEndian.encode 4 n.toNat ++ rest ∧
      Short n.toNat rest e := by
  refine (Refuses.bind reads_uint32 refuses_uint32 fun n => refuses_take n.toNat).congr
    fun bs e => or_congr_right ?_
  constructor
  · rintro ⟨n, _, rest, rfl, rfl, hshort⟩
    exact ⟨n, rest, rfl, hshort⟩
  · rintro ⟨n, rest, rfl, hshort⟩
    exact ⟨n, _, rest, rfl, rfl, hshort⟩

/-- A text fails as a block, or its bytes are none. -/
theorem refuses_text : Refuses text fun bs e =>
    (Short 4 bs e ∨ ∃ (n : UInt32) (rest : Bytes), bs = BigEndian.encode 4 n.toNat ++ rest ∧
      Short n.toNat rest e) ∨
    ∃ bytes left, bs = spellBlock bytes ++ left ∧ bytes.length < UInt32.size ∧
      Utf8.decode? bytes = none ∧ e = .invalidUtf8 := by
  refine (Refuses.bind reads_block refuses_block fun bytes =>
    (?_ : Refuses _ fun _ e => Utf8.decode? bytes = none ∧ e = .invalidUtf8)).congr
      fun bs e => or_congr_right ?_
  · cases hdecode : Utf8.decode? bytes with
    | some s => exact (Refuses.pure s).congr fun _ _ => ⟨False.elim, fun h => nomatch h.1⟩
    | none => exact (Refuses.throw _).congr fun _ _ => ⟨fun h => ⟨rfl, h⟩, And.right⟩
  · constructor
    · rintro ⟨bytes, _, left, rfl, ⟨rfl, hlt⟩, hdecode, he⟩
      exact ⟨bytes, left, rfl, hlt, hdecode, he⟩
    · rintro ⟨bytes, left, rfl, hlt, hdecode, he⟩
      exact ⟨bytes, _, left, rfl, ⟨rfl, hlt⟩, hdecode, he⟩

/-- A message fails for want of a tag, of a length or of a body, or its length does not count its own
bytes. -/
theorem refuses_message : Refuses message fun bs e => Short 1 bs e ∨
    ∃ (tag : UInt8) (rest : Bytes), bs = tag :: rest ∧ (Short 4 rest e ∨
      ∃ (n : UInt32) (body : Bytes), rest = BigEndian.encode 4 n.toNat ++ body ∧
        (n.toNat < messageHeader ∧ e = .invalidLength "message length" messageHeader n.toNat ∨
          messageHeader ≤ n.toNat ∧ Short (n.toNat - messageHeader) body e)) := by
  refine (Refuses.bind reads_uint8 refuses_uint8 fun tag =>
    Refuses.bind reads_uint32 refuses_uint32 fun n => (?_ : Refuses _ fun body e =>
      n.toNat < messageHeader ∧ e = .invalidLength "message length" messageHeader n.toNat ∨
        messageHeader ≤ n.toNat ∧ Short (n.toNat - messageHeader) body e)).congr
    fun bs e => or_congr_right ?_
  · by_cases hn : n.toNat < messageHeader
    · rw [if_pos hn]
      refine (Refuses.throw_bind _ _).congr fun body e => ?_
      exact ⟨fun h => .inl ⟨hn, h⟩, fun h => h.elim And.right fun h => absurd hn (Nat.not_lt.mpr h.1)⟩
    · rw [if_neg hn]
      refine ((refuses_take _).map fun body => (tag, body)).congr fun body e => ?_
      exact ⟨fun h => .inr ⟨Nat.not_lt.mp hn, h⟩, fun h => h.elim (fun h => absurd h.1 hn) And.right⟩
  · constructor
    · rintro ⟨tag, _, rest, rfl, rfl, h | ⟨n, _, body, rfl, rfl, h⟩⟩
      · exact ⟨tag, rest, rfl, .inl h⟩
      · exact ⟨tag, _, rfl, .inr ⟨n, body, rfl, h⟩⟩
    · rintro ⟨tag, rest, rfl, h | ⟨n, body, rfl, h⟩⟩
      · exact ⟨tag, [tag], rest, rfl, rfl, .inl h⟩
      · exact ⟨tag, [tag], _, rfl, rfl, .inr ⟨n, _, body, rfl, rfl, h⟩⟩

end TypedWire.Read
