import TypedWire.Uuid
import TypedWire.Wire.Error

/-!
# Reading from the front of a byte string

A reader is the list of bytes still unread. A read either takes its item's bytes from the front or
fails, and what a failed read leaves unread is not told here; an operation on a reader (`Pull`) tells
it.

- `Read ε α`: a read of an `α` that may fail with an `ε`.
- `Read.take`: the next bytes; `Read.word`: a big-endian number; the reads of fixed-width items.
- `Read.block`, `Read.text`, `Read.message`: length-prefixed bytes, such bytes as a text, and framed
  messages.
- `Read.inside`, `Read.toEnd`, `Read.times`: a read of other bytes, a read that has to use up its
  bytes, and a read repeated.
- `Read.TakesFront`: what a read leaves is an end piece of what it was given.
-/

namespace TypedWire

/-- A read of an `α` from the front of the unread bytes. -/
abbrev Read (ε : Type) := StateT Bytes (Except ε)

namespace Read

variable {ε δ α β : Type}

/-- The same read with its failures renamed. -/
def mapError (f : ε → δ) (p : Read ε α) : Read δ α := fun bs =>
  match p bs with
  | .ok r => .ok r
  | .error e => .error (f e)

/-- The count of unread bytes. -/
def remaining : Read ε Nat := fun bs => .ok (bs.length, bs)

/-- The next `n` bytes. -/
def take (n : Nat) : Read DecodeError Bytes := fun bs =>
  if n ≤ bs.length then .ok (bs.take n, bs.drop n) else .error (.overread n bs.length)

/-- All unread bytes. -/
def rest : Read ε Bytes := fun bs => .ok (bs, [])

/-- Passes over the next `n` bytes. -/
def skip (n : Nat) : Read DecodeError Unit := do
  let _ ← take n

/-- The number spelled by the next `width` bytes. -/
def word (width : Nat) : Read DecodeError Nat :=
  BigEndian.decode <$> take width

def uint8 : Read DecodeError UInt8 := UInt8.ofNat <$> word 1

def uint16 : Read DecodeError UInt16 := UInt16.ofNat <$> word 2

def uint32 : Read DecodeError UInt32 := UInt32.ofNat <$> word 4

def uint64 : Read DecodeError UInt64 := UInt64.ofNat <$> word 8

def int16 : Read DecodeError Int16 := UInt16.toInt16 <$> uint16

def int32 : Read DecodeError Int32 := UInt32.toInt32 <$> uint32

def int64 : Read DecodeError Int64 := UInt64.toInt64 <$> uint64

def uuid : Read DecodeError Uuid := Uuid.ofBytes <$> take 16

/-- A length of four bytes and then that many bytes. -/
def block : Read DecodeError Bytes := do
  let length ← uint32
  take length.toNat

/-- A block that holds a text. -/
def text : Read DecodeError String := do
  let bytes ← block
  match Utf8.decode? bytes with
  | some s => pure s
  | none => throw .invalidUtf8

/-- The number in the next four bytes, which stay unread. -/
def peekUInt32 : Read DecodeError UInt32 := fun bs =>
  match uint32 bs with
  | .ok (n, _) => .ok (n, bs)
  | .error e => .error e

/-- Succeeds at the end of the bytes only. -/
def finish : Read DecodeError Unit := fun bs =>
  if bs.isEmpty then .ok ((), bs) else .error (.trailingBytes bs.length)

/-- The least length that a message can announce: the length counts its own four bytes. -/
def messageHeader : Nat := 4

/-- A tag, a length that counts itself and the body, and the body. -/
def message : Read DecodeError (UInt8 × Bytes) := do
  let tag ← uint8
  let length ← uint32
  if length.toNat < messageHeader then
    throw (.invalidLength "message length" messageHeader length.toNat)
  let body ← take (length.toNat - messageHeader)
  return (tag, body)

/-- A read of some other bytes; the unread bytes stay as they are. -/
def inside (bytes : Bytes) (p : Read ε α) : Read ε α := fun bs =>
  match p bytes with
  | .ok (a, _) => .ok (a, bs)
  | .error e => .error e

/-- A read that has to use up the bytes. -/
def toEnd (p : Read DecodeError α) : Read DecodeError α := do
  let a ← p
  finish
  return a

/-- The same read `n` times. -/
def times : Nat → Read ε α → Read ε (List α)
  | 0, _ => pure []
  | n + 1, p => do
    let a ← p
    let as ← times n p
    return a :: as

/-- The same read `n` times, each time with what the time before gave. -/
def iterate : Nat → (α → Read ε α) → α → Read ε α
  | 0, _, a => pure a
  | n + 1, p, a => do iterate n p (← p a)

/-! ## Reads take from the front -/

/-- What a successful read leaves is an end piece of what it was given. -/
structure TakesFront (p : Read ε α) : Prop where
  suffix : ∀ {bs : Bytes} {a : α} {left : Bytes}, p bs = .ok (a, left) → left <:+ bs

/-- A sequence of two reads succeeds only through a success of each. -/
theorem bind_eq_ok {p : Read ε α} {f : α → Read ε β} {bs left : Bytes} {b : β}
    (h : (p >>= f) bs = .ok (b, left)) :
    ∃ a mid, p bs = .ok (a, mid) ∧ f a mid = .ok (b, left) := by
  have hrun : (p >>= f) bs = (p bs).bind fun r => f r.1 r.2 := rfl
  cases hp : p bs with
  | error e => rw [hrun, hp] at h; exact nomatch h
  | ok r => rw [hrun, hp] at h; exact ⟨r.1, r.2, rfl, h⟩

/-- A mapped read succeeds only through a success of the read. -/
theorem map_eq_ok {p : Read ε α} {f : α → β} {bs left : Bytes} {b : β}
    (h : (f <$> p) bs = .ok (b, left)) : ∃ a, p bs = .ok (a, left) ∧ f a = b := by
  have hrun : (f <$> p) bs = (p bs).bind fun r => .ok (f r.1, r.2) := rfl
  cases hp : p bs with
  | error e => rw [hrun, hp] at h; exact nomatch h
  | ok r =>
    rw [hrun, hp] at h
    obtain ⟨hb, hleft⟩ := Prod.mk.inj (Except.ok.inj h)
    exact ⟨r.1, hleft ▸ rfl, hb⟩

/-- Renaming failures keeps successes. -/
theorem mapError_eq_ok {p : Read ε α} {f : ε → δ} {bs left : Bytes} {a : α}
    (h : p.mapError f bs = .ok (a, left)) : p bs = .ok (a, left) := by
  unfold Read.mapError at h
  split at h
  · rename_i r hr
    obtain rfl := Except.ok.inj h
    exact hr
  · exact nomatch h

namespace TakesFront

theorem pure (a : α) : TakesFront (pure a : Read ε α) where
  suffix h := (Prod.mk.inj (Except.ok.inj h)).2 ▸ List.suffix_rfl

theorem throw (e : ε) : TakesFront (throw e : Read ε α) where
  suffix h := nomatch h

theorem bind {p : Read ε α} {f : α → Read ε β} (hp : TakesFront p)
    (hf : ∀ a, TakesFront (f a)) : TakesFront (p >>= f) where
  suffix h := by
    obtain ⟨a, mid, ha, hb⟩ := bind_eq_ok h
    exact ((hf a).suffix hb).trans (hp.suffix ha)

theorem map {p : Read ε α} (f : α → β) (hp : TakesFront p) : TakesFront (f <$> p) :=
  hp.bind fun a => pure (f a)

theorem mapError {p : Read ε α} (f : ε → δ) (hp : TakesFront p) :
    TakesFront (p.mapError f) where
  suffix h := hp.suffix (mapError_eq_ok h)

theorem inside (bytes : Bytes) (p : Read ε α) : TakesFront (inside bytes p) where
  suffix h := by
    unfold Read.inside at h
    split at h
    · exact (Prod.mk.inj (Except.ok.inj h)).2 ▸ List.suffix_rfl
    · exact nomatch h

theorem take (n : Nat) : TakesFront (take n) where
  suffix h := by
    unfold Read.take at h
    split at h
    · exact (Prod.mk.inj (Except.ok.inj h)).2 ▸ List.drop_suffix n _
    · exact nomatch h

theorem skip (n : Nat) : TakesFront (skip n) :=
  (take n).bind fun _ => pure ()

theorem word (width : Nat) : TakesFront (word width) := (take width).map _

theorem uint8 : TakesFront uint8 := (word 1).map _

theorem uint16 : TakesFront uint16 := (word 2).map _

theorem uint32 : TakesFront uint32 := (word 4).map _

theorem uuid : TakesFront uuid := (take 16).map _

theorem block : TakesFront block := uint32.bind fun n => take n.toNat

theorem text : TakesFront text := by
  refine block.bind fun bytes => ?_
  split
  · exact pure _
  · exact throw _

theorem times {p : Read ε α} (hp : TakesFront p) (n : Nat) : TakesFront (times n p) := by
  induction n with
  | zero => exact pure []
  | succ n ih => exact hp.bind fun a => ih.bind fun as => pure (a :: as)

end TakesFront

/-! ## What fixed-width reads take away -/

theorem length_take {n : Nat} {bs bytes left : Bytes} (h : take n bs = .ok (bytes, left)) :
    left.length + n = bs.length := by
  unfold Read.take at h
  split at h
  · obtain ⟨-, rfl⟩ := Prod.mk.inj (Except.ok.inj h)
    rw [List.length_drop]
    omega
  · exact nomatch h

theorem length_word {width n : Nat} {bs left : Bytes} (h : word width bs = .ok (n, left)) :
    left.length + width = bs.length := by
  obtain ⟨bytes, htake, -⟩ := map_eq_ok h
  exact length_take htake

theorem length_uint8 {bs left : Bytes} {b : UInt8} (h : uint8 bs = .ok (b, left)) :
    left.length + 1 = bs.length := by
  obtain ⟨n, hn, -⟩ := map_eq_ok h
  exact length_word hn

theorem length_uint32 {bs left : Bytes} {n : UInt32} (h : uint32 bs = .ok (n, left)) :
    left.length + 4 = bs.length := by
  obtain ⟨m, hm, -⟩ := map_eq_ok h
  exact length_word hm

end Read

end TypedWire
