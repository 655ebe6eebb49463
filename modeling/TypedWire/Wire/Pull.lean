import TypedWire.Wire.Reader

/-!
# Readers that outlive failures

Whoever asks a reader for something may go on with it after a failure, so here an operation tells
which bytes it leaves unread in either case. An operation of one step looks at the count of unread
bytes before it takes any. One of several steps is carried out on a copy of the reader, and the copy
takes the reader's place when all steps have succeeded.

- `Pull α`: an operation on a reader that gives an `α`.
- `Pull.ensure`: fails if too few bytes are unread; `Pull.probe`: an operation on a copy.
- `Pull.take`, `Pull.word`, `Pull.block`, `Pull.text`, `Pull.message`: what the reads of these names
  do, as operations on a reader.
- `Pull.skip`, `Pull.peekUInt32`, `Pull.finish`: operations that give no item, or leave it unread.
- `Pull.rest`, `Pull.inside`, `Pull.times`: all unread bytes, a read of bytes that were taken off
  before, and an operation repeated.
-/

namespace TypedWire

/-- An operation on a reader, from the unread bytes to those that it leaves unread, whether it fails
or not. -/
abbrev Pull := ExceptT DecodeError (StateM Bytes)

namespace Pull

variable {α : Type}

/-- Fails if fewer bytes are unread than are needed. -/
def ensure (needed : Nat) : Pull Unit := do
  let unread : Bytes ← get
  if unread.length < needed then throw (.overread needed unread.length)

/-- Carries out an operation on a copy of the reader, which takes the reader's place if it
succeeds. -/
def probe (p : Pull α) : Pull α := do
  let unread : Bytes ← get
  match p.run unread with
  | (.ok a, left) =>
    set left
    return a
  | (.error e, _) => throw e

/-- The next `n` bytes. -/
def take (n : Nat) : Pull Bytes := do
  ensure n
  let unread : Bytes ← get
  set (unread.drop n)
  return unread.take n

/-- The count of unread bytes. -/
def remaining : Pull Nat := do
  let unread : Bytes ← get
  return unread.length

/-- All unread bytes. -/
def rest : Pull Bytes := do
  let unread : Bytes ← get
  set ([] : Bytes)
  return unread

/-- Passes over the next `n` bytes. -/
def skip (n : Nat) : Pull Unit := do
  ensure n
  modify fun unread : Bytes => unread.drop n

/-- The number spelled by the next `width` bytes. -/
def word (width : Nat) : Pull Nat := BigEndian.decode <$> take width

def uint8 : Pull UInt8 := UInt8.ofNat <$> word 1

def uint16 : Pull UInt16 := UInt16.ofNat <$> word 2

def uint32 : Pull UInt32 := UInt32.ofNat <$> word 4

def uint64 : Pull UInt64 := UInt64.ofNat <$> word 8

def int16 : Pull Int16 := UInt16.toInt16 <$> uint16

def int32 : Pull Int32 := UInt32.toInt32 <$> uint32

def int64 : Pull Int64 := UInt64.toInt64 <$> uint64

def uuid : Pull Uuid := Uuid.ofBytes <$> take 16

/-- A length of four bytes and then that many bytes. -/
def block : Pull Bytes := probe do
  let length ← uint32
  take length.toNat

/-- A block that holds a text. -/
def text : Pull String := probe do
  let bytes ← block
  match Utf8.decode? bytes with
  | some s => return s
  | none => throw .invalidUtf8

/-- The number in the next four bytes, which the copy takes and the reader keeps. -/
def peekUInt32 : Pull UInt32 := do
  let unread : Bytes ← get
  match uint32.run unread with
  | (.ok n, _) => return n
  | (.error e, _) => throw e

/-- Fails if bytes are unread. -/
def finish : Pull Unit := do
  let unread : Bytes ← get
  if !unread.isEmpty then throw (.trailingBytes unread.length)

/-- A tag, a length that counts itself and the body, and the body. -/
def message : Pull (UInt8 × Bytes) := probe do
  let tag ← uint8
  let length ← uint32
  if length.toNat < Read.messageHeader then
    throw (.invalidLength "message length" Read.messageHeader length.toNat)
  let body ← take (length.toNat - Read.messageHeader)
  return (tag, body)

/-- A read of some other bytes; the reader stays as it is. -/
def inside (bytes : Bytes) (p : Read DecodeError α) : Pull α :=
  match p bytes with
  | .ok (a, _) => return a
  | .error e => throw e

/-- The same operation `n` times. -/
def times : Nat → Pull α → Pull (List α)
  | 0, _ => return []
  | n + 1, p => do
    let a ← p
    let as ← times n p
    return a :: as

end Pull

end TypedWire
