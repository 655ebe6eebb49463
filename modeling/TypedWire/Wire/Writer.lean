import TypedWire.Uuid
import TypedWire.Wire.Error

/-!
# Writing to the end of a byte string

A writer appends. A region whose length is not known yet starts with four placeholder bytes that are
overwritten when the region is closed; regions nest, and only the innermost open one can be closed.

- `Region`: an open region, by the position of its placeholder.
- `Writer`: the bytes written so far and the open regions, innermost first.
- `Writer.raw`, `Writer.word`, `Writer.block`: bytes, big-endian numbers, length-prefixed bytes.
- `Writer.beginBytes`, `Writer.endBytes`, `Writer.beginMessage`, `Writer.endMessage`: regions.
- `Writer.intoBytes`: the bytes, once no region is open.
-/

namespace TypedWire

/-- An open region, by the position of the four bytes that wait for its length. -/
inductive Region where
  /-- The length counts what follows the placeholder. -/
  | bytes (start : Nat)
  /-- The length counts the placeholder too. -/
  | message (start : Nat)
  deriving DecidableEq

/-- The bytes written so far and the regions still open, innermost first. -/
structure Writer where
  buffer : Bytes
  pending : List Region

/-- A length as the number of its four-byte prefix. -/
def lengthPrefix (length : Nat) : Except EncodeError UInt32 :=
  if length < UInt32.size then .ok (UInt32.ofNat length) else .error (.tooLong length)

namespace Writer

/-- A writer that has written nothing. -/
def empty : Writer := ⟨[], []⟩

/-- Appends bytes as they are. -/
def raw (bytes : Bytes) (w : Writer) : Writer :=
  { w with buffer := w.buffer ++ bytes }

/-- Appends a number as `width` bytes. -/
def word (width n : Nat) (w : Writer) : Writer :=
  w.raw (BigEndian.encode width n)

def uint8 (n : UInt8) (w : Writer) : Writer := w.word 1 n.toNat

def uint16 (n : UInt16) (w : Writer) : Writer := w.word 2 n.toNat

def uint32 (n : UInt32) (w : Writer) : Writer := w.word 4 n.toNat

def uint64 (n : UInt64) (w : Writer) : Writer := w.word 8 n.toNat

def int16 (n : Int16) (w : Writer) : Writer := w.uint16 n.toUInt16

def int32 (n : Int32) (w : Writer) : Writer := w.uint32 n.toUInt32

def int64 (n : Int64) (w : Writer) : Writer := w.uint64 n.toUInt64

def uuid (u : Uuid) (w : Writer) : Writer := w.raw u.toBytes

/-- Appends a length of four bytes and then the bytes. -/
def block (bytes : Bytes) (w : Writer) : Except EncodeError Writer := do
  let length ← lengthPrefix bytes.length
  return (w.uint32 length).raw bytes

/-- Appends a text as a block. -/
def text (s : String) (w : Writer) : Except EncodeError Writer :=
  w.block (Utf8.encode s)

/-- Overwrites the four bytes at `start` with a length. -/
def patch (start length : Nat) (w : Writer) : Except EncodeError Writer := do
  let n ← lengthPrefix length
  return { w with
    buffer := w.buffer.take start ++ BigEndian.encode 4 n.toNat ++ w.buffer.drop (start + 4) }

/-- Opens a region whose length excludes its own four bytes. -/
def beginBytes (w : Writer) : Writer :=
  { w with pending := .bytes w.buffer.length :: w.pending }.uint32 0

/-- Closes the innermost region if it is one of bytes. -/
def endBytes (w : Writer) : Except EncodeError Writer :=
  match w.pending with
  | .bytes start :: pending => { w with pending }.patch start (w.buffer.length - start - 4)
  | _ => .error .unbalancedRegion

/-- Appends a tag and opens a region whose length includes its own four bytes. -/
def beginMessage (tag : UInt8) (w : Writer) : Writer :=
  let w := w.uint8 tag
  { w with pending := .message w.buffer.length :: w.pending }.uint32 0

/-- Closes the innermost region if it is a message. -/
def endMessage (w : Writer) : Except EncodeError Writer :=
  match w.pending with
  | .message start :: pending => { w with pending }.patch start (w.buffer.length - start)
  | _ => .error .unbalancedRegion

/-- What was written, once every region is closed. -/
def intoBytes (w : Writer) : Except EncodeError Bytes :=
  if w.pending.isEmpty then .ok w.buffer else .error .unbalancedRegion

end Writer

end TypedWire
