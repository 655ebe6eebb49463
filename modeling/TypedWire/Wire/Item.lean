import TypedWire.Wire.Pull
import TypedWire.Wire.Writer

/-!
# Items and runs of wire operations

The items that the wire knows, and the operations on a reader and on a writer as data, so that a run
of them is a list.

- `Item`: a value of one of the wire's own types; floats are their bits.
- `Item.Kind`: what to read next; `Item.Kind.read` reads it, `Item.Kind.pull` from a reader that
  outlives a failure; `Item.write` writes an item.
- `Cursor.Step`: an operation on a reader; `Cursor.Step.run` carries it out.
- `Cursor`: nested readers, the innermost first; `Cursor.step` carries out one operation.
- `Writer.step`: carries out one operation on a writer; `Writer.perform` tells the writer after a
  failed one too, and `Writer.run` carries out operations whatever becomes of them.
-/

namespace TypedWire

/-- A value of one of the wire's own types. -/
inductive Item where
  | uint8 (n : UInt8)
  | uint16 (n : UInt16)
  | uint32 (n : UInt32)
  | uint64 (n : UInt64)
  | int16 (n : Int16)
  | int32 (n : Int32)
  | int64 (n : Int64)
  | float32 (bits : UInt32)
  | float64 (bits : UInt64)
  | uuid (u : Uuid)
  | raw (bytes : Bytes)
  | block (bytes : Bytes)
  | text (s : String)
  deriving DecidableEq

namespace Item

/-- What an item has to be for a read of it to make sense. -/
inductive Kind where
  | uint8
  | uint16
  | uint32
  | uint64
  | int16
  | int32
  | int64
  | float32
  | float64
  | uuid
  | raw (length : Nat)
  | block
  | text
  deriving DecidableEq

/-- Reads an item of the given kind. -/
def Kind.read : Kind → Read DecodeError Item
  | .uint8 => .uint8 <$> Read.uint8
  | .uint16 => .uint16 <$> Read.uint16
  | .uint32 => .uint32 <$> Read.uint32
  | .uint64 => .uint64 <$> Read.uint64
  | .int16 => .int16 <$> Read.int16
  | .int32 => .int32 <$> Read.int32
  | .int64 => .int64 <$> Read.int64
  | .float32 => .float32 <$> Read.uint32
  | .float64 => .float64 <$> Read.uint64
  | .uuid => .uuid <$> Read.uuid
  | .raw length => .raw <$> Read.take length
  | .block => .block <$> Read.block
  | .text => .text <$> Read.text

/-- Takes an item of the given kind from a reader. -/
def Kind.pull : Kind → Pull Item
  | .uint8 => .uint8 <$> Pull.uint8
  | .uint16 => .uint16 <$> Pull.uint16
  | .uint32 => .uint32 <$> Pull.uint32
  | .uint64 => .uint64 <$> Pull.uint64
  | .int16 => .int16 <$> Pull.int16
  | .int32 => .int32 <$> Pull.int32
  | .int64 => .int64 <$> Pull.int64
  | .float32 => .float32 <$> Pull.uint32
  | .float64 => .float64 <$> Pull.uint64
  | .uuid => .uuid <$> Pull.uuid
  | .raw length => .raw <$> Pull.take length
  | .block => .block <$> Pull.block
  | .text => .text <$> Pull.text

/-- Writes an item. -/
def write (w : Writer) : Item → Except EncodeError Writer
  | .uint8 n => .ok (w.uint8 n)
  | .uint16 n => .ok (w.uint16 n)
  | .uint32 n => .ok (w.uint32 n)
  | .uint64 n => .ok (w.uint64 n)
  | .int16 n => .ok (w.int16 n)
  | .int32 n => .ok (w.int32 n)
  | .int64 n => .ok (w.int64 n)
  | .float32 bits => .ok (w.uint32 bits)
  | .float64 bits => .ok (w.uint64 bits)
  | .uuid u => .ok (w.uuid u)
  | .raw bytes => .ok (w.raw bytes)
  | .block bytes => w.block bytes
  | .text s => w.text s

end Item

/-! ## Nested readers -/

/-- The innermost reader and the readers it was taken from. -/
structure Cursor where
  here : Bytes
  outer : List Bytes

namespace Cursor

/-- One operation on the innermost reader. -/
inductive Step where
  /-- Read an item. -/
  | item (kind : Item.Kind)
  /-- Look at four bytes without reading them. -/
  | peekUInt32
  /-- Pass over bytes. -/
  | skip (length : Nat)
  /-- Check that nothing is left. -/
  | finish
  /-- Read bytes and go on inside them. -/
  | slice (length : Nat)
  /-- Read a message and, if asked to, go on inside its body. -/
  | message (enter : Bool)
  /-- Go back to the reader that the innermost one was taken from. -/
  | leave

/-- What an operation gives. -/
inductive Reply where
  | nothing
  | item (item : Item)
  | message (tag : UInt8) (body : Bytes)

/-- What comes of an operation on a reader: what it gives, the bytes that it leaves unread, and those
of a reader that it opens. -/
structure Outcome where
  reply : Except DecodeError Reply
  left : Bytes
  opened : Option Bytes

/-- What comes of an operation, from what it gives and leaves. Only if it succeeds is a reader
opened. -/
def Outcome.of {α : Type} (reply : α → Reply) (opened : α → Option Bytes) :
    Except DecodeError α × Bytes → Outcome
  | (.ok a, left) => ⟨.ok (reply a), left, opened a⟩
  | (.error e, left) => ⟨.error e, left, none⟩

/-- Carries out one operation on a reader. Leaving a reader does nothing to it. -/
def Step.run (unread : Bytes) : Step → Outcome
  | .item kind => .of .item (fun _ => none) (kind.pull.run unread)
  | .peekUInt32 => .of (.item ∘ .uint32) (fun _ => none) (Pull.peekUInt32.run unread)
  | .skip length => .of (fun _ => .nothing) (fun _ => none) ((Pull.skip length).run unread)
  | .finish => .of (fun _ => .nothing) (fun _ => none) (Pull.finish.run unread)
  | .slice length => .of (fun _ => .nothing) some ((Pull.take length).run unread)
  | .message inside => .of (fun m => .message m.1 m.2) (fun m => if inside then some m.2 else none)
      (Pull.message.run unread)
  | .leave => ⟨.ok .nothing, unread, none⟩

/-- A reader over some bytes. -/
def start (bytes : Bytes) : Cursor := ⟨bytes, []⟩

/-- Goes on inside some bytes. -/
def enter (c : Cursor) (bytes : Bytes) : Cursor := ⟨bytes, c.here :: c.outer⟩

/-- Goes back to the next outer reader, if there is one. -/
def leave (c : Cursor) : Cursor :=
  match c.outer with
  | here :: outer => ⟨here, outer⟩
  | [] => c

/-- Carries out one operation on the innermost reader, and goes on in the reader that it opens. -/
def step (c : Cursor) : Step → Except DecodeError Reply × Cursor
  | .leave => (.ok .nothing, c.leave)
  | op =>
    let done := op.run c.here
    let c' : Cursor := { c with here := done.left }
    (done.reply, done.opened.elim c' c'.enter)

end Cursor

/-! ## Operations on a writer -/

/-- One operation on a writer. -/
inductive Writer.Step where
  | item (item : Item)
  | beginBytes
  | endBytes
  | beginMessage (tag : UInt8)
  | endMessage

/-- Carries out one operation; a failed one gives no new writer. -/
def Writer.step (w : Writer) : Writer.Step → Except EncodeError Writer
  | .item item => item.write w
  | .beginBytes => .ok w.beginBytes
  | .endBytes => w.endBytes
  | .beginMessage tag => .ok (w.beginMessage tag)
  | .endMessage => w.endMessage

/-- The writer after an operation that failed. Whether a length fits its four bytes is asked when the
region has been closed already; nothing else that fails leaves a trace. -/
def Writer.afterFailure (w : Writer) : Writer.Step → EncodeError → Writer
  | .endBytes, .tooLong _ | .endMessage, .tooLong _ => { w with pending := w.pending.tail }
  | _, _ => w

/-- Carries out one operation, and goes on with the writer whether it fails or not. -/
def Writer.perform (w : Writer) (op : Writer.Step) : Except EncodeError Unit × Writer :=
  match w.step op with
  | .ok w' => (.ok (), w')
  | .error e => (.error e, w.afterFailure op e)

/-- The writer after some operations, of which any may have failed. -/
def Writer.run (w : Writer) (ops : List Writer.Step) : Writer :=
  ops.foldl (fun w op => (w.perform op).2) w

end TypedWire
