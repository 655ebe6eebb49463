import TypedWire.Binding.Bind
import TypedWire.Descriptor.Stream

/-!
# The cache of a session

A session parses a descriptor once per dialect and identifier, and binds a type once per identifier,
presence and shape. A failed binding is remembered as well.

- `CodecKey`: what a binding is remembered by.
- `Cache`: what a session remembers; `Cache.builds` counts the bindings ever made.
- `Cache.descriptor`: the descriptor announced under an identifier.
- `Cache.bind`: the codec of a type for a shape.
- `Cache.clear`: forgets everything but the count.
-/

namespace TypedWire

/-- What a binding is remembered by. -/
structure CodecKey where
  id : Uuid
  required : Bool
  shape : Shape
  deriving DecidableEq

/-- What a session remembers, latest first. -/
structure Cache where
  descriptors : List ((Dialect × Uuid) × Descriptor)
  codecs : List (CodecKey × Except BindError Codec)
  /-- How many bindings were made. -/
  builds : Nat

namespace Cache

/-- A session that remembers nothing. -/
def empty : Cache := ⟨[], [], 0⟩

/-- The descriptor under an identifier. Bytes are read only if the session does not know the
identifier, and only a root with that identifier is remembered. -/
def descriptor (c : Cache) (id : Uuid) (bytes : Bytes) (dialect : Dialect) :
    Except ParseError Descriptor × Cache :=
  match c.descriptors.lookup (dialect, id) with
  | some d => (.ok d, c)
  | none =>
    match Descriptor.parse dialect bytes with
    | .error e => (.error e, c)
    | .ok d =>
      if d.id = id then
        (.ok d, { c with descriptors := ((dialect, id), d) :: c.descriptors })
      else (.error (.idMismatch id d.id), c)

/-- The codec of a type for a shape, made only if the session does not know it. -/
def bind (c : Cache) (d : Descriptor) (required : Bool) (shape : Shape) :
    Except BindError Codec × Cache :=
  let key : CodecKey := ⟨d.id, required, shape⟩
  match c.codecs.lookup key with
  | some made => (made, c)
  | none =>
    let made := d.bind required shape
    (made, { c with codecs := (key, made) :: c.codecs, builds := c.builds + 1 })

/-- How many bindings are remembered. -/
def size (c : Cache) : Nat := c.codecs.length

/-- Forgets all descriptors and bindings. -/
def clear (c : Cache) : Cache := { c with descriptors := [], codecs := [] }

end Cache

end TypedWire
