import TypedWire.Binding.Error
import TypedWire.Descriptor.Error
import TypedWire.Render.FromJson

/-!
# Failures of the inspection commands

A failure is a cause and what was being done when it arose, from the outermost activity in.

- `Cause`: what went wrong; `Cause.texts` is its wording, from the outside in.
- `Failure`: a cause with its contexts; `Failure.message` joins all of their texts.
- `during`: the result of a step as that of an activity.
-/

namespace TypedWire.Inspect

/-- What went wrong. -/
inductive Cause where
  | descriptor (e : ParseError)
  | binding (e : BindError)
  | decoding (e : DecodeError)
  | encoding (e : EncodeError)
  | hex (e : Hex.Error)
  /-- The JSON is not that of a value. -/
  | value (cause : FromJsonCause)
  /-- A text is not JSON. -/
  | notJson
  /-- A text holds no settings in TOML. -/
  | notToml
  /-- A text is no truth value. -/
  | notBool
  /-- A text names no dialect. -/
  | dialect (message : String)
  /-- A file cannot be read. -/
  | unreadable
  deriving DecidableEq

/-- The wording of a cause. A malformed descriptor says by itself what its cause says again. -/
def Cause.texts : Cause → List String
  | .descriptor (.malformed e) => [ParseError.message (.malformed e), e.message]
  | .descriptor e => [e.message]
  | .binding e => [e.message]
  | .decoding e => [e.message]
  | .encoding e => [e.message]
  | .hex e => [e.message]
  | .value cause => [cause.message]
  | .notJson => ["not a JSON text"]
  | .notToml => ["not a TOML document of settings"]
  | .notBool => ["provided string was not `true` or `false`"]
  | .dialect message => [message]
  | .unreadable => ["cannot read the file"]

/-- A cause and what was being done when it arose, from the outermost activity in. -/
structure Failure where
  contexts : List String
  cause : Cause
  deriving DecidableEq

namespace Failure

/-- A failure in no context. -/
def ofCause (cause : Cause) : Failure := ⟨[], cause⟩

/-- A failure inside one more activity. -/
def inside (activity : String) (f : Failure) : Failure :=
  { f with contexts := activity :: f.contexts }

/-- The failure of making a value from JSON, whose members are its contexts. -/
def ofFromJson (e : FromJsonError) : Failure := ⟨e.members, .value e.cause⟩

/-- The wording of a failure, from the outermost context in. -/
def message (f : Failure) : String :=
  ": ".intercalate (f.contexts ++ f.cause.texts)

end Failure

/-- A result whose error is the cause of a failure during an activity. -/
def during {ε α : Type} (activity : String) (cause : ε → Cause) : Except ε α → Except Failure α
  | .ok a => .ok a
  | .error e => .error ⟨[activity], cause e⟩

end TypedWire.Inspect
