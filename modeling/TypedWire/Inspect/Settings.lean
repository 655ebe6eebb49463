import TypedWire.Descriptor.Dialect
import TypedWire.Inspect.Failure
import TypedWire.Toml.Document

/-!
# Settings of the inspection tool

Settings come in layers: defaults, a TOML document, the environment, and the command line. A later
layer wins.

- `Settings`: the settings, `Settings.defaults` where nothing is said.
- `Settings.ofToml`: those of a TOML document.
- `Settings.override`: those that an environment leaves.
- `Settings.dialectOf`: the dialect that the settings name.
-/

namespace TypedWire.Inspect

/-- The settings. -/
structure Settings where
  /-- The name of a dialect, as it was given. -/
  dialect : String
  /-- What to log. -/
  log : String
  /-- Whether JSON goes over several lines. -/
  pretty : Bool
  deriving DecidableEq

namespace Settings

/-- The settings where nothing is said. -/
def defaults : Settings := ⟨"v2", "warn", true⟩

/-- The dialect that the settings name. -/
def dialectOf (s : Settings) : Except Failure Dialect :=
  (Dialect.parse s.dialect).mapError fun message => .ofCause (.dialect message)

/-- The settings, if they name a dialect. -/
def checked (s : Settings) : Except Failure Settings := do
  let _ ← s.dialectOf
  return s

/-- Takes over an entry of a document. One whose key is no setting changes nothing, and one whose
value is of another type than the setting is refused. -/
def withEntry? (s : Settings) : String × Toml.Value → Option Settings
  | ("dialect", .string dialect) => some { s with dialect }
  | ("log", .string log) => some { s with log }
  | ("pretty", .boolean pretty) => some { s with pretty }
  | (key, _) => if ["dialect", "log", "pretty"].contains key then none else some s

/-- The settings of a TOML document, with defaults for what it leaves out. -/
def ofToml (text : String) : Except Failure Settings :=
  match (Toml.parse? text).bind (List.foldlM withEntry? defaults) with
  | some s => s.checked
  | none => .error ⟨["invalid config file"], .notToml⟩

/-- The truth value that a variable of the environment holds, with blanks around it. -/
def boolOf (name text : String) : Except Failure Bool :=
  let word := Text.trim text
  if word = "true" then .ok true
  else if word = "false" then .ok false
  else .error ⟨["invalid value for " ++ name ++ ": " ++ Quoted.text text], .notBool⟩

/-- The settings that an environment leaves, given by the value of each variable. -/
def override (env : String → Option String) (s : Settings) : Except Failure Settings := do
  let s ← match env "INSPECT_DIALECT" with
    | some dialect => checked { s with dialect }
    | none => pure s
  let log := (env "INSPECT_LOG").getD s.log
  let pretty ← match env "INSPECT_PRETTY" with
    | some text => boolOf "INSPECT_PRETTY" text
    | none => pure s.pretty
  return { s with log, pretty }

end Settings

end TypedWire.Inspect
