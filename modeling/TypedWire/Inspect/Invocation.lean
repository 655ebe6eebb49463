import TypedWire.Inspect.Session
import TypedWire.Inspect.Settings

/-!
# The command line of the inspection tool

A line has options, then the name of a command, then the arguments of the command. Each option may
stand once. An option takes its value from the same word (`-dv1`, `-d=v1`, `--dialect=v1`) or from
the next one, which must not look like an option then.

- `Word`: what a word is before it is known what it stands for.
- `Invocation`: what a command line asks for; `Invocation.ofArgs` reads one.
- `Invocation.run`: the output of a command.
- `answer`: exit code and output for a command line.
-/

namespace TypedWire.Inspect

/-! ## Words -/

/-- What a word of a command line is. -/
inductive Word where
  /-- What ends the options. -/
  | separator
  /-- An option of several letters, with the value in the same word. -/
  | long (name : String) (value : Option String)
  /-- An option of one letter, with what follows it in the same word. -/
  | short (letter : Char) (rest : List Char)
  /-- Anything else. A lone dash is no option. -/
  | plain (text : String)

namespace Word

/-- A long option without its dashes, cut at the first equals sign. -/
def ofLong (cs : List Char) : Word :=
  let name := cs.takeWhile (· ≠ '=')
  match cs.drop name.length with
  | [] => .long (String.ofList name) none
  | _ :: value => .long (String.ofList name) (some (String.ofList value))

/-- What a word is. -/
def ofText (s : String) : Word :=
  match s.toList with
  | ['-', '-'] => .separator
  | '-' :: '-' :: cs => ofLong cs
  | '-' :: letter :: cs => .short letter cs
  | _ => .plain s

/-- The value behind the letter of an option, if there is one. -/
def attached? : List Char → Option String
  | [] => none
  | '=' :: cs => some (String.ofList cs)
  | cs => some (String.ofList cs)

/-- Whether a word can be the value of the option before it. -/
def isPlain : Word → Bool
  | .plain _ => true
  | _ => false

end Word

/-! ## Command lines -/

/-- Why a command line asks for nothing. -/
inductive Usage where
  /-- It is not understood. -/
  | misuse
  /-- It asks how the tool is used. -/
  | help
  deriving DecidableEq

/-- A command with its arguments. -/
inductive Command where
  | describe (descriptor : String)
  | decode (descriptor payload : String)
  | encode (descriptor json : String)
  deriving DecidableEq

/-- The options as far as they are read. -/
structure Options where
  config : Option String
  dialect : Option String
  compact : Bool
  deriving DecidableEq

/-- What a command line asks for. -/
structure Invocation where
  options : Options
  command : Command
  deriving DecidableEq

namespace Options

/-- The options of a line without any. -/
def none : Options := ⟨.none, .none, false⟩

/-- Takes the file with settings. -/
def setConfig (o : Options) (path : String) : Except Usage Options :=
  if o.config.isSome ∨ path = "" then .error .misuse else .ok { o with config := some path }

/-- Takes the dialect. -/
def setDialect (o : Options) (dialect : String) : Except Usage Options :=
  if o.dialect.isSome then .error .misuse else .ok { o with dialect := some dialect }

/-- Takes the wish for one line. -/
def setCompact (o : Options) : Except Usage Options :=
  if o.compact then .error .misuse else .ok { o with compact := true }

end Options

namespace Command

/-- The arguments of a command, of which there are `count`. -/
def arguments : Nat → List String → Except Usage (List String)
  | 0, [] => .ok []
  | _ + 1, [] => .error .misuse
  | count, arg :: args =>
    match Word.ofText arg, count with
    | .separator, count =>
      if args.length = count then .ok args else .error .misuse
    | .long "help" .none, _ => .error .help
    | .short 'h' _, _ => .error .help
    | .plain text, count + 1 => (text :: ·) <$> arguments count args
    | _, _ => .error .misuse

/-- A command by its name, with arguments still to be read. -/
def ofName (name : String) (args : List String) : Except Usage Command :=
  match name with
  | "describe" => do
    match (← arguments 1 args) with
    | [descriptor] => return .describe descriptor
    | _ => throw .misuse
  | "decode" => do
    match (← arguments 2 args) with
    | [descriptor, payload] => return .decode descriptor payload
    | _ => throw .misuse
  | "encode" => do
    match (← arguments 2 args) with
    | [descriptor, json] => return .encode descriptor json
    | _ => throw .misuse
  | "help" =>
    match args with
    | [] => throw .help
    | [topic] =>
      throw (if ["describe", "decode", "encode", "help"].contains topic then .help else .misuse)
    | _ => throw .misuse
  | _ => throw .misuse

end Command

namespace Invocation

/-- Reads a command line behind the options that are known. -/
def ofArgsFrom (o : Options) : List String → Except Usage Invocation
  | [] => .error .misuse
  | arg :: args =>
    match Word.ofText arg with
    | .plain name => Invocation.mk o <$> Command.ofName name args
    | .separator => .error .misuse
    | .long "compact" .none => do ofArgsFrom (← o.setCompact) args
    | .long "config" value => withValue o.setConfig value args
    | .long "dialect" value => withValue o.setDialect value args
    | .short 'c' rest => withValue o.setConfig (Word.attached? rest) args
    | .short 'd' rest => withValue o.setDialect (Word.attached? rest) args
    | .long "help" .none => .error .help
    | .short 'h' _ => .error .help
    | _ => .error .misuse
where
  /-- Takes the value of an option from its own word or from the next. -/
  withValue (set : String → Except Usage Options) (value : Option String) (args : List String) :
      Except Usage Invocation :=
    match value, args with
    | some v, args => do ofArgsFrom (← set v) args
    | .none, v :: args =>
      if (Word.ofText v).isPlain then do ofArgsFrom (← set v) args else .error .misuse
    | .none, [] => .error .misuse

/-- Reads a command line. -/
def ofArgs (args : List String) : Except Usage Invocation :=
  ofArgsFrom Options.none args

/-- The settings of an invocation. Files are given by their text, if they can be read, and the
environment by the value of each variable. -/
def settings (i : Invocation) (file env : String → Option String) : Except Failure Settings := do
  let s ← match i.options.config with
    | some path =>
      match file path with
      | some text => Settings.ofToml text
      | .none => .error ⟨["reading config " ++ path], .unreadable⟩
    | .none => pure Settings.defaults
  let s ← s.override env
  return { s with
    dialect := i.options.dialect.getD s.dialect
    pretty := s.pretty && !i.options.compact }

/-- The output of the command of an invocation. -/
def run (i : Invocation) (file env : String → Option String) : Except Failure String := do
  let s ← i.settings file env
  let dialect ← s.dialectOf
  match i.command with
  | .describe descriptor => describe dialect descriptor
  | .decode descriptor payload => inNewSession (decode dialect s.pretty descriptor payload)
  | .encode descriptor json => inNewSession (encode dialect descriptor json)
where
  /-- What a command gives that nothing came before. -/
  inNewSession (command : Session String) : Except Failure String :=
    (command.run.run Cache.empty).1

end Invocation

/-! ## Answers -/

/-- How the tool ends. -/
structure Answer where
  /-- Zero for success, one for a failed command, two for a line that is not understood. -/
  code : UInt8
  output : String
  complaint : String

/-- How the tool is used. -/
def usageText : String :=
  String.join <| List.map (· ++ "\n")
    ["usage: [-c FILE] [-d DIALECT] [--compact] COMMAND",
      "",
      "commands:",
      "  describe DESCRIPTOR     print the outline of a descriptor",
      "  decode DESCRIPTOR DATA  print a payload as JSON",
      "  encode DESCRIPTOR JSON  print the payload for a JSON value"]

/-- The answer to a command line. -/
def answer (args : List String) (file env : String → Option String) : Answer :=
  match Invocation.ofArgs args with
  | .error .help => ⟨0, usageText, ""⟩
  | .error .misuse => ⟨2, "", usageText⟩
  | .ok i =>
    match i.run file env with
    | .ok output => ⟨0, output ++ "\n", ""⟩
    | .error f => ⟨1, "", "error: " ++ f.message ++ "\n"⟩

end TypedWire.Inspect
