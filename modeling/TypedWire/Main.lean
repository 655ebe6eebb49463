import TypedWire.Inspect.Invocation

/-!
# The inspection tool

Reads the command line, the file with settings and the environment, and prints the answer.
-/

open TypedWire Inspect

/-- The text of a file, if it can be read. -/
def readText? (path : String) : IO (Option String) := do
  try
    return some (← IO.FS.readFile path)
  catch _ => return none

/-- The variables of the environment that are settings, with their values. -/
def settingVariables : IO (List (String × String)) := do
  let names := ["INSPECT_DIALECT", "INSPECT_LOG", "INSPECT_PRETTY"]
  names.filterMapM fun name => do
    return (← IO.getEnv name).map (name, ·)

/-- Answers a command line. -/
def main (args : List String) : IO UInt32 := do
  let text ← match Invocation.ofArgs args with
    | .ok ⟨⟨some path, _, _⟩, _⟩ => readText? path
    | _ => pure none
  let env ← settingVariables
  let a := answer args (fun _ => text) (List.lookup · env)
  (← IO.getStdout).putStr a.output
  (← IO.getStderr).putStr a.complaint
  return a.code.toUInt32
