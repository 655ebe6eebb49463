import TypedWire.Json.Token

/-!
# Reading JSON

Tokens are taken one at a time by a machine with a stack of the containers that are open around the
value being read.

- `Json.Frame`: an open container around a value.
- `Json.Reading`: what the machine expects; `Json.Reading.step` takes a token.
- `Json.parse?`: reads a text as one value.
-/

namespace TypedWire.Json

/-- A container that is open around a value. -/
inductive Frame where
  /-- An array, with the items before the value in reverse. -/
  | array (done : List Json)
  /-- An object, with the entries before the value and the value's key. -/
  | object (done : List (String × Json)) (key : String)

/-- What is expected next, inside the containers of a stack. -/
inductive Reading where
  /-- A value; or, if the innermost array was just opened, its end. -/
  | value (stack : List Frame) (opened : Bool)
  /-- A key; or, if the object was just opened, its end. -/
  | key (stack : List Frame) (done : List (String × Json)) (opened : Bool)
  /-- The colon after a key. -/
  | colon (stack : List Frame) (done : List (String × Json)) (key : String)
  /-- What follows a value. -/
  | after (stack : List Frame) (v : Json)

/-- How many containers may be open at a time. -/
def maxDepth : Nat := 127

namespace Reading

/-- A token where a value is expected. -/
def valueStep (stack : List Frame) (opened : Bool) : JsonToken → Option Reading
  | .scalar v => some (.after stack v)
  | .beginArray =>
    if stack.length < maxDepth then some (.value (.array [] :: stack) true) else none
  | .beginObject => if stack.length < maxDepth then some (.key stack [] true) else none
  | .endArray =>
    match opened, stack with
    | true, .array _ :: stack => some (.after stack (.array []))
    | _, _ => none
  | _ => none

/-- A token after a value. -/
def afterStep (v : Json) : List Frame → JsonToken → Option Reading
  | .array done :: stack, .comma => some (.value (.array (v :: done) :: stack) false)
  | .array done :: stack, .endArray => some (.after stack (.array (v :: done).reverse))
  | .object done name :: stack, .comma => some (.key stack (insert name v done) false)
  | .object done name :: stack, .endObject => some (.after stack (.object (insert name v done)))
  | _, _ => none

/-- Takes a token. -/
def step (token : JsonToken) : Reading → Option Reading
  | .value stack opened => valueStep stack opened token
  | .key stack done opened =>
    match token with
    | .scalar (.string name) => some (.colon stack done name)
    | .endObject => if opened then some (.after stack (.object [])) else none
    | _ => none
  | .colon stack done name =>
    match token with
    | .colon => some (.value (.object done name :: stack) false)
    | _ => none
  | .after stack v => afterStep v stack token

/-- Takes tokens from the left. -/
def run (reading : Reading) : List JsonToken → Option Reading
  | [] => some reading
  | token :: tokens => (step token reading).bind fun reading => run reading tokens

end Reading

/-- The value that tokens spell. -/
def ofTokens? (tokens : List JsonToken) : Option Json :=
  match Reading.run (.value [] false) tokens with
  | some (.after [] v) => some v
  | _ => none

/-- Reads a text as one value. -/
def parse? (s : String) : Option Json :=
  (JsonToken.ofText? s).bind ofTokens?

end TypedWire.Json
