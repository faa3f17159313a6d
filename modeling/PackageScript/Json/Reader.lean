import PackageScript.Json.Token

set_option autoImplicit false

/-! # Reading a JSON document

The arrays and objects that are still open lie on a stack. Each token either opens one, adds a
value to the innermost one, or closes it. At most 127 of them can be open at a time.
-/

namespace PackageScript.Json

/-- Fewer arrays and objects than this can be open at a time. -/
def depthLimit : Nat := 128

/-- An array or object that is still open. Items are kept in reverse. -/
inductive Frame where
  | array (items : List Json)
  | object (members : List (String × Json)) (key : String)

/-- What may come next. -/
inductive Next where
  /-- A value. -/
  | value
  /-- The first value of an array, or its end. -/
  | item
  /-- The first key of an object, or its end. -/
  | member (members : List (String × Json))
  /-- A key. -/
  | key (members : List (String × Json))
  /-- The colon after a key. -/
  | colon (members : List (String × Json)) (key : String)
  /-- A comma, or the end of the innermost array or object. -/
  | more
  /-- Nothing: the document is complete. -/
  | done (value : Json)

/-- The open arrays and objects, the innermost first, and what may come next. -/
structure Reading where
  frames : List Frame
  next : Next

namespace Reading

def add (frames : List Frame) (v : Json) : Reading :=
  match frames with
  | [] => ⟨[], .done v⟩
  | .array items :: rest => ⟨.array (v :: items) :: rest, .more⟩
  | .object members key :: rest => ⟨.object (insertMember key v members) key :: rest, .more⟩

/-- A token where a value has to come. Every array and object around it is on the stack. -/
def value? (frames : List Frame) : Token → Option Reading
  | .value v => some (add frames v)
  | .openArray =>
      if frames.length + 1 < depthLimit then some ⟨.array [] :: frames, .item⟩ else none
  | .openObject =>
      if frames.length + 1 < depthLimit then some ⟨frames, .member []⟩ else none
  | _ => none

/-- A token where a key has to come. -/
def key? (frames : List Frame) (members : List (String × Json)) : Token → Option Reading
  | .value (.string key) => some ⟨frames, .colon members key⟩
  | _ => none

def step : Reading → Token → Option Reading
  | ⟨frames, .value⟩, t => value? frames t
  | ⟨.array items :: rest, .item⟩, .closeArray => some (add rest (.array items.reverse))
  | ⟨frames, .item⟩, t => value? frames t
  | ⟨frames, .member members⟩, .closeObject => some (add frames (.object members))
  | ⟨frames, .member members⟩, t => key? frames members t
  | ⟨frames, .key members⟩, t => key? frames members t
  | ⟨frames, .colon members key⟩, .colon => some ⟨.object members key :: frames, .value⟩
  | ⟨.array items :: rest, .more⟩, .comma => some ⟨.array items :: rest, .value⟩
  | ⟨.array items :: rest, .more⟩, .closeArray => some (add rest (.array items.reverse))
  | ⟨.object members _ :: rest, .more⟩, .comma => some ⟨rest, .key members⟩
  | ⟨.object members _ :: rest, .more⟩, .closeObject => some (add rest (.object members))
  | _, _ => none

def result? : Reading → Option Json
  | ⟨_, .done v⟩ => some v
  | _ => none

end Reading

def ofTokens? (tokens : List Token) : Option Json :=
  (tokens.foldlM Reading.step ⟨[], .value⟩).bind Reading.result?

def ofText? (text : String) : Option Json := (Token.ofText? text).bind ofTokens?

end PackageScript.Json
