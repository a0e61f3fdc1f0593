import TapeMachine.Json.Token

/-!
# Reading JSON

`Json.parse?` reads a document. The containers that are still open are kept in a list of frames, so
that a document may be nested to any depth.
-/

namespace TapeMachine.Json

/-- An open container, with what it holds so far, last first. In an object, a member's value is
being read. -/
inductive Frame where
  | array (items : List Json)
  | object (members : List (Option String × Json)) (name : Option String)
deriving Inhabited

/-- What the next token must be. -/
inductive Expected where
  /-- The start of a value. -/
  | value
  /-- The start of a value, or the end of an array that has just been opened. -/
  | firstItem
  /-- The name of a member, after these. -/
  | name (members : List (Option String × Json))
  /-- The name of a member, or the end of an object that has just been opened. -/
  | firstName
  /-- The colon after a member's name. -/
  | colon (members : List (Option String × Json)) (name : Option String)
  /-- What follows a value: a comma, the end of its container or of the document. -/
  | next (value : Json)
deriving Inhabited

/-- A document of which a part is read. -/
structure Progress where
  frames : List Frame
  expected : Expected
deriving Inhabited

/-- Reads a token where a value starts. -/
def Progress.startValue? (frames : List Frame) : Token → Option Progress
  | .scalar value => some ⟨frames, .next value⟩
  | .openArray => some ⟨.array [] :: frames, .firstItem⟩
  | .openObject => some ⟨frames, .firstName⟩
  | _ => none

/-- Reads a token where the name of a member stands. -/
def Progress.readName? (frames : List Frame) (members : List (Option String × Json)) :
    Token → Option Progress
  | .scalar (string name) => some ⟨frames, .colon members name⟩
  | _ => none

/-- Reads a token after a value. -/
def Progress.afterValue? (value : Json) : List Frame → Token → Option Progress
  | .array items :: frames, .comma => some ⟨.array (value :: items) :: frames, .value⟩
  | .array items :: frames, .closeArray => some ⟨frames, .next (array (value :: items).reverse)⟩
  | .object members name :: frames, .comma => some ⟨frames, .name ((name, value) :: members)⟩
  | .object members name :: frames, .closeObject =>
    some ⟨frames, .next (object ((name, value) :: members).reverse)⟩
  | _, _ => none

/-- Reads a token. -/
def Progress.advance? (p : Progress) (token : Token) : Option Progress :=
  match p.expected with
  | .value => startValue? p.frames token
  | .firstItem =>
    match p.frames, token with
    | .array [] :: frames, .closeArray => some ⟨frames, .next (array [])⟩
    | frames, token => startValue? frames token
  | .name members => readName? p.frames members token
  | .firstName =>
    match token with
    | .closeObject => some ⟨p.frames, .next (object [])⟩
    | token => readName? p.frames [] token
  | .colon members name =>
    match token with
    | .colon => some ⟨.object members name :: p.frames, .value⟩
    | _ => none
  | .next value => afterValue? value p.frames token

/-- The value that tokens make. -/
def ofTokens? (tokens : List Token) : Option Json :=
  match tokens.foldlM Progress.advance? ⟨[], .value⟩ with
  | some ⟨[], .next value⟩ => some value
  | _ => none

/-- The value of a document. -/
def parse? (text : String) : Option Json :=
  (tokens? text.toList).bind ofTokens?

end TapeMachine.Json
