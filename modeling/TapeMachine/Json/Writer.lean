import TapeMachine.Json.Value

/-!
# Writing JSON

`Json.render` writes a value without blanks, the members of an object in their order.
-/

namespace TapeMachine.Json

/-- A character as it stands in a string: quotation mark, backslash and control characters are
escaped. -/
def escapeChar (c : Char) : List Char :=
  if c = '"' || c = '\\' then ['\\', c]
  else if c = '\x08' then ['\\', 'b']
  else if c = '\x0c' then ['\\', 'f']
  else if c = '\n' then ['\\', 'n']
  else if c = '\r' then ['\\', 'r']
  else if c = '\t' then ['\\', 't']
  else if c.toNat < 0x20 then
    ['\\', 'u', '0', '0', Nat.digitChar (c.toNat / 16), Nat.digitChar (c.toNat % 16)]
  else [c]

/-- A string. One that is no text is written as the shortest escape of that kind. -/
def renderString : Option String → List Char
  | some value => '"' :: value.toList.flatMap escapeChar ++ ['"']
  | none => ['"', '\\', 'u', 'd', '8', '0', '0', '"']

mutual

/-- The characters of a value. -/
def renderChars : Json → List Char
  | null => ['n', 'u', 'l', 'l']
  | bool true => ['t', 'r', 'u', 'e']
  | bool false => ['f', 'a', 'l', 's', 'e']
  | number literal => literal.toList
  | string value => renderString value
  | array items => '[' :: renderItems items ++ [']']
  | object members => '\x7b' :: renderMembers members ++ ['\x7d']

/-- The items of an array, with commas between them. -/
def renderItems : List Json → List Char
  | [] => []
  | [item] => renderChars item
  | item :: rest => renderChars item ++ ',' :: renderItems rest

/-- The members of an object, with commas between them. -/
def renderMembers : List (Option String × Json) → List Char
  | [] => []
  | [(name, value)] => renderString name ++ ':' :: renderChars value
  | (name, value) :: rest =>
    renderString name ++ ':' :: renderChars value ++ ',' :: renderMembers rest

end

/-- The document of a value. -/
def render (value : Json) : String :=
  String.ofList value.renderChars

end TapeMachine.Json
