import TapeMachine.Text.Numeral

/-!
# JSON values

`Json` keeps what a document says: members in their order, repeated names included, and numbers as
they are written. A string whose escapes name half of a surrogate pair is allowed by the grammar but
is no text. Both a value and the name of a member can be such a string, so each is an
`Option String`, with `none` for a string that is no text.
-/

namespace TapeMachine

/-- A JSON value. -/
inductive Json where
  | null
  | bool (value : Bool)
  /-- A number, as it is written. -/
  | number (literal : String)
  /-- A string, `none` if it is no text. -/
  | string (value : Option String)
  | array (items : List Json)
  /-- An object; a name is `none` if it is no text. -/
  | object (members : List (Option String × Json))
deriving Inhabited

namespace Json

/-- A string that is a text. -/
@[match_pattern] def text (value : String) : Json :=
  string (some value)

/-- An object whose names are texts. -/
def ofMembers (members : List (String × Json)) : Json :=
  object (members.map fun (name, value) => (some name, value))

/-- The number with this value. -/
def count (n : UInt64) : Json :=
  number (toString n.toNat)

/-- The string of one symbol. -/
def symbol (c : Char) : Json :=
  text c.toString

/-- A count: an integer below `2 ^ 64` without sign, fraction and exponent. -/
def count? : Json → Option UInt64
  | number literal => Text.parseDigits? literal.toList
  | _ => none

/-- A text. -/
def text? : Json → Option String
  | string value => value
  | _ => none

/-- A symbol: a text of one character. -/
def symbol? : Json → Option Char
  | text value =>
    match value.toList with
    | [c] => some c
    | _ => none
  | _ => none

/-- A truth value. -/
def bool? : Json → Option Bool
  | bool value => some value
  | _ => none

/-- The name of a case without content: a text, or an object with that name for its one
member, which is null. -/
def caseName? : Json → Option String
  | text name => some name
  | object [(name, null)] => name
  | _ => none

end Json

end TapeMachine
