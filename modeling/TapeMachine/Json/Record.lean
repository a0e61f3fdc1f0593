import TapeMachine.Json.Value

/-!
# Records in JSON

A record is written as an object with its fields for members, or as an array of its fields in
the order of their declaration. `Json.record?` reads both forms into a `Fields`, and the fields
are then looked up by name.
-/

namespace TapeMachine.Json

/-- The fields that a record gives, by name. -/
abbrev Fields := List (String × Json)

/-- The fields of a record whose declared names are `names`. In an object, all names must be texts,
a declared name must not be repeated, and members of other names do not matter; an array must not
have more items than there are names. -/
def record? (names : List String) : Json → Option Fields
  | object members => do
    let fields ← members.mapM fun (name, value) => name.map fun name => (name, value)
    if names.all fun name => fields.countP (·.1 == name) ≤ 1 then some fields else none
  | array items => if items.length ≤ names.length then some (names.zip items) else none
  | _ => none

/-- A field that must be given. -/
def Fields.required {α : Type} (fields : Fields) (name : String) (read : Json → Option α) :
    Option α :=
  (fields.lookup name).bind read

/-- A field that has a default value. -/
def Fields.optional {α : Type} (fields : Fields) (name : String) (read : Json → Option α)
    (default : α) : Option α :=
  match fields.lookup name with
  | some value => read value
  | none => some default

end TapeMachine.Json
