import TapeMachine.Json.Record
import TapeMachine.Rule.Basic

/-!
# Rules in JSON

The forms in which moves, actions and rules are kept.
-/

namespace TapeMachine

/-- A direction as a value. -/
def Direction.toJson : Direction → Json
  | left => .text "Left"
  | right => .text "Right"

/-- The direction that a value gives. -/
def Direction.ofJson? (value : Json) : Option Direction := do
  match ← value.caseName? with
  | "Left" => some .left
  | "Right" => some .right
  | _ => none

/-- An action as a value. -/
def Action.toJson (a : Action) : Json :=
  .ofMembers [("new_state", .text a.newState), ("new_symbol", .symbol a.newSymbol),
    ("direction", a.direction.toJson)]

/-- The action that a value gives. -/
def Action.ofJson? (value : Json) : Option Action := do
  let fields ← value.record? ["new_state", "new_symbol", "direction"]
  return {
    newState := ← fields.required "new_state" Json.text?
    newSymbol := ← fields.required "new_symbol" Json.symbol?
    direction := ← fields.required "direction" Direction.ofJson? }

/-- A rule as a value. -/
def Rule.toJson (r : Rule) : Json :=
  .ofMembers [("current_state", .text r.state), ("current_symbol", .symbol r.symbol),
    ("new_state", .text r.action.newState), ("new_symbol", .symbol r.action.newSymbol),
    ("direction", r.action.direction.toJson)]

/-- The rule that a value gives. -/
def Rule.ofJson? (value : Json) : Option Rule := do
  let fields ← value.record?
    ["current_state", "current_symbol", "new_state", "new_symbol", "direction"]
  return {
    state := ← fields.required "current_state" Json.text?
    symbol := ← fields.required "current_symbol" Json.symbol?
    action := {
      newState := ← fields.required "new_state" Json.text?
      newSymbol := ← fields.required "new_symbol" Json.symbol?
      direction := ← fields.required "direction" Direction.ofJson? } }

end TapeMachine
