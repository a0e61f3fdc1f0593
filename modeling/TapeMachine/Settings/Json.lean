import TapeMachine.Json.Reader
import TapeMachine.Json.Record
import TapeMachine.Settings.Check

/-!
# Settings in JSON

Settings are kept in a document that names the fields that differ from the default values.
`Settings.parse` reads such a document and checks the settings.
-/

namespace TapeMachine.Settings

/-- The names of the fields, in order. -/
def fieldNames : List String :=
  ["blank", "left", "right", "comment_prefix", "init_state", "halt_state", "max_states",
    "max_tape_len", "max_state_len", "max_rules_size", "max_steps"]

/-- Settings as an object of all fields. -/
def toJson (s : Settings) : Json :=
  .ofMembers [("blank", .symbol s.blank), ("left", .text s.left), ("right", .text s.right),
    ("comment_prefix", .text s.commentMark), ("init_state", .text s.initState),
    ("halt_state", .text s.haltState), ("max_states", .count s.maxStates),
    ("max_tape_len", .count s.maxTapeLen), ("max_state_len", .count s.maxStateLen),
    ("max_rules_size", .count s.maxRulesSize), ("max_steps", .count s.maxSteps)]

/-- The settings that a value gives. Fields that are not given have their default values. -/
def ofJson? (value : Json) : Option Settings := do
  let s : Settings := {}
  let fields ← value.record? fieldNames
  return {
    blank := ← fields.optional "blank" Json.symbol? s.blank
    left := ← fields.optional "left" Json.text? s.left
    right := ← fields.optional "right" Json.text? s.right
    commentMark := ← fields.optional "comment_prefix" Json.text? s.commentMark
    initState := ← fields.optional "init_state" Json.text? s.initState
    haltState := ← fields.optional "halt_state" Json.text? s.haltState
    maxStates := ← fields.optional "max_states" Json.count? s.maxStates
    maxTapeLen := ← fields.optional "max_tape_len" Json.count? s.maxTapeLen
    maxStateLen := ← fields.optional "max_state_len" Json.count? s.maxStateLen
    maxRulesSize := ← fields.optional "max_rules_size" Json.count? s.maxRulesSize
    maxSteps := ← fields.optional "max_steps" Json.count? s.maxSteps }

/-- Reads and checks a document of settings. -/
def parse (text : String) : Except Fault Settings := do
  match (Json.parse? text).bind ofJson? with
  | none => .error .malformed
  | some s =>
    s.check
    return s

end TapeMachine.Settings
