import TapeMachine.Json.Record
import TapeMachine.Machine.Run

/-!
# Results in JSON

The forms in which the status of a machine and the report of a run are kept.
-/

namespace TapeMachine

/-- A status as a value. -/
def Status.toJson : Status → Json
  | running => .text "Running"
  | halted => .text "Halted"
  | stuck => .text "Stuck"

/-- The status that a value gives. -/
def Status.ofJson? (value : Json) : Option Status := do
  match ← value.caseName? with
  | "Running" => some .running
  | "Halted" => some .halted
  | "Stuck" => some .stuck
  | _ => none

/-- A report as a value. -/
def Report.toJson (r : Report) : Json :=
  .ofMembers [("tape", .text r.tape), ("steps", .count r.steps), ("rules", .count r.rules),
    ("halted", .bool r.halted)]

/-- The report that a value gives. -/
def Report.ofJson? (value : Json) : Option Report := do
  let fields ← value.record? ["tape", "steps", "rules", "halted"]
  return {
    tape := ← fields.required "tape" Json.text?
    steps := ← fields.required "steps" Json.count?
    rules := ← fields.required "rules" Json.count?
    halted := ← fields.required "halted" Json.bool? }

end TapeMachine
