import TapeMachine.Machine.Json
import TapeMachine.Proofs.Settings.Overlay
import TapeMachine.Rule.Json

/-!
# Values that are kept

Moves, actions, rules, statuses, reports and settings are kept as documents. Each is read back from
every document of its form (`Json.RoundTrips`), the one that is written among them
(`kept_values_are_read_back`).
-/

namespace TapeMachine

open Json (Document Fields)

namespace Json

/-- What is written of a value is a document and is read as that value, and so is every other
document of the same content. -/
structure RoundTrips {α : Type} (write : α → Json) (read : Json → Option α) : Prop where
  render_document : ∀ a, Document (write a).render (write a)
  parse_render : ∀ a, (parse? (write a).render).bind read = some a
  parse_document : ∀ a text, Document text (write a) → (parse? text).bind read = some a

variable {α : Type} {write : α → Json} {read : Json → Option α} {fields : Fields}

theorem roundTrips_of_read
    (hwrite : ∀ a, Writable (write a)) (hread : ∀ a, read (write a) = some a) :
    RoundTrips write read where
  render_document a := document_render (hwrite a)
  parse_render a := by rw [parse?_render (hwrite a), Option.bind_some, hread]
  parse_document a text h := by rw [parse?_eq_some_iff.2 h, Option.bind_some, hread]

theorem writable_ofMembers (h : ∀ m ∈ fields, Writable m.2) : Writable (ofMembers fields) :=
  writable_object_iff.2 (List.forall_mem_map.2 h)

end Json

/-! ## Moves and statuses -/

theorem Direction.writable_toJson (d : Direction) : Json.Writable d.toJson := by
  cases d <;> exact Json.writable_string _

@[simp]
theorem Direction.ofJson?_toJson (d : Direction) : ofJson? d.toJson = some d := by
  cases d <;> rfl

theorem Status.writable_toJson (s : Status) : Json.Writable s.toJson := by
  cases s <;> exact Json.writable_string _

theorem Status.ofJson?_toJson (s : Status) : ofJson? s.toJson = some s := by
  cases s <;> rfl

/-! ## Records -/

theorem Action.writable_toJson (a : Action) : Json.Writable a.toJson :=
  Json.writable_ofMembers
    (by simp [Json.writable_text, Json.writable_symbol, a.direction.writable_toJson])

theorem Action.ofJson?_toJson (a : Action) : ofJson? a.toJson = some a := by
  rw [toJson, ofJson?, Json.record?_ofMembers, if_pos (of_decide_eq_true rfl)]
  simp [Fields.required, List.lookup_cons]

theorem Rule.writable_toJson (r : Rule) : Json.Writable r.toJson :=
  Json.writable_ofMembers
    (by simp [Json.writable_text, Json.writable_symbol, r.action.direction.writable_toJson])

theorem Rule.ofJson?_toJson (r : Rule) : ofJson? r.toJson = some r := by
  rw [toJson, ofJson?, Json.record?_ofMembers, if_pos (of_decide_eq_true rfl)]
  simp [Fields.required, List.lookup_cons]

theorem Report.writable_toJson (r : Report) : Json.Writable r.toJson :=
  Json.writable_ofMembers (by simp [Json.writable_text, Json.writable_count, Json.writable_bool])

theorem Report.ofJson?_toJson (r : Report) : ofJson? r.toJson = some r := by
  rw [toJson, ofJson?, Json.record?_ofMembers, if_pos (of_decide_eq_true rfl)]
  simp [Fields.required, List.lookup_cons, Json.bool?]

namespace Settings

theorem writable_toJson (s : Settings) : Json.Writable s.toJson :=
  Json.writable_ofMembers (by simp [Json.writable_text, Json.writable_symbol, Json.writable_count])

theorem ofJson?_toJson (s : Settings) : ofJson? s.toJson = some s := by
  have hwritable : ∀ m ∈ fields.map fun f => (f.name, f.form s), Json.Writable m.2 := by
    simp [fields, Json.writable_text, Json.writable_symbol, Json.writable_count]
  rw [toJson_eq, ofJson?_ofMembers_eq_some_iff hwritable]
  refine ⟨?_, fun f hf => .inl (List.mem_map_of_mem hf)⟩
  unfold Unrepeated
  exact of_decide_eq_true rfl

end Settings

/-- Moves, statuses, rules, actions, reports and settings are read back from what is
written of them. As a document of settings it gives these settings if they are consistent,
and their fault otherwise. -/
theorem kept_values_are_read_back :
    Json.RoundTrips Direction.toJson Direction.ofJson? ∧
    Json.RoundTrips Status.toJson Status.ofJson? ∧
    Json.RoundTrips Rule.toJson Rule.ofJson? ∧
    Json.RoundTrips Action.toJson Action.ofJson? ∧
    Json.RoundTrips Report.toJson Report.ofJson? ∧
    Json.RoundTrips Settings.toJson Settings.ofJson? ∧
    ∀ s : Settings, Settings.parse s.toJson.render = s.check.map fun _ => s := by
  refine ⟨Json.roundTrips_of_read Direction.writable_toJson Direction.ofJson?_toJson,
    Json.roundTrips_of_read Status.writable_toJson Status.ofJson?_toJson,
    Json.roundTrips_of_read Rule.writable_toJson Rule.ofJson?_toJson,
    Json.roundTrips_of_read Action.writable_toJson Action.ofJson?_toJson,
    Json.roundTrips_of_read Report.writable_toJson Report.ofJson?_toJson,
    Json.roundTrips_of_read Settings.writable_toJson Settings.ofJson?_toJson, fun s => ?_⟩
  rw [Settings.parse_of_document (Json.document_render s.writable_toJson), s.ofJson?_toJson]

end TapeMachine
