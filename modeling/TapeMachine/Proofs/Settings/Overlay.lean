import Mathlib.Data.List.Nodup
import TapeMachine.Proofs.Json.Record
import TapeMachine.Settings.Json

/-!
# Settings from a document

The members of a document lie over the default settings: a field that is named has the value that is
given, every other one its default value (`Settings.Overlays`). The settings that are read are
those, if there are any (`Settings.ofJson?_ofMembers_eq_some_iff`), and so neither the order of the
members nor members of other names matter.
-/

namespace TapeMachine.Settings

open Json (symbol? text? count? Document Writable Fields)

/-- A field of settings: its name in a document, and the form that its value has there. -/
structure Field where
  name : String
  form : Settings → Json

/-- All fields of settings, in the order in which a document lists them. -/
def fields : List Field :=
  [⟨"blank", fun s => .symbol s.blank⟩,
    ⟨"left", fun s => .text s.left⟩,
    ⟨"right", fun s => .text s.right⟩,
    ⟨"comment_prefix", fun s => .text s.commentMark⟩,
    ⟨"init_state", fun s => .text s.initState⟩,
    ⟨"halt_state", fun s => .text s.haltState⟩,
    ⟨"max_states", fun s => .count s.maxStates⟩,
    ⟨"max_tape_len", fun s => .count s.maxTapeLen⟩,
    ⟨"max_state_len", fun s => .count s.maxStateLen⟩,
    ⟨"max_rules_size", fun s => .count s.maxRulesSize⟩,
    ⟨"max_steps", fun s => .count s.maxSteps⟩]

/-- The value has the form of this field of some settings. -/
def Field.Holds (f : Field) (value : Json) : Prop :=
  ∃ s, value = f.form s

/-- No name of a field is repeated. -/
def Unrepeated (members : Fields) : Prop :=
  ∀ f ∈ fields, members.Once f.name

/-- The settings have the values that the members give, and default values elsewhere. -/
def Overlays (members : Fields) (s : Settings) : Prop :=
  ∀ f ∈ fields, members.Gives f.name (f.form s) (f.form {})

theorem toJson_eq (s : Settings) :
    s.toJson = .ofMembers (fields.map fun f => (f.name, f.form s)) := rfl

theorem fieldNames_eq : fieldNames = fields.map Field.name := rfl

variable {members members' : Fields} {s : Settings} {value : Json} {f : Field}

/-- Settings are read field by field. -/
theorem ofJson?_eq_some_iff :
    ofJson? value = some s ↔ ∃ given, value.record? fieldNames = some given ∧
    given.optional "blank" symbol? '_' = some s.blank ∧
    given.optional "left" text? "L" = some s.left ∧
    given.optional "right" text? "R" = some s.right ∧
    given.optional "comment_prefix" text? "//" = some s.commentMark ∧
    given.optional "init_state" text? "INIT" = some s.initState ∧
    given.optional "halt_state" text? "HALT" = some s.haltState ∧
    given.optional "max_states" count? 1024 = some s.maxStates ∧
    given.optional "max_tape_len" count? 1048576 = some s.maxTapeLen ∧
    given.optional "max_state_len" count? 32 = some s.maxStateLen ∧
    given.optional "max_rules_size" count? 710000 = some s.maxRulesSize ∧
    given.optional "max_steps" count? 1000000 = some s.maxSteps := by
  -- One step for each field: with all the names at hand a simplifier would try each of
  -- them at each field.
  constructor
  · intro h
    obtain ⟨given, hgiven, h⟩ := Option.bind_eq_some_iff.1 h
    obtain ⟨_, h1, h⟩ := Option.bind_eq_some_iff.1 h
    obtain ⟨_, h2, h⟩ := Option.bind_eq_some_iff.1 h
    obtain ⟨_, h3, h⟩ := Option.bind_eq_some_iff.1 h
    obtain ⟨_, h4, h⟩ := Option.bind_eq_some_iff.1 h
    obtain ⟨_, h5, h⟩ := Option.bind_eq_some_iff.1 h
    obtain ⟨_, h6, h⟩ := Option.bind_eq_some_iff.1 h
    obtain ⟨_, h7, h⟩ := Option.bind_eq_some_iff.1 h
    obtain ⟨_, h8, h⟩ := Option.bind_eq_some_iff.1 h
    obtain ⟨_, h9, h⟩ := Option.bind_eq_some_iff.1 h
    obtain ⟨_, h10, h⟩ := Option.bind_eq_some_iff.1 h
    obtain ⟨_, h11, h⟩ := Option.bind_eq_some_iff.1 h
    cases h
    exact ⟨given, hgiven, h1, h2, h3, h4, h5, h6, h7, h8, h9, h10, h11⟩
  · rintro ⟨given, hgiven, h1, h2, h3, h4, h5, h6, h7, h8, h9, h10, h11⟩
    have hnext {α β : Type} {x : Option α} {f : α → Option β} {a : α} {b : β} (hx : x = some a)
        (hf : f a = some b) : x.bind f = some b := Option.bind_eq_some_iff.2 ⟨a, hx, hf⟩
    exact hnext hgiven <| hnext h1 <| hnext h2 <| hnext h3 <| hnext h4 <| hnext h5 <|
      hnext h6 <| hnext h7 <| hnext h8 <| hnext h9 <| hnext h10 <| hnext h11 rfl

section Forms

variable {name : String}

theorem optional_symbol_iff {c d : Char} (h : members.Once name) :
    members.optional name symbol? d = some c ↔ members.Gives name (.symbol c) (.symbol d) :=
  Fields.optional_eq_some_iff h (fun _ _ => Json.symbol?_eq_some_iff) Json.symbol_inj.1

theorem optional_text_iff {c d : String} (h : members.Once name) :
    members.optional name text? d = some c ↔ members.Gives name (.text c) (.text d) :=
  Fields.optional_eq_some_iff h (fun _ _ => Json.text?_eq_some_iff) Json.text_inj.1

theorem optional_count_iff {m n : UInt64} (hm : ∀ m ∈ members, Writable m.2)
    (h : members.Once name) :
    members.optional name count? n = some m ↔ members.Gives name (.count m) (.count n) :=
  Fields.optional_eq_some_iff h (fun _ hv => Json.count?_eq_some_iff (hm _ hv)) Json.count_inj.1

end Forms

theorem ofJson?_ofMembers_eq_some_iff (h : ∀ m ∈ members, Writable m.2) :
    ofJson? (.ofMembers members) = some s ↔ Unrepeated members ∧ Overlays members s := by
  rw [ofJson?_eq_some_iff, Json.record?_ofMembers, fieldNames_eq]
  by_cases honce : Unrepeated members
  · have hnames : ∀ name ∈ fields.map Field.name, members.Once name := List.forall_mem_map.2 honce
    rw [if_pos hnames, and_iff_right honce]
    simp only [Option.some.injEq, exists_eq_left']
    simp only [Unrepeated, Overlays, fields, List.forall_mem_cons, List.not_mem_nil, false_implies,
      implies_true, and_true] at honce ⊢
    obtain ⟨h1, h2, h3, h4, h5, h6, h7, h8, h9, h10, h11⟩ := honce
    exact and_congr (optional_symbol_iff h1) <| and_congr (optional_text_iff h2) <|
      and_congr (optional_text_iff h3) <| and_congr (optional_text_iff h4) <|
      and_congr (optional_text_iff h5) <| and_congr (optional_text_iff h6) <|
      and_congr (optional_count_iff h h7) <|
      and_congr (optional_count_iff h h8) <| and_congr (optional_count_iff h h9) <|
      and_congr (optional_count_iff h h10) (optional_count_iff h h11)
  · rw [if_neg fun hnames => honce (List.forall_mem_map.1 hnames)]
    simp [honce]

/-! ## What is read -/

theorem writable_members {text : String} (h : Document text (.ofMembers members)) :
    ∀ m ∈ members, Writable m.2 := by
  intro m hm
  exact Json.writable_object_iff.1 h.writable (some m.1, m.2) (List.mem_map.2 ⟨m, hm, rfl⟩)

theorem parse_of_document {text : String} (h : Document text value) :
    parse text = match ofJson? value with
      | none => .error .malformed
      | some s => s.check.map fun _ => s := by
  rw [parse, Json.parse?_eq_some_iff.2 h, Option.bind_some]
  cases ofJson? value with
  | none => rfl
  | some s =>
    dsimp only
    cases s.check <;> rfl

theorem exists_gives (hform : ∀ value, (f.name, value) ∈ members → f.Holds value) :
    ∃ s, members.Gives f.name (f.form s) (f.form {}) := by
  by_cases hnamed : ∃ value, (f.name, value) ∈ members
  · obtain ⟨value, hmem⟩ := hnamed
    obtain ⟨s, rfl⟩ := hform value hmem
    exact ⟨s, .inl hmem⟩
  · exact ⟨{}, .inr ⟨fun v hv => hnamed ⟨v, hv⟩, rfl⟩⟩

/-- Values of the right form can be laid over the default settings. -/
theorem exists_overlays
    (hforms : ∀ f ∈ fields, ∀ value, (f.name, value) ∈ members → f.Holds value) :
    ∃ s, Overlays members s := by
  -- Each field is taken from settings of its own.
  have hgives : ∀ f ∈ fields, ∃ s, members.Gives f.name (f.form s) (f.form {}) :=
    fun f hf => exists_gives (hforms f hf)
  simp only [fields, List.forall_mem_cons, List.not_mem_nil, false_implies, implies_true,
    and_true] at hgives
  obtain ⟨⟨s1, h1⟩, ⟨s2, h2⟩, ⟨s3, h3⟩, ⟨s4, h4⟩, ⟨s5, h5⟩, ⟨s6, h6⟩, ⟨s7, h7⟩, ⟨s8, h8⟩, ⟨s9, h9⟩,
    ⟨s10, h10⟩, ⟨s11, h11⟩⟩ := hgives
  refine ⟨⟨s1.blank, s2.left, s3.right, s4.commentMark, s5.initState, s6.haltState, s7.maxStates,
    s8.maxTapeLen, s9.maxStateLen, s10.maxRulesSize, s11.maxSteps⟩, ?_⟩
  simp only [Overlays, fields, List.forall_mem_cons, List.not_mem_nil, false_implies,
    implies_true, and_true]
  exact ⟨h1, h2, h3, h4, h5, h6, h7, h8, h9, h10, h11⟩

/-! ## What does not matter -/

/-- The members that name a field. -/
def recognized (members : Fields) : Fields :=
  members.filter fun m => m.1 ∈ fieldNames

theorem name_mem_fieldNames (hf : f ∈ fields) : f.name ∈ fieldNames :=
  fieldNames_eq ▸ List.mem_map_of_mem hf

theorem eq_of_name_eq {g : Field} (hf : f ∈ fields) (hg : g ∈ fields) (h : f.name = g.name) :
    f = g :=
  List.inj_on_of_nodup_map (l := fields) (f := Field.name) (by decide) hf hg h

/-- Members of one name in two documents are the same. -/
def SameMembers (name : String) (members members' : Fields) : Prop :=
  (members.Once name ↔ members'.Once name) ∧ ∀ v, (name, v) ∈ members ↔ (name, v) ∈ members'

theorem SameMembers.symm {name : String} (h : SameMembers name members members') :
    SameMembers name members' members :=
  ⟨h.1.symm, fun v => (h.2 v).symm⟩

theorem SameMembers.trans {name : String} {members'' : Fields}
    (h : SameMembers name members members')
    (h' : SameMembers name members' members'') : SameMembers name members members'' :=
  ⟨h.1.trans h'.1, fun v => (h.2 v).trans (h'.2 v)⟩

theorem sameMembers_filter {name : String} {p : String × Json → Bool}
    (hp : ∀ v, p (name, v) = true) :
    SameMembers name (members.filter p) members := by
  constructor
  · rw [Fields.Once, Fields.Once, List.countP_filter]
    refine iff_of_eq (congrArg (· ≤ 1) (List.countP_congr ?_))
    rintro ⟨key, v⟩ _
    simp only [Bool.and_eq_true, beq_iff_eq, and_iff_left_iff_imp]
    rintro rfl
    exact hp v
  · simp [hp]

theorem sameMembers_perm {name : String} (h : members.Perm members') :
    SameMembers name members members' := by
  refine ⟨?_, fun v => h.mem_iff⟩
  rw [Fields.Once, Fields.Once, h.countP_eq]

theorem sameMembers_of_recognized
    (h : (recognized members).Perm (recognized members')) (hf : f ∈ fields) :
    SameMembers f.name members members' := by
  have hname : decide (f.name ∈ fieldNames) = true := decide_eq_true (name_mem_fieldNames hf)
  have hself (members : Fields) : SameMembers f.name (recognized members) members :=
    sameMembers_filter fun _ => hname
  exact (hself members).symm.trans ((sameMembers_perm h).trans (hself members'))

theorem Gives.congr {name : String} {default : Json} (h : SameMembers name members members') :
    members.Gives name value default ↔ members'.Gives name value default := by
  simp only [Fields.Gives, h.2]

/-- Only the members that name a field count, in any order. -/
theorem ofJson?_eq_of_recognized (hm : ∀ m ∈ members, Writable m.2)
    (hm' : ∀ m ∈ members', Writable m.2) (h : (recognized members).Perm (recognized members')) :
    ofJson? (.ofMembers members) = ofJson? (.ofMembers members') := by
  refine Option.ext fun s => ?_
  rw [ofJson?_ofMembers_eq_some_iff hm, ofJson?_ofMembers_eq_some_iff hm']
  have hsame (f : Field) (hf : f ∈ fields) := sameMembers_of_recognized h hf
  exact and_congr (forall₂_congr fun f hf => (hsame f hf).1)
    (forall₂_congr fun f hf => Gives.congr (hsame f hf))

theorem gives_default_iff {name : String} {default : Json} (honce : members.Once name)
    (hmem : (name, default) ∈ members) : members.Gives name value default ↔ value = default := by
  constructor
  · rintro (hvalue | ⟨hnone, _⟩)
    · exact honce.eq_of_mem hvalue hmem
    · exact absurd hmem (hnone _)
  · rintro rfl
    exact .inl hmem

/-- A member that gives the default value can be left out. -/
theorem ofJson?_filter (hm : ∀ m ∈ members, Writable m.2) (hf : f ∈ fields)
    (honce : members.Once f.name) (hmem : (f.name, f.form {}) ∈ members) :
    ofJson? (.ofMembers (members.filter fun m => m.1 ≠ f.name)) = ofJson? (.ofMembers members) := by
  refine Option.ext fun s => ?_
  rw [ofJson?_ofMembers_eq_some_iff hm,
    ofJson?_ofMembers_eq_some_iff fun m hfilter => hm m (List.mem_of_mem_filter hfilter)]
  have hsame (g : Field) (hg : g ∈ fields) (hne : g ≠ f) :
      SameMembers g.name (members.filter fun m => m.1 ≠ f.name) members := by
    refine sameMembers_filter fun v => ?_
    exact decide_eq_true fun hname => hne (eq_of_name_eq hg hf hname)
  -- The other fields keep their members, and this one has its default value with the
  -- member and without it.
  have hnone (v : Json) : (f.name, v) ∉ members.filter fun m => m.1 ≠ f.name := by simp
  refine and_congr (forall₂_congr fun g hg => ?_) (forall₂_congr fun g hg => ?_)
  · obtain rfl | hne := eq_or_ne g f
    · refine iff_of_true ?_ honce
      rw [Fields.Once, List.countP_eq_zero.2]
      · exact Nat.zero_le 1
      · rintro ⟨name, v⟩ hv hname
        rw [beq_iff_eq] at hname
        subst hname
        exact hnone v hv
    · exact (hsame g hg hne).1
  · obtain rfl | hne := eq_or_ne g f
    · rw [gives_default_iff honce hmem]
      simp [Fields.Gives]
    · exact Gives.congr (hsame g hg hne)

/-! ## The settings of a document -/

/-- An object with a name that is no text gives no settings. -/
theorem parse_of_name_no_text {text : String} {members : List (Option String × Json)}
    (hdoc : Document text (.object members)) (h : (none, value) ∈ members) :
    parse text = .error .malformed := by
  have hnone : ofJson? (.object members) = none := by
    rw [ofJson?, Json.record?_eq_none fieldNames h]
    rfl
  rw [parse_of_document hdoc, hnone]

/-- Nothing is read if a field is named twice or has a value of another form. -/
theorem ofJson?_eq_none (hm : ∀ m ∈ members, Writable m.2) (hf : f ∈ fields)
    (h : ¬ members.Once f.name ∨ ∃ value, (f.name, value) ∈ members ∧ ¬ f.Holds value) :
    ofJson? (.ofMembers members) = none := by
  refine Option.eq_none_iff_forall_ne_some.2 fun s hs => ?_
  obtain ⟨honce, hoverlays⟩ := (ofJson?_ofMembers_eq_some_iff hm).1 hs
  obtain h | ⟨value, hmem, hform⟩ := h
  · exact h (honce f hf)
  · obtain hgiven | ⟨hnone, _⟩ := hoverlays f hf
    · exact hform ⟨s, (honce f hf).eq_of_mem hmem hgiven⟩
    · exact hnone value hmem

theorem not_holds_null (hf : f ∈ fields) : ¬ f.Holds .null := by
  rintro ⟨s, hs⟩
  simp only [fields, List.mem_cons, List.not_mem_nil, or_false] at hf
  obtain rfl | rfl | rfl | rfl | rfl | rfl | rfl | rfl | rfl | rfl | rfl := hf <;> cases hs

/-- A document that names no field twice, and gives each one a value of its form, is read as the
settings that its members make of the default ones, or as what is wrong with these settings.
Members of other names, whatever their values, the order of the members, and a member with the
default value make no difference. A field that is named twice, or has null or another value that is
not of its form, is a fault. -/
theorem parse_overlay {text : String} {members : Fields}
    (hdoc : Document text (.ofMembers members)) :
    (Unrepeated members → (∀ f ∈ fields, ∀ value, (f.name, value) ∈ members → f.Holds value) →
      ∃ s, (∀ t, Overlays members t ↔ t = s) ∧ parse text = s.check.map fun _ => s) ∧
    (∀ text' members', Document text' (.ofMembers members') →
      (recognized members').Perm (recognized members) →
      parse text' = parse text) ∧
    (∀ f ∈ fields, members.Once f.name → (f.name, f.form {}) ∈ members →
      ∀ text', Document text' (.ofMembers (members.filter fun m => m.1 ≠ f.name)) →
        parse text' = parse text) ∧
    (∀ f ∈ fields, (¬ members.Once f.name ∨
        ∃ value, (f.name, value) ∈ members ∧ (value = .null ∨ ¬ f.Holds value)) →
      parse text = .error .malformed) := by
  have hm := writable_members hdoc
  refine ⟨fun honce hforms => ?_, fun text' members' hdoc' hperm => ?_,
    fun f hf honce hmem text' hdoc' => ?_, fun f hf h => ?_⟩
  · obtain ⟨s, hs⟩ := exists_overlays hforms
    have hread : ofJson? (.ofMembers members) = some s :=
      (ofJson?_ofMembers_eq_some_iff hm).2 ⟨honce, hs⟩
    refine ⟨s, fun t => ⟨fun ht => ?_, fun ht => ht ▸ hs⟩, by rw [parse_of_document hdoc, hread]⟩
    have hread' := (ofJson?_ofMembers_eq_some_iff hm).2 ⟨honce, ht⟩
    exact Option.some.inj (hread'.symm.trans hread)
  · rw [parse_of_document hdoc', parse_of_document hdoc,
      ofJson?_eq_of_recognized (writable_members hdoc') hm hperm]
  · rw [parse_of_document hdoc', parse_of_document hdoc, ofJson?_filter hm hf honce hmem]
  · have hnone : ofJson? (.ofMembers members) = none := by
      refine ofJson?_eq_none hm hf (h.imp_right fun ⟨value, hmem, hvalue⟩ => ⟨value, hmem, ?_⟩)
      obtain rfl | hvalue := hvalue
      · exact not_holds_null hf
      · exact hvalue
    rw [parse_of_document hdoc, hnone]

/-- A document that names one field, and a member that is no field. -/
theorem parse_overlay_left :
    parse "\x7b\"left\":\"<\",\"note\":[null]\x7d" = .ok { left := "<" } := by
  let members : Fields := [("left", .text "<"), ("note", .array [.null])]
  have hwritable : Writable (.ofMembers members) := by
    refine Json.writable_object_iff.2
      (List.forall_mem_cons.2 ⟨Json.writable_string _, List.forall_mem_singleton.2 ?_⟩)
    exact List.forall_mem_cons.2 ⟨⟨_, .openArray⟩, List.forall_mem_cons.2 ⟨⟨_, .nullName⟩,
      List.forall_mem_singleton.2 ⟨_, .closeArray⟩⟩⟩
  have hdoc : Document "\x7b\"left\":\"<\",\"note\":[null]\x7d" (.ofMembers members) :=
    Json.document_render hwritable
  have honce : Unrepeated members := by
    unfold Unrepeated
    decide
  have hforms : ∀ f ∈ fields, ∀ value, (f.name, value) ∈ members → f.Holds value := by
    intro f hf value hmem
    simp only [members, List.mem_cons, Prod.mk.injEq, List.not_mem_nil, or_false] at hmem
    obtain ⟨hname, rfl⟩ | ⟨hname, rfl⟩ := hmem
    · have hleft : ⟨"left", fun s => .text s.left⟩ ∈ fields := by simp [fields]
      obtain rfl := eq_of_name_eq hf hleft hname
      exact ⟨{ left := "<" }, rfl⟩
    · exact absurd (hname ▸ name_mem_fieldNames hf) (by decide)
  obtain ⟨s, hs, hparse⟩ := (parse_overlay hdoc).1 honce hforms
  have hoverlay : Overlays members { left := "<" } := by
    simp [Overlays, fields, Fields.Gives, members]
  rw [hparse, ← (hs _).1 hoverlay]
  rfl

end TapeMachine.Settings
