import TapeMachine.Json.Record
import TapeMachine.Proofs.Json.Scalar

/-!
# The fields of a record

Of an object whose declared names are not repeated, a field is what the member of that name
gives (`Json.Fields.lookup_eq_some_iff`), wherever the member stands and whatever the
members of other names are.
-/

namespace TapeMachine.Json

variable {α : Type} {fields : Fields} {name : String} {v : Json} {a default : α}
  {read : Json → Option α} {write : α → Json}

/-- A name is given at most once. -/
def Fields.Once (fields : Fields) (name : String) : Prop :=
  fields.countP (·.1 == name) ≤ 1

instance (fields : Fields) (name : String) : Decidable (fields.Once name) :=
  inferInstanceAs (Decidable (_ ≤ _))

/-- The members with their names, if all of them are texts. -/
def named? (members : List (Option String × Json)) : Option Fields :=
  members.mapM fun (name, value) => name.map fun name => (name, value)

theorem named?_map (fields : Fields) :
    named? (fields.map fun (name, value) => (some name, value)) = some fields := by
  induction fields with
  | nil => rfl
  | cons m fields ih =>
    rw [named?] at ih
    rw [named?, List.map_cons, List.mapM_cons, ih]
    rfl

theorem named?_eq_none {members : List (Option String × Json)} (h : (none, v) ∈ members) :
    named? members = none := by
  induction members with
  | nil => cases h
  | cons m members ih =>
    rw [named?, List.mapM_cons]
    obtain _ | ⟨_, h⟩ := h
    · rfl
    · obtain ⟨name, value⟩ := m
      have hrest := ih h
      rw [named?] at hrest
      cases name with
      | none => rfl
      | some name => rw [hrest]; rfl

theorem record?_object (names : List String) (members : List (Option String × Json)) :
    (object members).record? names =
      (named? members).bind fun fields => if names.all (fields.Once ·) then some fields else none :=
        rfl

theorem record?_ofMembers (names : List String) (fields : Fields) :
    (ofMembers fields).record? names =
      if ∀ name ∈ names, fields.Once name then some fields else none := by
  rw [ofMembers, record?_object, named?_map, Option.bind_some]
  simp

/-- An object with a name that is no text is not a record. -/
theorem record?_eq_none
    {members : List (Option String × Json)} (names : List String) (h : (none, v) ∈ members) :
    (object members).record? names = none := by
  rw [record?_object, named?_eq_none h]
  rfl

theorem Fields.lookup_eq_some_iff (h : fields.Once name) :
    fields.lookup name = some v ↔ (name, v) ∈ fields := by
  induction fields with
  | nil => simp
  | cons m fields ih =>
    obtain ⟨key, value⟩ := m
    rw [Once, List.countP_cons] at h
    rw [List.lookup_cons, List.mem_cons, Prod.mk.injEq]
    by_cases hkey : name = key
    · subst hkey
      -- No other member has the name.
      have hrest : (name, v) ∉ fields := fun hmem => by
        have hpos : 0 < fields.countP (·.1 == name) := List.countP_pos_iff.2 ⟨_, hmem, by simp⟩
        simp only [beq_self_eq_true, if_true] at h
        omega
      simp [hrest, eq_comm]
    · have hne : (key == name) = false := by simpa using Ne.symm hkey
      have hrest : Once fields name := by simpa [Once, hne] using h
      have hne' : (name == key) = false := by simpa using hkey
      simp [hkey, hne', ih hrest]

theorem Fields.Once.eq_of_mem {w : Json} (h : fields.Once name) (hv : (name, v) ∈ fields)
    (hw : (name, w) ∈ fields) : v = w := by
  rw [← lookup_eq_some_iff h] at hv hw
  exact Option.some.inj (hv.symm.trans hw)

theorem Fields.lookup_eq_none_iff : fields.lookup name = none ↔ ∀ v, (name, v) ∉ fields := by
  rw [List.lookup_eq_none_iff]
  constructor
  · intro h v hv
    simpa using h _ hv
  · rintro h ⟨key, v⟩ hm
    simp only [bne_iff_ne, ne_eq]
    rintro rfl
    exact h v hm

/-- The field has this value: a member gives it, or no member has the name and it is the default
value. -/
def Fields.Gives (fields : Fields) (name : String) (value default : Json) : Prop :=
  (name, value) ∈ fields ∨ (∀ v, (name, v) ∉ fields) ∧ value = default

theorem Fields.optional_eq_some_iff (h : fields.Once name)
    (hread : ∀ v, (name, v) ∈ fields → (read v = some a ↔ v = write a))
    (hwrite : write a = write default → a = default) :
    fields.optional name read default = some a ↔ fields.Gives name (write a) (write default) := by
  unfold optional Gives
  split
  · rename_i v hv
    rw [lookup_eq_some_iff h] at hv
    rw [hread v hv]
    constructor
    · rintro rfl
      exact .inl hv
    · rintro (hmem | ⟨hnone, _⟩)
      · exact h.eq_of_mem hv hmem
      · exact absurd hv (hnone v)
  · rename_i hnone
    rw [lookup_eq_none_iff] at hnone
    rw [Option.some.injEq]
    constructor
    · rintro rfl
      exact .inr ⟨hnone, rfl⟩
    · rintro (hmem | ⟨_, heq⟩)
      · exact absurd hmem (hnone _)
      · exact (hwrite heq).symm

end TapeMachine.Json
