import Mathlib.Data.List.Dedup
import Mathlib.Data.String.Basic
import TapeMachine.Proofs.Table.Build

/-!
# What a table holds

A table that rules were added to one after the other holds as many entries as there are rules, one
for each pair of a state and a symbol, and its states are those of the rules.

## Main definitions

- `Table.entries`: the pairs of a state and a symbol that a table stores an action for
- `Rule.place`: the pair that a rule is for
-/

namespace TapeMachine

/-- The state and the symbol that a rule is for. -/
def Rule.place (r : Rule) : String × Char :=
  (r.state, r.symbol)

namespace Table

variable {t t' : Table} {rules : List Rule}

/-- The pairs of a state and a symbol that have an action. -/
def entries (t : Table) : List (String × Char) :=
  t.actions.toList.flatMap fun row => row.2.keys.map (row.1, ·)

theorem mem_entries {place : String × Char} :
    place ∈ t.entries ↔ (t.get? place.1 place.2).isSome = true := by
  obtain ⟨state, symbol⟩ := place
  simp only [entries, List.mem_flatMap, List.mem_map, Prod.mk.injEq, Prod.exists,
    Std.ExtTreeMap.mem_toList_iff_getElem?_eq_some, Std.ExtTreeMap.mem_keys, get?,
    Option.isSome_bind, Std.ExtTreeMap.mem_iff_isSome_getElem?]
  constructor
  · rintro ⟨_, row, hrow, _, hsymbol, rfl, rfl⟩
    simpa [hrow] using hsymbol
  · intro h
    cases hrow : t.actions[state]? with
    | none => simp [hrow] at h
    | some row => exact ⟨state, row, hrow, symbol, by simpa [hrow] using h, rfl, rfl⟩

theorem nodup_entries (t : Table) : t.entries.Nodup := by
  -- Within a row the symbols differ, and the rows have different states.
  refine List.nodup_flatMap.2 ⟨?_, ?_⟩
  · intro row _
    exact Std.ExtTreeMap.nodup_keys.map fun _ _ h => (Prod.mk.inj h).2
  · refine Std.ExtTreeMap.distinct_keys_toList.imp ?_
    intro row row' hne place hplace hplace'
    obtain ⟨_, _, rfl⟩ := List.mem_map.1 hplace
    obtain ⟨_, _, heq⟩ := List.mem_map.1 hplace'
    have hstate : row'.1 = row.1 := (Prod.mk.inj heq).1
    exact hne (by rw [hstate, Std.compare_self])

theorem pairwise_lt_states (t : Table) : t.states.Pairwise (· < ·) :=
  Std.ExtTreeMap.ordered_keys.imp fun h => compare_lt_iff_lt.1 h

theorem nodup_states (t : Table) : t.states.Nodup :=
  Std.ExtTreeMap.nodup_keys

theorem length_states (t : Table) : t.states.length = t.stateCount :=
  Std.ExtTreeMap.length_keys

theorem mem_states {state : String} : state ∈ t.states ↔ t.hasState state = true := by
  rw [states, Std.ExtTreeMap.mem_keys, hasState, Std.ExtTreeMap.contains_iff_mem]

/-- A table is told by what it finds, by its states and by the number of its rules. -/
theorem ext_get? (hget : ∀ state symbol, t.get? state symbol = t'.get? state symbol)
    (hstates : ∀ state, t.hasState state = true ↔ t'.hasState state = true)
    (hsize : t.size = t'.size) : t = t' := by
  have hactions : t.actions = t'.actions := by
    apply Std.ExtTreeMap.ext_getElem?
    intro state
    have hrow := hget state
    have hstate := hstates state
    simp only [hasState, Std.ExtTreeMap.contains_eq_isSome_getElem?] at hstate
    simp only [get?] at hrow
    cases h : t.actions[state]? with
    | none =>
      cases h' : t'.actions[state]? with
      | none => rfl
      | some row' => simp [h, h'] at hstate
    | some row =>
      cases h' : t'.actions[state]? with
      | none => simp [h, h'] at hstate
      | some row' =>
        have hrows : row = row' := by
          apply Std.ExtTreeMap.ext_getElem?
          simpa [h, h'] using hrow
        rw [hrows]
  obtain ⟨actions, size⟩ := t
  obtain ⟨actions', size'⟩ := t'
  rw [mk.injEq]
  exact ⟨hactions, hsize⟩

/-! ## Rules added one after the other -/

theorem eq_foldl_insert {max : UInt64} (h : rules.foldlM (add max) t = .ok t') :
    t' = rules.foldl insert t := by
  induction rules generalizing t with
  | nil => exact (Except.ok.inj h).symm
  | cons r rest ih =>
    rw [List.foldlM_cons] at h
    obtain ⟨t₁, hr, hrest⟩ := Checks.bind_eq_ok_iff.1 h
    obtain ⟨_, _, _, rfl⟩ := add_eq_ok_iff.1 hr
    exact ih hrest

theorem size_foldl_insert : (rules.foldl insert t).size = t.size + rules.length := by
  induction rules generalizing t with
  | nil => rfl
  | cons r rest ih =>
    have hsize : (t.insert r).size = t.size + 1 := rfl
    rw [List.foldl_cons, ih, hsize, List.length_cons]
    omega

theorem hasState_foldl_insert {state : String} :
    (rules.foldl insert t).hasState state = true ↔
      t.hasState state = true ∨ state ∈ rules.map (·.state) := by
  induction rules generalizing t with
  | nil => simp
  | cons r rest ih =>
    rw [List.foldl_cons, ih, hasState_insert, List.map_cons, List.mem_cons]
    simp only [Bool.or_eq_true, beq_iff_eq]
    tauto

section Added

variable {max : UInt64} (h : rules.foldlM (add max) empty = .ok t)
include h

theorem size_of_foldlM_add : t.size = rules.length := by
  rw [eq_foldl_insert h, size_foldl_insert]
  exact Nat.zero_add _

theorem hasState_of_foldlM_add (state : String) :
    t.hasState state = true ↔ state ∈ rules.map (·.state) := by
  have hempty : empty.hasState state = false := Std.ExtTreeMap.contains_empty
  rw [eq_foldl_insert h, hasState_foldl_insert, hempty]
  simp

theorem get?_isSome_of_foldlM_add (place : String × Char) :
    (t.get? place.1 place.2).isSome = true ↔ place ∈ rules.map Rule.place := by
  rw [Option.isSome_iff_exists, List.mem_map]
  simp only [get?_of_foldlM_add h]
  constructor
  · rintro ⟨a, hnone | hmem⟩
    · simp [empty, get?] at hnone
    · exact ⟨_, hmem, rfl⟩
  · rintro ⟨r, hr, rfl⟩
    exact ⟨r.action, .inr hr⟩

theorem stateCount_of_foldlM_add : t.stateCount = (rules.map (·.state)).dedup.length := by
  have hsame : t.states.Perm (rules.map (·.state)).dedup := by
    rw [List.perm_ext_iff_of_nodup t.nodup_states (List.nodup_dedup _)]
    intro state
    rw [mem_states, hasState_of_foldlM_add h, List.mem_dedup]
  rw [← length_states, hsame.length_eq]

theorem length_entries_of_foldlM_add (hplaces : (rules.map Rule.place).Nodup) :
    t.entries.length = rules.length := by
  have hsame : t.entries.Perm (rules.map Rule.place) := by
    rw [List.perm_ext_iff_of_nodup t.nodup_entries hplaces]
    intro place
    rw [mem_entries, get?_isSome_of_foldlM_add h]
  rw [hsame.length_eq, List.length_map]

end Added

end Table

end TapeMachine
