import TapeMachine.Proofs.Table.Refusals
import TapeMachine.Proofs.Tape.Symmetry

/-!
# Rules with turned moves

A symmetry of the line of addresses makes other moves of the moves. The table of the rules with
these moves finds the same actions, with these moves (`Table.get?_turned`, `Table.build_turned`).
-/

namespace TapeMachine

section Definitions

variable (σ : Symmetry)

/-- The action with the move that the symmetry makes of its move. -/
def Action.turned (a : Action) : Action :=
  { a with direction := σ.turn a.direction }

/-- The rule with the move that the symmetry makes of its move. -/
def Rule.turned (r : Rule) : Rule :=
  { r with action := r.action.turned σ }

/-- The table with all its actions turned. -/
def Table.turned (t : Table) : Table :=
  { t with actions := t.actions.map fun _ row => row.map fun _ a => a.turned σ }

end Definitions

namespace Table

variable {σ : Symmetry} {t : Table} {rules : List Rule}

theorem get?_turned (σ : Symmetry) (t : Table) (state : String) (symbol : Char) :
    (t.turned σ).get? state symbol = (t.get? state symbol).map (Action.turned σ) := by
  rw [get?, get?, turned, Std.ExtTreeMap.getElem?_map]
  cases t.actions[state]? with
  | none => rfl
  | some row => exact Std.ExtTreeMap.getElem?_map

theorem hasState_turned (σ : Symmetry) (t : Table) (state : String) :
    (t.turned σ).hasState state = t.hasState state :=
  Std.ExtTreeMap.contains_map

theorem unblamed_turned {max : UInt64} (h : Unblamed max rules) :
    Unblamed max (rules.map (Rule.turned σ)) where
  names r' hr' := by
    obtain ⟨r, hr, rfl⟩ := List.mem_map.1 hr'
    exact h.names r hr
  places := by
    have hplaces : (rules.map (Rule.turned σ)).map Rule.place = rules.map Rule.place := List.map_map
    rw [hplaces]
    exact h.places

/-- Rules that make a table make the turned table if all their moves are turned. -/
theorem build_turned {s : Settings} {init halt : String} (σ : Symmetry)
    (h : build s init halt rules = .ok t) :
    build s init halt (rules.map (Rule.turned σ)) = .ok (t.turned σ) := by
  obtain ⟨hadd, hcount, hinit, hhalt⟩ := build_eq_ok_iff.1 h
  obtain ⟨t', hadd'⟩ :=
    foldlM_add_eq_ok_iff.2 (unblamed_turned (σ := σ) (foldlM_add_eq_ok_iff.1 ⟨t, hadd⟩))
  have hstates : (rules.map (Rule.turned σ)).map (·.state) = rules.map (·.state) := List.map_map
  have hbuild : build s init halt (rules.map (Rule.turned σ)) = .ok t' := by
    refine build_eq_ok_iff.2 ⟨hadd', ?_, ?_, ?_⟩
    · rwa [stateCount_of_foldlM_add hadd', hstates, ← stateCount_of_foldlM_add hadd]
    · rwa [hasState_of_foldlM_add hadd', hstates, ← hasState_of_foldlM_add hadd]
    · rw [List.any_map]
      exact hhalt
  have hsame : t' = t.turned σ := by
    refine ext_get? (fun state symbol => ?_) (fun state => ?_) ?_
    · apply Option.ext
      intro a'
      rw [get?_turned, get?_eq_some_iff_of_build hbuild, List.mem_map, Option.map_eq_some_iff]
      simp only [get?_eq_some_iff_of_build h]
      constructor
      · rintro ⟨r, hr, heq⟩
        obtain ⟨rfl, rfl, rfl⟩ := Rule.mk.inj heq
        exact ⟨r.action, hr, rfl⟩
      · rintro ⟨a, hmem, rfl⟩
        exact ⟨_, hmem, rfl⟩
    · rw [hasState_turned, hasState_of_foldlM_add hadd', hasState_of_foldlM_add hadd, hstates]
    · rw [size_of_foldlM_add hadd', List.length_map]
      exact (size_of_foldlM_add hadd).symm
  rw [hbuild, hsame]

end Table

end TapeMachine
