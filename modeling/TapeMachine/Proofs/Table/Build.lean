import TapeMachine.Proofs.Checks
import TapeMachine.Table

/-!
# What a table finds

A table that `Table.build` makes of a list of rules is the graph of that list: it finds an action
for a state and a symbol exactly if the list has that rule. The work is done by
`get?_of_foldlM_add`, an induction over the rules that are added one after the other.
-/

namespace TapeMachine.Table

theorem checkState_eq_ok_iff {max : UInt64} {state : String} :
    checkState max state = .ok () ↔ state.length ≤ max.toNat := by
  unfold checkState
  split <;> simp <;> omega

theorem add_eq_ok_iff {max : UInt64} {t t' : Table} {r : Rule} :
    t.add max r = .ok t' ↔ r.state.length ≤ max.toNat ∧ r.action.newState.length ≤ max.toNat ∧
      t.get? r.state r.symbol = none ∧ t' = t.insert r := by
  rw [← checkState_eq_ok_iff, ← checkState_eq_ok_iff, add]
  simp only [Checks.bind_eq_ok_iff, Checks.ite_error_eq_ok_iff, Option.not_isSome_iff_eq_none,
    Except.ok.injEq]
  constructor
  · rintro ⟨_, hstate, _, hnew, hfree, rfl⟩
    exact ⟨hstate, hnew, hfree, rfl⟩
  · rintro ⟨hstate, hnew, hfree, rfl⟩
    exact ⟨(), hstate, (), hnew, hfree, rfl⟩

/-- Adding rules one after the other adds just what they say, and each was new when it came. -/
theorem get?_of_foldlM_add {max : UInt64} {rules : List Rule} {t t' : Table}
    (h : rules.foldlM (add max) t = .ok t') (state : String) (symbol : Char) (a : Action) :
    t'.get? state symbol = some a ↔
      t.get? state symbol = some a ∨ { state, symbol, action := a } ∈ rules := by
  induction rules generalizing t with
  | nil =>
    obtain rfl : t = t' := by simpa [pure, Except.pure] using h
    simp
  | cons r rest ih =>
    rw [List.foldlM_cons] at h
    cases hr : t.add max r with
    | error e => simp [hr, bind, Except.bind] at h
    | ok t₁ =>
      obtain ⟨_, _, hnew, rfl⟩ := add_eq_ok_iff.1 hr
      rw [ih (by simpa [hr, bind, Except.bind] using h), get?_insert, List.mem_cons]
      -- At the place of `r` the old table is empty; everywhere else `r` changes nothing.
      by_cases hplace : state = r.state ∧ symbol = r.symbol
      · obtain ⟨rfl, rfl⟩ := hplace
        rw [hnew, if_pos ⟨rfl, rfl⟩]
        constructor
        · rintro (hra | hmem)
          · exact .inr (.inl (by cases hra; rfl))
          · exact .inr (.inr hmem)
        · rintro (hra | hra | hmem)
          · cases hra
          · exact .inl (by rw [← hra])
          · exact .inr hmem
      · rw [if_neg hplace]
        have hne : ({ state, symbol, action := a } : Rule) ≠ r := by
          rintro rfl
          exact hplace ⟨rfl, rfl⟩
        simp [hne]

theorem build_eq_ok_iff {s : Settings} {init halt : String} {rules : List Rule} {t : Table} :
    build s init halt rules = .ok t ↔ rules.foldlM (add s.maxStateLen) empty = .ok t ∧
      t.stateCount ≤ s.maxStates.toNat ∧ t.hasState init = true ∧
      rules.any (·.action.newState = halt) = true := by
  rw [build]
  simp only [Checks.bind_eq_ok_iff, Checks.ite_error_eq_ok_iff, Except.ok.injEq, Nat.not_lt,
    Bool.not_eq_true', Bool.not_eq_false]
  constructor
  · rintro ⟨t, hadd, hcount, hinit, hhalt, rfl⟩
    exact ⟨hadd, hcount, hinit, hhalt⟩
  · rintro ⟨hadd, hcount, hinit, hhalt⟩
    exact ⟨t, hadd, hcount, hinit, hhalt, rfl⟩

/-- A table finds exactly the rules it was built of. -/
theorem get?_eq_some_iff_of_build {s : Settings} {init halt : String}
    {rules : List Rule} {t : Table} (h : build s init halt rules = .ok t) (state : String)
    (symbol : Char) (a : Action) :
    t.get? state symbol = some a ↔ { state, symbol, action := a } ∈ rules := by
  rw [get?_of_foldlM_add (build_eq_ok_iff.1 h).1]
  simp [empty, get?]

end TapeMachine.Table
