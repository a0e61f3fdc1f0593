import TapeMachine.Proofs.Table.Contents

/-!
# Where rules lead

The targets of a table are the states that its actions lead to, and the dangling ones are those
without a rule. Both are collected in two folds, one in the other, so what the folds have collected
is told for any step that adds what it looks at (`Table.mem_foldl`).
-/

namespace TapeMachine.Table

variable {t : Table} {state : String}

/-- A set of names that each element of a list is looked at for holds in the end what it held and
what the elements add. -/
theorem mem_foldl {α : Type} {add : Std.ExtTreeMap String Unit → α → Std.ExtTreeMap String Unit}
    {adds : α → Prop} (hadd : ∀ names x, state ∈ add names x ↔ state ∈ names ∨ adds x) (xs : List α)
    (names : Std.ExtTreeMap String Unit) :
    state ∈ xs.foldl add names ↔ state ∈ names ∨ ∃ x ∈ xs, adds x := by
  induction xs generalizing names with
  | nil => simp
  | cons x rest ih => rw [List.foldl_cons, ih, hadd, List.exists_mem_cons_iff, or_assoc]

theorem mem_targets :
    state ∈ t.targets ↔ ∃ source symbol a, t.get? source symbol = some a ∧ a.newState = state := by
  have hcell (names : Std.ExtTreeMap String Unit) (cell : Char × Action) :
      state ∈ names.insert cell.2.newState () ↔ state ∈ names ∨ cell.2.newState = state := by
    rw [Std.ExtTreeMap.mem_insert, compare_eq_iff_eq, or_comm]
  have hrow (names : Std.ExtTreeMap String Unit) (row : String × ActionMap) :
      state ∈ row.2.foldl (fun names _ a => names.insert a.newState ()) names ↔
        state ∈ names ∨ ∃ (symbol : Char) (a : Action), row.2[symbol]? = some a ∧
          a.newState = state := by
    rw [Std.ExtTreeMap.foldl_eq_foldl_toList, mem_foldl hcell]
    simp only [Prod.exists, Std.ExtTreeMap.mem_toList_iff_getElem?_eq_some]
  rw [targets, Std.ExtTreeMap.mem_keys, Std.ExtTreeMap.foldl_eq_foldl_toList, mem_foldl hrow]
  simp only [Std.ExtTreeMap.not_mem_empty, false_or, Prod.exists,
    Std.ExtTreeMap.mem_toList_iff_getElem?_eq_some, get?, Option.bind_eq_some_iff]
  constructor
  · rintro ⟨source, row, hsource, symbol, a, hsymbol, hnew⟩
    exact ⟨source, symbol, a, ⟨row, hsource, hsymbol⟩, hnew⟩
  · rintro ⟨source, symbol, a, ⟨row, hsource, hsymbol⟩, hnew⟩
    exact ⟨source, row, hsource, symbol, a, hsymbol, hnew⟩

theorem pairwise_lt_targets (t : Table) : t.targets.Pairwise (· < ·) :=
  Std.ExtTreeMap.ordered_keys.imp fun h => compare_lt_iff_lt.1 h

theorem pairwise_lt_danglingTargets (t : Table) (halt : String) :
    (t.danglingTargets halt).Pairwise (· < ·) :=
  t.pairwise_lt_targets.filter _

theorem mem_danglingTargets {halt : String} :
    state ∈ t.danglingTargets halt ↔ state ∈ t.targets ∧ state ≠ halt ∧ state ∉ t.states := by
  rw [danglingTargets, List.mem_filter, mem_states]
  simp only [Bool.and_eq_true, bne_iff_ne, Bool.not_eq_true', Bool.not_eq_true]

theorem mem_states_of_get? {symbol : Char} {a : Action} (h : t.get? state symbol = some a) :
    state ∈ t.states := by
  obtain ⟨row, hrow, _⟩ := Option.bind_eq_some_iff.1 h
  rw [states, Std.ExtTreeMap.mem_keys, Std.ExtTreeMap.mem_iff_isSome_getElem?, hrow,
    Option.isSome_some]

theorem get?_of_not_mem_states (h : state ∉ t.states) (symbol : Char) :
    t.get? state symbol = none := by
  rw [← Option.not_isSome_iff_eq_none, Option.isSome_iff_exists]
  rintro ⟨a, ha⟩
  exact h (mem_states_of_get? ha)

/-- A state that an action leads to is the halt state, has a rule, or is dangling. -/
theorem mem_of_mem_targets (h : state ∈ t.targets) (halt : String) :
    state = halt ∨ state ∈ t.states ∨ state ∈ t.danglingTargets halt := by
  by_cases hhalt : state = halt
  · exact .inl hhalt
  by_cases hrule : state ∈ t.states
  · exact .inr (.inl hrule)
  · exact .inr (.inr (mem_danglingTargets.2 ⟨h, hhalt, hrule⟩))

/-! ## Tables of rules -/

section Built

variable {s : Settings} {init halt : String} {rules : List Rule}
  (ht : build s init halt rules = .ok t)
include ht

theorem mem_states_of_build : state ∈ t.states ↔ ∃ r ∈ rules, r.state = state := by
  rw [mem_states, hasState_of_foldlM_add (build_eq_ok_iff.1 ht).1, List.mem_map]

theorem init_mem_states_of_build : init ∈ t.states :=
  mem_states.2 (build_eq_ok_iff.1 ht).2.2.1

theorem mem_targets_of_build : state ∈ t.targets ↔ ∃ r ∈ rules, r.action.newState = state := by
  rw [mem_targets]
  simp only [get?_eq_some_iff_of_build ht]
  constructor
  · rintro ⟨source, symbol, a, hmem, hnew⟩
    exact ⟨_, hmem, hnew⟩
  · rintro ⟨r, hmem, hnew⟩
    exact ⟨r.state, r.symbol, r.action, hmem, hnew⟩

end Built

end TapeMachine.Table
