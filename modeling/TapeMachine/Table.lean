import Std.Data.ExtTreeMap
import TapeMachine.Rule.Basic
import TapeMachine.Settings.Basic
import TapeMachine.Text.Quoted

/-!
# Transition tables

A `Table` finds the action for a state and a symbol. `Table.build` makes one of a list of rules and
refuses lists that are ambiguous, too large, or cannot start or halt.
-/

namespace TapeMachine

/-- The actions of one state, by the symbol read. -/
abbrev ActionMap := Std.ExtTreeMap Char Action

/-- A deterministic transition table: for each state that has rules, its actions. Being ordered by
state name, it is the same table in whatever order its rules were given. -/
structure Table where
  actions : Std.ExtTreeMap String ActionMap
  /-- The number of rules. -/
  size : Nat

namespace Table

/-- Why rules make no table. -/
inductive Fault where
  /-- A state name has `length` characters, which is over the limit. -/
  | longState (state : String) (length : Nat) (max : UInt64)
  /-- Two rules are for this state and symbol. -/
  | duplicate (state : String) (symbol : Char)
  /-- There are rules for `count` states, which is over the limit. -/
  | tooManyStates (count : Nat) (max : UInt64)
  /-- The initial state has no rule. -/
  | missingInitialState (state : String)
  /-- No rule leads to the halt state. -/
  | haltUnreachable (state : String)
deriving DecidableEq, Inhabited

/-- The text that reports a fault. -/
def Fault.message : Fault → String
  | longState state length max =>
    "Invalid state " ++ Text.quote state ++ s!": {length} characters, must be at most {max}"
  | duplicate state symbol =>
    s!"Duplicate transition for state {state} and symbol '" ++ symbol.toString ++ "'"
  | tooManyStates count max => s!"Too many states: {count}. Maximum is {max}"
  | missingInitialState state => s!"Initial state {state} not found in the transitions"
  | haltUnreachable state => s!"Halt state {state} not found in the transitions"

/-- The table without rules. -/
def empty : Table :=
  ⟨∅, 0⟩

/-- The action for a state that reads a symbol. -/
def get? (t : Table) (state : String) (symbol : Char) : Option Action :=
  t.actions[state]?.bind (·[symbol]?)

/-- Whether a state has a rule. -/
def hasState (t : Table) (state : String) : Bool :=
  t.actions.contains state

/-- The number of states that have rules. -/
def stateCount (t : Table) : Nat :=
  t.actions.size

/-- The states that have rules, in ascending order. -/
def states (t : Table) : List String :=
  t.actions.keys

/-- Adds a rule. -/
def insert (t : Table) (r : Rule) : Table where
  actions := t.actions.insert r.state ((t.actions.getD r.state ∅).insert r.symbol r.action)
  size := t.size + 1

/-- A rule that is added is found, and nothing else changes. -/
theorem get?_insert (t : Table) (r : Rule) (state : String) (symbol : Char) :
    (t.insert r).get? state symbol =
      if state = r.state ∧ symbol = r.symbol then some r.action else t.get? state symbol := by
  by_cases hs : state = r.state
  · subst hs
    by_cases hc : symbol = r.symbol
    · simp [insert, get?, hc]
    · cases h : t.actions[r.state]? <;>
        simp [insert, get?, hc, h, Std.ExtTreeMap.getElem?_insert, Ne.symm hc,
          Std.ExtTreeMap.getD_eq_getD_getElem?]
  · simp [insert, get?, hs, Std.ExtTreeMap.getElem?_insert, Ne.symm hs]

/-- A rule that is added adds its state. -/
theorem hasState_insert (t : Table) (r : Rule) (state : String) :
    (t.insert r).hasState state = (state == r.state || t.hasState state) := by
  rw [Bool.eq_iff_iff, hasState, insert, Std.ExtTreeMap.contains_insert]
  simp [hasState, @eq_comm _ r.state]

/-- Refuses a state name over the limit. -/
def checkState (max : UInt64) (state : String) : Except Fault Unit :=
  if max.toNat < state.length then .error (.longState state state.length max) else .ok ()

/-- Adds a rule that has admissible state names and is the first one for its state and symbol. -/
def add (max : UInt64) (t : Table) (r : Rule) : Except Fault Table := do
  checkState max r.state
  checkState max r.action.newState
  if (t.get? r.state r.symbol).isSome then .error (.duplicate r.state r.symbol)
  else .ok (t.insert r)

/-- The table of a list of rules. The first rule that cannot be added is blamed; after that, the
number of states, the initial state and the halt state are looked at, in this order. -/
def build (s : Settings) (init halt : String) (rules : List Rule) : Except Fault Table := do
  let t ← rules.foldlM (add s.maxStateLen) empty
  if s.maxStates.toNat < t.stateCount then .error (.tooManyStates t.stateCount s.maxStates)
  else if !t.hasState init then .error (.missingInitialState init)
  else if !rules.any (·.action.newState = halt) then .error (.haltUnreachable halt)
  else .ok t

/-- The states that some action leads to, in ascending order and without repetition. -/
def targets (t : Table) : List String :=
  (t.actions.foldl
    (fun names _ row => row.foldl (fun names _ a => names.insert a.newState ()) names)
    (∅ : Std.ExtTreeMap String Unit)).keys

/-- The states, other than `halt`, that actions lead to but that have no rule: a machine that enters
one is stuck. In ascending order. -/
def danglingTargets (t : Table) (halt : String) : List String :=
  t.targets.filter fun state => state != halt && !t.hasState state

end Table

end TapeMachine
