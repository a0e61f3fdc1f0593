import TapeMachine.Machine.Basic

/-!
# Histories

The configurations of one run, kept so that earlier ones can be looked at and returned to. The
configuration before step `n` stands at index `n`.
-/

namespace TapeMachine

/-- The configurations kept, oldest first. -/
structure History where
  configurations : Array Configuration
deriving DecidableEq, Inhabited

namespace History

/-- The history without configurations. -/
def empty : History :=
  ⟨#[]⟩

/-- Keeps a configuration. Those from its step on are dropped first, so that a history is
always that of one run. -/
def record (h : History) (c : Configuration) : History :=
  ⟨(h.configurations.shrink c.steps.toNat).push c⟩

/-- The configuration at an index. -/
def get? (h : History) (index : UInt64) : Option Configuration :=
  h.configurations[index.toNat]?

/-- The states at the indices before and after the given one. Index 0 has none before it; the index
after the greatest one is 0. -/
def neighbours (h : History) (index : UInt64) : Option String × Option String :=
  (if index = 0 then none else (h.get? (index - 1)).map (·.state),
    (h.get? (index + 1)).map (·.state))

/-- The configuration kept last. -/
def last? (h : History) : Option Configuration :=
  h.configurations.back?

/-- The number of configurations. -/
def length (h : History) : Nat :=
  h.configurations.size

/-- Whether nothing is kept. -/
def isEmpty (h : History) : Bool :=
  h.configurations.isEmpty

/-- The configurations, oldest first. -/
def toList (h : History) : List Configuration :=
  h.configurations.toList

@[simp]
theorem toList_empty : empty.toList = [] :=
  rfl

/-- A configuration is kept after those of earlier steps. -/
theorem toList_record (h : History) (c : Configuration) :
    (h.record c).toList = h.toList.take c.steps.toNat ++ [c] := by
  simp [record, toList]

end History

end TapeMachine
