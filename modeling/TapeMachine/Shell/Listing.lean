import TapeMachine.Catalogue

/-!
# The list of sample machines

One line for each sample, in columns.
-/

namespace TapeMachine.Shell

/-- A text with spaces after it up to a width. -/
def column (width : Nat) (text : String) : String :=
  text.pushn ' ' (width - text.length)

/-- The line of a sample machine, in columns. -/
def sampleLine (entry : Sample × Program) : String :=
  let (s, p) := entry
  column 18 s.name ++ " " ++ column 46 s.description ++
    " tape: " ++ column 8 ("'" ++ s.tape ++ "'") ++
    " states: " ++ column 3 (toString p.table.stateCount) ++ s!" rules: {p.rules.length}\n"

/-- The list of sample machines. -/
def sampleList : String :=
  String.join (Catalogue.entries.map sampleLine)

end TapeMachine.Shell
