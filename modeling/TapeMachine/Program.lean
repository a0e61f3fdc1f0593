import TapeMachine.Error
import TapeMachine.Rule.Reader
import TapeMachine.Settings.Check

/-!
# Programs

A `Program` is a rule text that was read and checked once. It can be run on any number of inputs.
-/

namespace TapeMachine

/-- Checked settings with their rules and the table of those. -/
structure Program where
  settings : Settings
  rules : List Rule
  table : Table

namespace Program

/-- Reads a rule text. Faults of the settings are reported first, then those of the text, then those
of the rules together. -/
def ofText (s : Settings) (text : String) : Except Error Program := do
  let _ ← s.check.mapError .settings
  let rules ← (Rule.parse s text).mapError .rule
  let table ← (Table.build s s.initState s.haltState rules).mapError .table
  return { settings := s, rules, table }

/-- The machine of the program on an input. -/
def machine (p : Program) (input : String) : Except Error Machine :=
  (Machine.ofInput p.settings p.table input).mapError .input

/-- Runs the program on an input, for the steps that its settings allow unless others are given. -/
def run (p : Program) (input : String) (maxSteps : Option UInt64) : Except Error Report := do
  let m ← p.machine input
  (m.run (maxSteps.getD p.settings.maxSteps)).1.mapError .stuck

end Program

/-- Runs a rule text with the default settings on an input. -/
def simulate (text input : String) (maxSteps : Option UInt64) : Except Error Report := do
  let p ← Program.ofText {} text
  p.run input maxSteps

end TapeMachine
