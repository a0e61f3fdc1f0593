import TapeMachine.Settings.Basic
import TapeMachine.Table
import TapeMachine.Tape

/-!
# Machines

A machine is a table with the configuration it is in. What it does with an input is in
`Machine.Input`, and how it runs in `Machine.Run`.

## Main definitions

- `Configuration`: the part of a machine that changes while it runs
- `Machine`: a table, the conventions it is read with, and a configuration
- `Machine.symbol`, `Machine.action?`: what the machine reads, and what it would do
- `Machine.status`: whether it can go on
-/

namespace TapeMachine

/-- What changes while a machine runs. A configuration can be kept and restored. -/
structure Configuration where
  /-- The rules applied since the tape was loaded, as a 64-bit word. -/
  steps : UInt64
  tape : Tape
  /-- The address of the cell under the head, an integer without bound. -/
  head : Int
  state : String
deriving DecidableEq, Inhabited

/-- The configuration a machine starts in on a tape. -/
def Configuration.initial (s : Settings) (tape : Tape) : Configuration :=
  { steps := 0, tape, head := 0, state := s.initState }

/-- A machine: its conventions and rules, the input loaded last, and its configuration. -/
structure Machine where
  settings : Settings
  table : Table
  input : String
  now : Configuration

/-- Whether a machine is in its halt state. -/
inductive Signal where
  | running
  | halted
deriving DecidableEq, Inhabited

/-- What a machine can do next. -/
inductive Status where
  /-- A rule applies. -/
  | running
  /-- The machine is in its halt state. -/
  | halted
  /-- No rule applies. -/
  | stuck
deriving DecidableEq, Inhabited

namespace Machine

/-- The machine on an empty tape. -/
def initial (s : Settings) (table : Table) : Machine :=
  { settings := s, table, input := "", now := .initial s .empty }

/-- The symbol under the head. -/
def symbol (m : Machine) : Char :=
  m.now.tape.read m.settings.blank m.now.head

/-- Whether the machine is in its halt state. -/
def isHalted (m : Machine) : Bool :=
  m.now.state == m.settings.haltState

/-- The action for the state and the symbol the machine is at. -/
def action? (m : Machine) : Option Action :=
  m.table.get? m.now.state m.symbol

/-- What the machine can do next. -/
def status (m : Machine) : Status :=
  if m.isHalted then .halted else if m.action?.isNone then .stuck else .running

/-- Whether the machine is in its halt state, as the operations report it. -/
def signal (m : Machine) : Signal :=
  if m.isHalted then .halted else .running

end Machine

end TapeMachine
