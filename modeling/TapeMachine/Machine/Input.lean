import TapeMachine.Machine.Basic

/-!
# Inputs of a machine

`Machine.load` puts an input on the tape, unless it is refused. `Machine.reset` starts over on the
same input, and `Machine.restore` goes to any configuration that was kept.
-/

namespace TapeMachine

/-- Why an input is refused. -/
inductive InputFault where
  /-- The first space is at this position, counted from 0. -/
  | space (position : Nat)
  /-- The input has `length` characters, which is over the limit. -/
  | tooLong (length : Nat) (max : UInt64)
deriving DecidableEq, Inhabited

/-- The text that reports a refused input. -/
def InputFault.message : InputFault → String
  | space position => s!"Input tape must not contain spaces (found one at position {position})"
  | tooLong length max => s!"Input tape has {length} cells. Maximum is {max}"

namespace Machine

/-- Why the machine refuses an input. A space is reported before the length. -/
def inputFault? (m : Machine) (input : String) : Option InputFault :=
  match input.toList.findIdx? (· = ' ') with
  | some position => some (.space position)
  | none =>
    if m.settings.maxTapeLen.toNat < input.length then
      some (.tooLong input.length m.settings.maxTapeLen)
    else none

/-- The configuration in which the machine starts on an input. -/
def started (m : Machine) (input : String) : Configuration :=
  .initial m.settings (.ofInput m.settings.blank input)

/-- Replaces the tape by an input and starts over. A refused input leaves the machine as it is. -/
def load (m : Machine) (input : String) : Except InputFault Unit × Machine :=
  match m.inputFault? input with
  | some fault => (.error fault, m)
  | none => (.ok (), { m with input, now := m.started input })

/-- A machine that was loaded with an input. -/
def ofInput (s : Settings) (table : Table) (input : String) : Except InputFault Machine :=
  match (initial s table).load input with
  | (.error fault, _) => .error fault
  | (.ok (), m) => .ok m

/-- Starts over on the input that was loaded last. -/
def reset (m : Machine) : Machine :=
  { m with now := m.started m.input }

/-- Goes back, or forward, to a configuration that was kept. Its stored blanks are dropped. -/
def restore (m : Machine) (c : Configuration) : Machine :=
  { m with now := { c with tape := c.tape.dropBlanks m.settings.blank } }

end Machine

end TapeMachine
