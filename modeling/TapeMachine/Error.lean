import TapeMachine.Files.Fault
import TapeMachine.Machine.Input
import TapeMachine.Machine.Run
import TapeMachine.Rule.Reader
import TapeMachine.Settings.Check
import TapeMachine.Table

/-!
# Errors

All that can go wrong between a rule text and the end of a run, by the part that finds it.
-/

namespace TapeMachine

/-- All that can go wrong. -/
inductive Error where
  | settings (fault : Settings.Fault)
  | rule (fault : Rule.Fault)
  | table (fault : Table.Fault)
  | input (fault : InputFault)
  | stuck (fault : Stuck)
  | file (fault : FileFault)
deriving DecidableEq, Inhabited

namespace Error

/-- The text that reports an error. -/
def message : Error → String
  | settings fault => fault.message
  | rule fault => fault.message
  | table fault => fault.message
  | input fault => fault.message
  | stuck fault => fault.message
  | file fault => fault.message

/-- Whether the error is that of a stuck machine. -/
def isStuck : Error → Bool
  | stuck _ => true
  | _ => false

end Error

end TapeMachine
