import TapeMachine.Text.Numeral
import TapeMachine.Text.WhiteSpace

/-!
# Interactive commands

The lines that somebody types to drive a machine step by step.
-/

namespace TapeMachine.Shell

/-- A command. -/
inductive Command where
  /-- Apply up to `n` rules. -/
  | step (n : UInt64)
  /-- Go back to the configuration before a step. -/
  | back (index : UInt64)
  | reset
  | quit
  /-- A line that is no command. -/
  | unknown (text : String)
deriving DecidableEq, Inhabited

namespace Command

/-- The command of a text without white space at its ends. -/
def ofText (text : List Char) : Command :=
  match text with
  | [] => step 1
  | ['q'] => quit
  | ['r'] => reset
  | _ =>
    match Text.parseNumeral? text with
    | some n => step n
    | none =>
      match text with
      | 'b' :: rest =>
        match Text.parseNumeral? (Text.trim rest) with
        | some index => back index
        | none => unknown (String.ofList text)
      | _ => unknown (String.ofList text)

/-- The command on a line: nothing for one step, a numeral for so many, `b` and a numeral to go
back, `r` to start over and `q` to stop. -/
def parse (line : String) : Command :=
  ofText (Text.trim line.toList)

end Command

end TapeMachine.Shell
