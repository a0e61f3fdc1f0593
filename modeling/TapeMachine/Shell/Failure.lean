import TapeMachine.Catalogue

/-!
# Failures of the command line

Why nothing can be run, with the words that tell where an error came from.
-/

namespace TapeMachine.Shell

/-- Why nothing can be run, or no more. -/
inductive Failure where
  /-- The settings or the tape are refused. -/
  | refused (e : Error)
  | settingsFile (path : String) (e : Error)
  | unknownSample (name : String)
  | sample (name : String) (e : Error)
  | rulesFile (path : String) (e : Error)
  /-- Standard input cannot hold both rules and commands. -/
  | rulesAndCommands
  | unreadableRules
  | rules (e : Error)
  | unreadableCommand
deriving DecidableEq, Inhabited

/-- The text that reports a failure. -/
def Failure.message : Failure → String
  | refused e => e.message
  | settingsFile path e => s!"Failed to load configuration {path}: " ++ e.message
  | unknownSample name =>
    "Unknown built-in program '" ++ name ++ "'. Available: " ++ ", ".intercalate Catalogue.names
  | sample name e => "Failed to load built-in program '" ++ name ++ "': " ++ e.message
  | rulesFile path e => s!"Failed to load rules from {path}: " ++ e.message
  | rulesAndCommands => "Interactive mode reads commands from stdin; pass the rules as a file"
  | unreadableRules => "Failed to read rules from stdin: " ++ ReadFault.notText.message
  | rules e => "Failed to load rules from stdin: " ++ e.message
  | unreadableCommand => "Failed to read command: " ++ ReadFault.notText.message

end TapeMachine.Shell
