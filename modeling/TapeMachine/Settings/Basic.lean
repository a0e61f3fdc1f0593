/-!
# Settings

The conventions a rule text is written in (markers, reserved names, the blank symbol) and the limits
a machine is held to. Counts are 64-bit words.
-/

namespace TapeMachine

/-- Symbols, reserved state names and limits. The default value of each field is the one that holds
where nothing else is said. -/
structure Settings where
  /-- Content of every cell that was never written. -/
  blank : Char := '_'
  /-- The word for a move to the left. -/
  left : String := "L"
  /-- The word for a move to the right. -/
  right : String := "R"
  /-- Opens a comment, which runs to the end of its line. -/
  commentMark : String := "//"
  /-- The state a machine starts in. -/
  initState : String := "INIT"
  /-- The state that ends a run. -/
  haltState : String := "HALT"
  /-- Limit on the states that have rules. -/
  maxStates : UInt64 := 1024
  /-- Limit on the characters of an input tape. -/
  maxTapeLen : UInt64 := 1048576
  /-- Limit on the characters of a state name. -/
  maxStateLen : UInt64 := 32
  /-- Limit on the characters of a rule text. -/
  maxRulesSize : UInt64 := 710000
  /-- Limit on the steps of a run that names no limit of its own. -/
  maxSteps : UInt64 := 1000000
deriving DecidableEq, Inhabited

end TapeMachine
