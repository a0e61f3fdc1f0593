import TapeMachine.Settings.Basic
import TapeMachine.Text.Quoted
import TapeMachine.Text.WhiteSpace

/-!
# Consistent settings

`Settings.check` tells whether settings can describe a machine, and if not, what is wrong first.
-/

namespace TapeMachine.Settings

/-- The two directions' markers, as messages name them. -/
inductive MarkerField where
  | left
  | right
deriving DecidableEq, Inhabited

/-- The two reserved states, as messages name them. -/
inductive StateField where
  | initial
  | halt
deriving DecidableEq, Inhabited

/-- What can be wrong with settings. -/
inductive Fault where
  /-- The document they were read from is not one of settings. -/
  | malformed
  /-- A move marker is empty or holds white space. -/
  | marker (field : MarkerField) (text : String)
  /-- Both moves have this marker. -/
  | sameMarkers (text : String)
  /-- The comment mark holds nothing but white space. -/
  | commentMark
  /-- The blank symbol is white space. -/
  | blank (symbol : Char)
  /-- A reserved state name is empty or holds white space. -/
  | stateName (field : StateField) (text : String)
  /-- A limit on states, names or rule texts is zero. -/
  | zeroLimit
deriving DecidableEq, Inhabited

/-- The name of a marker in a message. -/
def MarkerField.name : MarkerField → String
  | left => "left"
  | right => "right"

/-- The name of a reserved state in a message. -/
def StateField.name : StateField → String
  | initial => "initial"
  | halt => "halt"

/-- The text that reports a fault. -/
def Fault.message : Fault → String
  | malformed => "Configuration error: Invalid configuration"
  | marker field text =>
    "Configuration error: Invalid " ++ field.name ++ " move marker: " ++ Text.quote text
  | sameMarkers text =>
    "Configuration error: Move markers must differ, both are " ++ Text.quote text
  | commentMark => "Configuration error: Comment prefix must not be empty"
  | blank symbol =>
    "Configuration error: Blank symbol must not be whitespace: " ++ Text.quoteSymbol symbol
  | stateName field text =>
    "Configuration error: Invalid " ++ field.name ++ " state name: " ++ Text.quote text
  | zeroLimit => "Configuration error: Structural ceilings must be greater than zero"

/-- A word that the rule language can hold: not empty, and without white space. -/
def isWord (text : String) : Bool :=
  !text.toList.isEmpty && !text.toList.any Text.isWhiteSpace

/-- Reports the first fault of the settings: markers first, then comment mark, blank, reserved names
and limits. A tape limit or a step limit of zero is no fault. -/
def check (s : Settings) : Except Fault Unit :=
  if !isWord s.left then .error (.marker .left s.left)
  else if !isWord s.right then .error (.marker .right s.right)
  else if s.left = s.right then .error (.sameMarkers s.left)
  else if (Text.trim s.commentMark.toList).isEmpty then .error .commentMark
  else if Text.isWhiteSpace s.blank then .error (.blank s.blank)
  else if !isWord s.initState then .error (.stateName .initial s.initState)
  else if !isWord s.haltState then .error (.stateName .halt s.haltState)
  else if s.maxStates = 0 || s.maxStateLen = 0 || s.maxRulesSize = 0 then .error .zeroLimit
  else .ok ()

end TapeMachine.Settings
