import TapeMachine.Rule.Basic
import TapeMachine.Settings.Basic
import TapeMachine.Text.Lines
import TapeMachine.Text.Quoted
import TapeMachine.Text.WhiteSpace

/-!
# Reading rule texts

A rule text has one rule on each line: state, symbol, new state, new symbol and move, separated by
white space. Empty lines and comments are skipped. `Rule.parse` reads a whole text and blames the
first line that is wrong.
-/

namespace TapeMachine.Rule

/-- The two symbols of a rule, as messages name them. -/
inductive SymbolField where
  | current
  | new
deriving DecidableEq, Inhabited

/-- Why a rule text cannot be read. Lines are counted from 1. -/
inductive Fault where
  /-- The text has `size` characters, which is over the limit. -/
  | tooLarge (size : Nat) (max : UInt64)
  /-- The line has `found` words. -/
  | wordCount (line found : Nat)
  /-- The fifth word is none of the two markers. -/
  | direction (line : Nat) (word left right : String)
  /-- The word for a symbol is not one character. -/
  | symbol (line : Nat) (field : SymbolField) (word : String)
deriving DecidableEq, Inhabited

/-- The name of a symbol in a message. -/
def SymbolField.name : SymbolField → String
  | current => "current"
  | new => "new"

/-- The text that reports a fault. -/
def Fault.message : Fault → String
  | tooLarge size max => s!"Transition rules are {size} characters. Maximum is {max}"
  | wordCount line found =>
    s!"Line {line}: expected 5 elements (currentState currentSymbol newState newSymbol " ++
      s!"moveDirection), got {found}"
  | direction line word left right =>
    s!"Line {line}: invalid move direction " ++ Text.quote word ++ ", must be " ++
      Text.quote left ++ " or " ++ Text.quote right
  | symbol line field word =>
    s!"Line {line}: invalid " ++ field.name ++ " symbol " ++ Text.quote word ++
      ", must be a single character"

/-- The move that a word stands for. -/
def parseDirection (s : Settings) (line : Nat) (word : String) : Except Fault Direction :=
  if word = s.left then .ok .left
  else if word = s.right then .ok .right
  else .error (.direction line word s.left s.right)

/-- The symbol that a word of one character stands for. -/
def parseSymbol (line : Nat) (field : SymbolField) : List Char → Except Fault Char
  | [c] => .ok c
  | word => .error (.symbol line field (String.ofList word))

/-- The rule that the words of a line make. The move is looked at before the symbols. -/
def ofWords (s : Settings) (line : Nat) : List (List Char) → Except Fault Rule
  | [state, symbol, newState, newSymbol, move] => do
    let direction ← parseDirection s line (String.ofList move)
    let symbol ← parseSymbol line .current symbol
    let newSymbol ← parseSymbol line .new newSymbol
    return {
      state := String.ofList state
      symbol := symbol
      action := {
        newState := String.ofList newState
        newSymbol := newSymbol
        direction := direction } }
  | words => .error (.wordCount line words.length)

/-- What a line says, without white space at its ends: nothing if it is empty or a comment. -/
def significant? (s : Settings) (line : List Char) : Option (List Char) :=
  let content := Text.trim line
  if content.isEmpty || s.commentMark.toList.isPrefixOf content then none else some content

/-- The rule on a line; `none` if the line has no rule. -/
def parseLine (s : Settings) (number : Nat) (line : List Char) : Except Fault (Option Rule) :=
  match significant? s line with
  | none => .ok none
  | some content =>
    (ofWords s number (Text.words (Text.before s.commentMark.toList content))).map some

/-- Reads the lines from number `number` on, with the rules found so far in `found`, last first. -/
def parseLines (s : Settings) (number : Nat) (found : List Rule) :
    List (List Char) → Except Fault (List Rule)
  | [] => .ok found.reverse
  | line :: rest =>
    match parseLine s number line with
    | .error fault => .error fault
    | .ok none => parseLines s (number + 1) found rest
    | .ok (some rule) => parseLines s (number + 1) (rule :: found) rest

/-- The rules of a text, in order. -/
def parse (s : Settings) (text : String) : Except Fault (List Rule) :=
  if s.maxRulesSize.toNat < text.length then .error (.tooLarge text.length s.maxRulesSize)
  else parseLines s 1 [] (Text.lines text.toList)

/-- The text of a list of rules: one line for each. -/
def renderAll (s : Settings) (rules : List Rule) : String :=
  "\n".intercalate (rules.map (renderWith s.left s.right))

end TapeMachine.Rule
