/-!
# Rules

A rule of a Turing machine: in one state, reading one symbol, it tells what to write, where
to move and how to go on.
-/

namespace TapeMachine

/-- Where the head moves. -/
inductive Direction where
  | left
  | right
deriving DecidableEq, Inhabited

/-- The change of the head's address. -/
def Direction.offset : Direction → Int
  | left => -1
  | right => 1

/-- What a rule does: the state it goes on in, the symbol it writes and the move it makes. -/
structure Action where
  newState : String
  newSymbol : Char
  direction : Direction
deriving DecidableEq, Inhabited

/-- A rule: the state and the symbol it is for, and what it does. -/
structure Rule where
  state : String
  symbol : Char
  action : Action
deriving DecidableEq, Inhabited

namespace Rule

/-- A rule as a line of text, with the given words for the two moves. -/
def renderWith (left right : String) (r : Rule) : String :=
  r.state ++ " " ++ r.symbol.toString ++ " " ++ r.action.newState ++ " " ++
    r.action.newSymbol.toString ++ " " ++
    match r.action.direction with
    | .left => left
    | .right => right

/-- A rule as a line of text, with `L` and `R` for the moves. -/
def render (r : Rule) : String :=
  r.renderWith "L" "R"

end Rule

end TapeMachine
