/-!
# Lines and marks

A text is cut into lines at its line feeds, and a line is cut before the first occurrence of a mark
such as the start of a comment.
-/

namespace TapeMachine.Text

/-- One character in front of a text whose first line is `split.1` and whose other lines are
`split.2`. -/
def splitLine (c : Char) (split : List Char × List (List Char)) : List Char × List (List Char) :=
  if c = '\n' then ([], split.1 :: split.2) else (c :: split.1, split.2)

/-- The lines of a text, without their line feeds. A text that ends with a line feed has an empty
last line. -/
def lines (text : List Char) : List (List Char) :=
  let split := text.foldr splitLine ([], [])
  split.1 :: split.2

/-- `cutBefore mark seen text` is `seen` reversed, followed by what comes before the first
occurrence of `mark` in `text`, or by all of `text` if the mark does not occur. -/
def cutBefore (mark seen : List Char) : List Char → List Char
  | [] => seen.reverse
  | c :: rest =>
    if mark.isPrefixOf (c :: rest) then seen.reverse else cutBefore mark (c :: seen) rest

/-- What comes before the first occurrence of `mark`; the whole text if there is none. -/
def before (mark text : List Char) : List Char :=
  cutBefore mark [] text

end TapeMachine.Text
