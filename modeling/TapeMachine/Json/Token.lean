import TapeMachine.Json.Number
import TapeMachine.Json.Piece

/-!
# JSON tokens

A document is a sequence of tokens with blanks between them. `Json.tokens?` finds them; what they
mean together is left to the reader.
-/

namespace TapeMachine.Json

/-- A token. Strings, numbers and the three names are complete values. -/
inductive Token where
  | openArray
  | closeArray
  | openObject
  | closeObject
  | comma
  | colon
  | scalar (value : Json)
deriving Inhabited

/-- The blanks between tokens. -/
def isBlank (c : Char) : Bool :=
  c = ' ' || c = '\t' || c = '\n' || c = '\r'

/-- Takes a token off a text. -/
def takeToken? : List Char → Option (Token × List Char)
  | '[' :: rest => some (.openArray, rest)
  | ']' :: rest => some (.closeArray, rest)
  | '\x7b' :: rest => some (.openObject, rest)
  | '\x7d' :: rest => some (.closeObject, rest)
  | ',' :: rest => some (.comma, rest)
  | ':' :: rest => some (.colon, rest)
  | '"' :: rest => (readPieces [] rest).map fun (pieces, rest) => (.scalar (ofPieces pieces), rest)
  | 'n' :: 'u' :: 'l' :: 'l' :: rest => some (.scalar null, rest)
  | 't' :: 'r' :: 'u' :: 'e' :: rest => some (.scalar (bool true), rest)
  | 'f' :: 'a' :: 'l' :: 's' :: 'e' :: rest => some (.scalar (bool false), rest)
  | cs => (takeNumber? cs).map fun (literal, rest) =>
    (.scalar (number (String.ofList literal)), rest)

/-- Every token takes characters. -/
theorem length_of_takeToken? {cs : List Char} {p : Token × List Char}
    (h : takeToken? cs = some p) : p.2.length < cs.length := by
  unfold takeToken? at h
  split at h
  case h_7 =>
    obtain ⟨q, hq, rfl⟩ := Option.map_eq_some_iff.1 h
    have := length_of_readPieces hq
    simp only [List.length_cons]
    omega
  case h_11 =>
    obtain ⟨q, hq, rfl⟩ := Option.map_eq_some_iff.1 h
    exact length_of_takeNumber? hq
  all_goals
    simp only [Option.some.injEq] at h
    subst h
    simp only [List.length_cons]
    omega

/-- The tokens of a text, with those before it in `seen`, last first. -/
def tokensFrom? (seen : List Token) (cs : List Char) : Option (List Token) :=
  match cs with
  | [] => some seen.reverse
  | c :: rest =>
    if isBlank c then tokensFrom? seen rest
    else match _htoken : takeToken? (c :: rest) with
      | some (token, rest) => tokensFrom? (token :: seen) rest
      | none => none
termination_by cs.length
decreasing_by
  · simp
  · exact length_of_takeToken? _htoken

/-- The tokens of a text. -/
def tokens? (cs : List Char) : Option (List Token) :=
  tokensFrom? [] cs

end TapeMachine.Json
