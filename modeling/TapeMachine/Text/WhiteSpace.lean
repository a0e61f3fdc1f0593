/-!
# White space

The characters with the Unicode property `White_Space`, and the two operations that look at them:
`trim` takes them off both ends of a text, and `words` splits a text into its maximal runs of other
characters.
-/

namespace TapeMachine.Text

/-- The property `White_Space`: U+0009 to U+000D, the space, U+0085, U+00A0, U+1680, U+2000 to
U+200A, U+2028, U+2029, U+202F, U+205F and U+3000. -/
def isWhiteSpace (c : Char) : Bool :=
  let n := c.toNat
  (0x09 ≤ n && n ≤ 0x0D) || n == 0x20 || n == 0x85 || n == 0xA0 || n == 0x1680 ||
    (0x2000 ≤ n && n ≤ 0x200A) || n == 0x2028 || n == 0x2029 || n == 0x202F || n == 0x205F ||
    n == 0x3000

/-- The text without the white space at its two ends. -/
def trim (text : List Char) : List Char :=
  ((text.dropWhile isWhiteSpace).reverse.dropWhile isWhiteSpace).reverse

/-- Puts a word in front of a list of words; the empty word is no word. -/
def consWord (word : List Char) (rest : List (List Char)) : List (List Char) :=
  if word.isEmpty then rest else word :: rest

/-- One character in front of a text that begins with the unfinished word `split.1` and has the
words `split.2` after it. -/
def splitWord (c : Char) (split : List Char × List (List Char)) : List Char × List (List Char) :=
  if isWhiteSpace c then ([], consWord split.1 split.2) else (c :: split.1, split.2)

/-- The maximal runs of characters that are not white space, in order. -/
def words (text : List Char) : List (List Char) :=
  let split := text.foldr splitWord ([], [])
  consWord split.1 split.2

end TapeMachine.Text
