/-!
# Numerals

The decimal text of a 64-bit count, as the command line, the interactive commands and JSON write it.
-/

namespace TapeMachine.Text

/-- The value of an ASCII digit. -/
def digitValue? (c : Char) : Option Nat :=
  if c.isDigit then some (c.toNat - '0'.toNat) else none

/-- Reads one more digit after a number, as long as the result is below `2 ^ 64`. -/
def pushDigit (value : Option Nat) (c : Char) : Option Nat := do
  let n ← value
  let d ← digitValue? c
  if n * 10 + d < UInt64.size then some (n * 10 + d) else none

/-- The value of one or more ASCII digits, if it is below `2 ^ 64`. Leading zeros are allowed. -/
def parseDigits? (text : List Char) : Option UInt64 :=
  if text.isEmpty then none else (text.foldl pushDigit (some 0)).map Nat.toUInt64

/-- The value of a numeral: digits with at most one plus sign in front. -/
def parseNumeral? : List Char → Option UInt64
  | '+' :: digits => parseDigits? digits
  | digits => parseDigits? digits

end TapeMachine.Text
