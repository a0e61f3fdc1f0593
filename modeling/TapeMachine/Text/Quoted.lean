import TapeMachine.Text.Extender
import TapeMachine.Text.Unprintable

/-!
# Quoted text

How messages quote a text or a symbol so that nothing in it can be overlooked: the common control
characters and the backslash have short escapes, and every other character that has no printed form,
or would merge with its neighbour, is written as its code point.
-/

namespace TapeMachine.Text

/-- The code point of a character as an escape with braces, in lower-case hexadecimal. -/
def codePointEscape (c : Char) : List Char :=
  ['\\', 'u', '\x7b'] ++ Nat.toDigits 16 c.toNat ++ ['\x7d']

/-- A character as it stands between two `mark`s, which is itself escaped. -/
def escapeChar (mark c : Char) : List Char :=
  if c = '\x00' then ['\\', '0']
  else if c = '\t' then ['\\', 't']
  else if c = '\n' then ['\\', 'n']
  else if c = '\r' then ['\\', 'r']
  else if c = '\\' || c = mark then ['\\', c]
  else if isExtender c || isUnprintable c then codePointEscape c
  else [c]

/-- A text between double quotation marks. -/
def quote (text : String) : String :=
  String.ofList ('"' :: text.toList.flatMap (escapeChar '"') ++ ['"'])

/-- A symbol between single quotation marks. -/
def quoteSymbol (c : Char) : String :=
  String.ofList ('\x27' :: escapeChar '\x27' c ++ ['\x27'])

end TapeMachine.Text
