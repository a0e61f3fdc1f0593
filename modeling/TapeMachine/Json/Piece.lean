import TapeMachine.Json.Value

/-!
# Strings in JSON

Between its quotation marks a string is a sequence of pieces: characters, and 16-bit units named by
escapes. `Json.readPieces` takes them off a text and `Json.joinPieces` puts surrogates together.
-/

namespace TapeMachine.Json

/-- A part of a string: a character, or a 16-bit unit that an escape names. -/
inductive Piece where
  | plain (c : Char)
  | codeUnit (value : Nat)
deriving DecidableEq, Inhabited

/-- The value of a hexadecimal digit. -/
def hexValue? (c : Char) : Option Nat :=
  if c.isDigit then some (c.toNat - '0'.toNat)
  else if 'a' ≤ c && c ≤ 'f' then some (c.toNat - 'a'.toNat + 10)
  else if 'A' ≤ c && c ≤ 'F' then some (c.toNat - 'A'.toNat + 10)
  else none

/-- The unit that four hexadecimal digits name. -/
def codeUnit? (a b c d : Char) : Option Piece := do
  let a ← hexValue? a
  let b ← hexValue? b
  let c ← hexValue? c
  let d ← hexValue? d
  return .codeUnit (((a * 16 + b) * 16 + c) * 16 + d)

/-- The character that a backslash and this one stand for. -/
def escaped? (c : Char) : Option Piece :=
  if c = '"' || c = '\\' || c = '/' then some (.plain c)
  else if c = 'b' then some (.plain '\x08')
  else if c = 'f' then some (.plain '\x0c')
  else if c = 'n' then some (.plain '\n')
  else if c = 'r' then some (.plain '\r')
  else if c = 't' then some (.plain '\t')
  else none

/-- Reads up to the end of a string, with the pieces before it in `seen`, last first. -/
def readPieces (seen : List Piece) : List Char → Option (List Piece × List Char)
  | [] => none
  | '"' :: rest => some (seen.reverse, rest)
  | '\\' :: 'u' :: a :: b :: c :: d :: rest =>
    match codeUnit? a b c d with
    | some piece => readPieces (piece :: seen) rest
    | none => none
  | '\\' :: c :: rest =>
    match escaped? c with
    | some piece => readPieces (piece :: seen) rest
    | none => none
  | c :: rest =>
    if c.toNat < 0x20 || c = '\\' then none else readPieces (.plain c :: seen) rest

/-- The text of a string, with what comes before these pieces in `seen`, last first. There is none
if a surrogate stands without its partner. -/
def joinPieces (seen : List Char) : List Piece → Option (List Char)
  | [] => some seen.reverse
  | .plain c :: rest => joinPieces (c :: seen) rest
  | .codeUnit high :: .codeUnit low :: rest =>
    if 0xD800 ≤ high && high < 0xDC00 && 0xDC00 ≤ low && low < 0xE000 then
      joinPieces (Char.ofNat (0x10000 + (high - 0xD800) * 0x400 + (low - 0xDC00)) :: seen) rest
    else if 0xD800 ≤ high && high < 0xE000 then none
    else joinPieces (Char.ofNat high :: seen) (.codeUnit low :: rest)
  | .codeUnit value :: rest =>
    if 0xD800 ≤ value && value < 0xE000 then none
    else joinPieces (Char.ofNat value :: seen) rest

/-- The value of a string. -/
def ofPieces (pieces : List Piece) : Json :=
  string ((joinPieces [] pieces).map String.ofList)

/-- Reading a string takes characters. -/
theorem length_of_readPieces {seen : List Piece} {cs : List Char} {p : List Piece × List Char}
    (h : readPieces seen cs = some p) : p.2.length < cs.length := by
  fun_induction readPieces seen cs with
  | case1 => simp at h
  | case2 =>
    simp only [Option.some.injEq] at h
    simp [← h]
  | case3 | case5 | case8 =>
    rename_i ih
    have := ih h
    simp only [List.length_cons]
    omega
  | case4 | case6 | case7 => simp at h

end TapeMachine.Json
