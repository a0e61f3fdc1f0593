/-!
# Memory sizes

A number of bytes as megabytes with two decimal places.
-/

namespace TapeMachine.Shell

/-- The quotient rounded to the nearest integer, a half to the even one. -/
def divRound (n d : Nat) : Nat :=
  let q := n / d
  let r := n % d
  if d < 2 * r || (2 * r = d && q % 2 = 1) then q + 1 else q

/-- The nearest number with 53 significant binary digits, a half to the even one. -/
def roundSignificand (n : Nat) : Nat :=
  let excess := n.log2 - 52
  divRound n (1 <<< excess) <<< excess

/-- A number of hundredths with a decimal point. -/
def renderHundredths (n : Nat) : String :=
  let places := toString (n % 100)
  toString (n / 100) ++ "." ++ (if n % 100 < 10 then "0" ++ places else places)

/-- The memory in use, in megabytes of `2 ^ 20` bytes; `n/a` if it is not known. Bytes are counted
with 53 significant binary digits. -/
def renderMemory : Option UInt64 → String
  | some bytes =>
    renderHundredths (divRound (roundSignificand bytes.toNat * 100) (1 <<< 20)) ++ "MB"
  | none => "n/a"

end TapeMachine.Shell
