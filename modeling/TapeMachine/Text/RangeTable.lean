/-!
# Tables of code-point ranges

A character property is stored as the ascending array of the ranges that have it.
`RangeTable.contains` finds a code point by bisection.
-/

namespace TapeMachine.Text

/-- Disjoint ranges `(first, last)` in ascending order. -/
abbrev RangeTable := Array (Nat × Nat)

namespace RangeTable

/-- Looks for `n` among the ranges `lo, …, hi - 1`, halving that interval every time. -/
def containsWithin (table : RangeTable) (n lo hi : Nat) : Bool :=
  if _h : lo < hi then
    let mid := (lo + hi) / 2
    match table[mid]? with
    | none => false
    | some (first, last) =>
      if n < first then table.containsWithin n lo mid
      else if last < n then table.containsWithin n (mid + 1) hi
      else true
  else false
termination_by hi - lo

/-- Whether some range of the table holds `n`. -/
def contains (table : RangeTable) (n : Nat) : Bool :=
  table.containsWithin n 0 table.size

end RangeTable

end TapeMachine.Text
