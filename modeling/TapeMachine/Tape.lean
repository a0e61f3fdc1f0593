import Std.Data.ExtTreeMap

/-!
# Tapes

A tape is unbounded on both sides, and all but finitely many of its cells are blank. A `Tape` stores
some cells by their addresses; every other cell holds the blank symbol, which the operations take as
an argument. `Tape.read` is the view of a tape as a function on all addresses.
-/

namespace TapeMachine

/-- The stored cells of a tape, by address. -/
structure Tape where
  cells : Std.ExtTreeMap Int Char
deriving DecidableEq

namespace Tape

/-- The tape that stores no cell. -/
def empty : Tape :=
  ⟨∅⟩

instance : Inhabited Tape := ⟨empty⟩

/-- The symbol at an address. -/
def read (t : Tape) (blank : Char) (address : Int) : Char :=
  t.cells.getD address blank

/-- Writes a symbol at an address. Writing the blank takes the cell out of the store. -/
def write (t : Tape) (blank : Char) (address : Int) (symbol : Char) : Tape :=
  if symbol = blank then ⟨t.cells.erase address⟩ else ⟨t.cells.insert address symbol⟩

/-- The tape without its stored blanks. -/
def dropBlanks (t : Tape) (blank : Char) : Tape :=
  ⟨t.cells.filter fun _ symbol => symbol != blank⟩

/-- The tape with the symbols of a text from address `address` on. -/
def writeAll (t : Tape) (blank : Char) (address : Int) : List Char → Tape
  | [] => t
  | symbol :: rest => (t.write blank address symbol).writeAll blank (address + 1) rest

/-- The tape that holds an input text from address 0 on. -/
def ofInput (blank : Char) (input : String) : Tape :=
  empty.writeAll blank 0 input.toList

/-- The tape with these cells; of two with one address, the last counts. -/
def ofCells (cells : List (Int × Char)) : Tape :=
  ⟨.ofList cells⟩

/-- The stored cells, by ascending address. -/
def toList (t : Tape) : List (Int × Char) :=
  t.cells.toList

/-- The number of stored cells. -/
def size (t : Tape) : Nat :=
  t.cells.size

/-- The least stored address. -/
def first? (t : Tape) : Option Int :=
  t.cells.minKey?

/-- The greatest stored address. -/
def last? (t : Tape) : Option Int :=
  t.cells.maxKey?

/-- The symbols from address `lo` to address `hi`, both included. -/
def slice (t : Tape) (blank : Char) (lo hi : Int) : List Char :=
  (List.range (hi + 1 - lo).toNat).map fun (i : Nat) => t.read blank (lo + i)

/-- The text from the first stored cell to the last; empty if no cell is stored. -/
def text (t : Tape) (blank : Char) : String :=
  match t.first?, t.last? with
  | some lo, some hi => String.ofList (t.slice blank lo hi)
  | _, _ => ""

/-! ## What the operations do to the view -/

@[simp]
theorem read_empty (blank : Char) (a : Int) : empty.read blank a = blank := by
  simp [empty, read]

/-- A cell reads as what was written there last. -/
theorem read_write (t : Tape) (blank symbol : Char) (a b : Int) :
    (t.write blank a symbol).read blank b = if b = a then symbol else t.read blank b := by
  unfold write
  by_cases hs : symbol = blank
  · by_cases hb : b = a
    · simp [read, hs, hb]
    · simp [read, hs, hb, Std.ExtTreeMap.getD_erase, Ne.symm hb]
  · by_cases hb : b = a
    · simp [read, hs, hb]
    · simp [read, hs, hb, Std.ExtTreeMap.getD_insert, Ne.symm hb]

/-- A stored blank reads like a cell that is not stored. -/
theorem read_dropBlanks (t : Tape) (blank : Char) (a : Int) :
    (t.dropBlanks blank).read blank a = t.read blank a := by
  simp only [dropBlanks, read, Std.ExtTreeMap.getD_eq_getD_getElem?,
    Std.ExtTreeMap.getElem?_filter']
  cases t.cells[a]? with
  | none => rfl
  | some c => by_cases hc : c = blank <;> simp [Option.filter, hc]

/-- Writing a text changes the cells under its symbols. -/
theorem read_writeAll (t : Tape) (blank : Char) (k a : Int) (symbols : List Char) :
    (t.writeAll blank k symbols).read blank a =
      (if k ≤ a then symbols[(a - k).toNat]? else none).getD (t.read blank a) := by
  induction symbols generalizing t k with
  | nil => simp [writeAll]
  | cons symbol rest ih =>
    rw [writeAll, ih, read_write]
    by_cases hlt : a < k
    · rw [if_neg (by omega), if_neg (by omega), if_neg (by omega)]
    by_cases heq : a = k
    · subst heq
      rw [if_neg (by omega), if_pos rfl, if_pos (by omega), Int.sub_self]
      rfl
    · have hsucc : (a - k).toNat = (a - (k + 1)).toNat + 1 := by omega
      rw [if_pos (by omega), if_neg heq, if_pos (by omega), hsucc, List.getElem?_cons_succ]

end Tape

end TapeMachine
