import Mathlib.Logic.Function.Basic
import TapeMachine.Tape

/-!
# Renamed tapes

The symbols of a tape can be replaced by others, the blank among them. As long as different symbols
stay different, the renamed tape stores the same cells, is written like the tape that it comes from,
and its text is the renamed text.
-/

namespace TapeMachine.Tape

/-- The tape with every stored symbol replaced. -/
def map (p : Char → Char) (t : Tape) : Tape :=
  ⟨t.cells.map fun _ symbol => p symbol⟩

variable (p : Char → Char) (t : Tape) (blank : Char)

theorem getElem?_map (a : Int) : (t.map p).cells[a]? = t.cells[a]?.map p :=
  Std.ExtTreeMap.getElem?_map

theorem map_empty : empty.map p = empty := by
  rw [map, empty, mk.injEq, Std.ExtTreeMap.map_eq_empty_iff]

theorem read_map (a : Int) : (t.map p).read (p blank) a = p (t.read blank a) := by
  simp only [read, Std.ExtTreeMap.getD_eq_getD_getElem?, getElem?_map]
  cases t.cells[a]? with
  | none => rfl
  | some c => rfl

/-! ## Text -/

theorem first?_map : (t.map p).first? = t.first? := by
  rw [first?, first?, Std.ExtTreeMap.minKey?_eq_head?_keys, Std.ExtTreeMap.minKey?_eq_head?_keys,
    map, Std.ExtTreeMap.keys_map]

theorem last?_map : (t.map p).last? = t.last? := by
  apply Option.ext
  intro a
  simp only [last?, map, Std.ExtTreeMap.maxKey?_eq_some_iff_mem_and_forall, Std.ExtTreeMap.mem_map]

theorem slice_map (lo hi : Int) :
    (t.map p).slice (p blank) lo hi = (t.slice blank lo hi).map p := by
  simp only [slice, List.map_map, Function.comp_def, read_map]

theorem text_map : (t.map p).text (p blank) = (t.text blank).map p := by
  apply String.toList_injective
  rw [text, text, first?_map, last?_map, String.toList_map]
  cases t.first? with
  | none => rfl
  | some lo =>
    cases t.last? with
    | none => rfl
    | some hi => simp only [String.toList_ofList, slice_map]

/-! ## Writing -/

section Writing

variable {p} (hp : Function.Injective p)
include hp

theorem write_map (a : Int) (c : Char) :
    (t.map p).write (p blank) a (p c) = (t.write blank a c).map p := by
  have hcells : ((t.map p).write (p blank) a (p c)).cells = ((t.write blank a c).map p).cells := by
    apply Std.ExtTreeMap.ext_getElem?
    intro b
    rw [getElem?_map, write, write]
    by_cases hc : c = blank
    · rw [if_pos (congrArg p hc), if_pos hc]
      simp only [Std.ExtTreeMap.getElem?_erase, getElem?_map]
      split <;> rfl
    · rw [if_neg (hp.ne hc), if_neg hc]
      simp only [Std.ExtTreeMap.getElem?_insert, getElem?_map]
      split <;> rfl
  exact congrArg mk hcells

theorem writeAll_map (a : Int) (symbols : List Char) :
    (t.map p).writeAll (p blank) a (symbols.map p) = (t.writeAll blank a symbols).map p := by
  induction symbols generalizing t a with
  | nil => rfl
  | cons c rest ih => rw [List.map_cons, writeAll, writeAll, write_map t blank hp, ih]

theorem ofInput_map (input : String) :
    ofInput (p blank) (input.map p) = (ofInput blank input).map p := by
  rw [ofInput, ofInput, String.toList_map, ← writeAll_map empty blank hp, map_empty]

end Writing

end TapeMachine.Tape
