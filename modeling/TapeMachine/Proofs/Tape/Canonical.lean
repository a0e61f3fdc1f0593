import TapeMachine.Tape

/-!
# Canonical tapes

The store of a tape holds no blank as long as tapes are made of inputs and changed by writing only:
`Tape.Canonical` is kept by every operation. A canonical tape has no stored blanks to drop, and it
is the only one that reads as it does.
-/

namespace TapeMachine.Tape

/-- No stored cell holds the blank symbol. -/
def Canonical (t : Tape) (blank : Char) : Prop :=
  ∀ a : Int, t.cells[a]? ≠ some blank

/-- A tape is told by its cells in order. -/
theorem toList_inj {t t' : Tape} : t.toList = t'.toList ↔ t = t' := by
  rw [toList, toList, Std.ExtTreeMap.toList_inj]
  exact ⟨congrArg mk, congrArg cells⟩

theorem canonical_empty (blank : Char) : empty.Canonical blank := by
  intro a
  simp [empty]

/-- Writing keeps blanks out of the store: a blank is erased, and anything else is no blank. -/
theorem Canonical.write {t : Tape} {blank : Char} (h : t.Canonical blank) (a : Int) (c : Char) :
    (t.write blank a c).Canonical blank := by
  intro b
  unfold Tape.write
  by_cases hc : c = blank
  · rw [if_pos hc, Std.ExtTreeMap.getElem?_erase]
    split
    · simp
    · exact h b
  · rw [if_neg hc, Std.ExtTreeMap.getElem?_insert]
    split
    · simpa using hc
    · exact h b

theorem Canonical.writeAll {t : Tape} {blank : Char} (h : t.Canonical blank) (a : Int)
    (symbols : List Char) : (t.writeAll blank a symbols).Canonical blank := by
  induction symbols generalizing t a with
  | nil => exact h
  | cons c rest ih => exact ih (h.write a c) (a + 1)

theorem canonical_ofInput (blank : Char) (input : String) :
    (ofInput blank input).Canonical blank :=
  (canonical_empty blank).writeAll 0 input.toList

theorem Canonical.dropBlanks_eq {t : Tape} {blank : Char} (h : t.Canonical blank) :
    t.dropBlanks blank = t := by
  obtain ⟨cells⟩ := t
  have hcells : cells.filter (fun _ symbol => symbol != blank) = cells := by
    apply Std.ExtTreeMap.ext_getElem?
    intro a
    rw [Std.ExtTreeMap.getElem?_filter']
    cases ha : cells[a]? with
    | none => rfl
    | some c =>
      have hc : c ≠ blank := fun hcb => h a (hcb ▸ ha)
      simp [Option.filter, hc]
  rw [dropBlanks, hcells]

theorem canonical_dropBlanks (t : Tape) (blank : Char) : (t.dropBlanks blank).Canonical blank := by
  intro a
  rw [dropBlanks, Std.ExtTreeMap.getElem?_filter']
  cases t.cells[a]? with
  | none => simp
  | some c => simp [Option.filter]

theorem read_eq_of_getElem? {t : Tape} {a : Int} {c : Char} (h : t.cells[a]? = some c)
    (blank : Char) :
    t.read blank a = c := by
  rw [read, Std.ExtTreeMap.getD_eq_getD_getElem?, h, Option.getD_some]

/-- A canonical tape stores just the cells that do not read as blank. -/
theorem Canonical.getElem?_eq {t : Tape} {blank : Char} (h : t.Canonical blank) (a : Int) :
    t.cells[a]? = if t.read blank a = blank then none else some (t.read blank a) := by
  cases ha : t.cells[a]? with
  | none => simp [read, Std.ExtTreeMap.getD_eq_getD_getElem?, ha]
  | some c =>
    have hc : c ≠ blank := fun hcb => h a (hcb ▸ ha)
    rw [read_eq_of_getElem? ha, if_neg hc]

/-- Canonical tapes are told by their view. -/
theorem Canonical.cells_eq_iff {t t' : Tape} {blank : Char} (h : t.Canonical blank)
    (h' : t'.Canonical blank) : t.cells = t'.cells ↔ ∀ a, t.read blank a = t'.read blank a := by
  constructor
  · intro hcells a
    rw [read, read, hcells]
  · intro hread
    apply Std.ExtTreeMap.ext_getElem?
    intro a
    rw [h.getElem?_eq, h'.getElem?_eq, hread]

end TapeMachine.Tape
