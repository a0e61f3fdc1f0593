import Mathlib.Logic.Equiv.Defs
import TapeMachine.Proofs.Tape.Slices

/-!
# Symmetries of the line of addresses

A tape has no distinguished cell and no distinguished direction. Its cells can be given other
addresses, as long as neighbours stay neighbours (`Symmetry`): a shift keeps the two directions, a
mirror exchanges them. The moved tape is written like the tape that it comes from, at the new
addresses, and what is read off a tape is the same after a shift and backwards in a mirror.

## Main definitions

- `Symmetry`: other addresses, with what they make of the directions
- `Symmetry.shift`, `Symmetry.mirror`: all cells to the right by some distance, and
  left and right exchanged
- `Tape.moved`: the tape at the other addresses
-/

namespace TapeMachine

/-- Other addresses for all cells. A move in a direction is a move in the direction
that takes its place. -/
structure Symmetry where
  address : Int ≃ Int
  turn : Direction → Direction
  address_add_offset : ∀ a d, address (a + d.offset) = address a + (turn d).offset

namespace Symmetry

/-- All cells go to the right by `d`, or to the left if `d` is negative. -/
def shift (d : Int) : Symmetry where
  address := ⟨fun a => a + d, fun a => a - d, fun a => Int.add_sub_cancel a d,
    fun a => Int.sub_add_cancel a d⟩
  turn := id
  address_add_offset a _ := Int.add_right_comm a _ d

/-- The cells to the left and to the right of address 0 change places. -/
def mirror : Symmetry where
  address := ⟨fun a => -a, fun a => -a, Int.neg_neg, Int.neg_neg⟩
  turn := Direction.opposite
  address_add_offset a d := by
    rw [d.offset_opposite]
    exact Int.neg_add

@[simp]
theorem shift_address (d a : Int) : (shift d).address a = a + d :=
  rfl

@[simp]
theorem mirror_address (a : Int) : mirror.address a = -a :=
  rfl

end Symmetry

namespace Tape

variable {σ : Symmetry} {t t' : Tape} {blank : Char} {lo hi a d : Int}

/-- The tape with its cells at other addresses. -/
def moved (σ : Symmetry) (t : Tape) : Tape :=
  ofCells (t.toList.map fun cell => (σ.address cell.1, cell.2))

theorem getElem?_moved (σ : Symmetry) (t : Tape) (a : Int) :
    (t.moved σ).cells[σ.address a]? = t.cells[a]? := by
  rw [moved, ofCells, toList]
  cases ha : t.cells[a]? with
  | none =>
    apply Std.ExtTreeMap.getElem?_ofList_of_contains_eq_false
    rw [List.map_map, Bool.eq_false_iff, Ne, List.contains_iff_mem, List.mem_map]
    rintro ⟨⟨b, c⟩, hcell, heq⟩
    obtain rfl : b = a := σ.address.injective heq
    rw [Std.ExtTreeMap.mem_toList_iff_getElem?_eq_some, ha] at hcell
    cases hcell
  | some c =>
    refine Std.ExtTreeMap.getElem?_ofList_of_mem Std.ReflCmp.compare_self ?_ ?_
    · refine List.pairwise_map.2 (Std.ExtTreeMap.distinct_keys_toList.imp ?_)
      intro x y hxy heq
      exact hxy (by simpa using heq)
    · exact List.mem_map.2 ⟨(a, c), Std.ExtTreeMap.mem_toList_iff_getElem?_eq_some.2 ha, rfl⟩

theorem ext_moved (h : ∀ a, t'.cells[σ.address a]? = t.cells[a]?) : t' = t.moved σ := by
  have hcells : t'.cells = (t.moved σ).cells := by
    apply Std.ExtTreeMap.ext_getElem?
    intro b
    obtain ⟨a, rfl⟩ := σ.address.surjective b
    rw [h, getElem?_moved]
  exact congrArg mk hcells

theorem read_moved (σ : Symmetry) (t : Tape) (blank : Char) (a : Int) :
    (t.moved σ).read blank (σ.address a) = t.read blank a := by
  rw [read, read, Std.ExtTreeMap.getD_eq_getD_getElem?, Std.ExtTreeMap.getD_eq_getD_getElem?,
    getElem?_moved]

theorem write_moved (σ : Symmetry) (t : Tape) (blank : Char) (a : Int) (c : Char) :
    (t.moved σ).write blank (σ.address a) c = (t.write blank a c).moved σ := by
  apply ext_moved
  intro b
  rw [write, write]
  by_cases hc : c = blank
  · rw [if_pos hc, if_pos hc]
    simp only [Std.ExtTreeMap.getElem?_erase, getElem?_moved, Std.LawfulEqCmp.compare_eq_iff_eq,
      σ.address.injective.eq_iff]
  · rw [if_neg hc, if_neg hc]
    simp only [Std.ExtTreeMap.getElem?_insert, getElem?_moved, Std.LawfulEqCmp.compare_eq_iff_eq,
      σ.address.injective.eq_iff]

theorem dropBlanks_moved (σ : Symmetry) (t : Tape) (blank : Char) :
    (t.moved σ).dropBlanks blank = (t.dropBlanks blank).moved σ := by
  apply ext_moved
  intro a
  rw [dropBlanks, dropBlanks, Std.ExtTreeMap.getElem?_filter', Std.ExtTreeMap.getElem?_filter',
    getElem?_moved]

theorem Canonical.moved (h : t.Canonical blank) (σ : Symmetry) : (t.moved σ).Canonical blank := by
  intro b
  obtain ⟨a, rfl⟩ := σ.address.surjective b
  rw [getElem?_moved]
  exact h a

theorem Canonical.eq_moved (ht : t.Canonical blank) (ht' : t'.Canonical blank)
    (h : ∀ a, t'.read blank (σ.address a) = t.read blank a) : t' = t.moved σ := by
  apply ext_moved
  intro a
  rw [ht.getElem?_eq, ht'.getElem?_eq, h]

/-! ## Shifted tapes -/

theorem read_shift (t : Tape) (blank : Char) (d a : Int) :
    (t.moved (.shift d)).read blank a = t.read blank (a - d) := by
  rw [← t.read_moved (.shift d), Symmetry.shift_address, Int.sub_add_cancel]

theorem Spans.shift (h : t.Spans blank lo hi) (d : Int) :
    (t.moved (.shift d)).Spans blank (lo + d) (hi + d) := by
  refine ⟨?_, ?_, fun a ha => ?_⟩
  · rw [read_shift, Int.add_sub_cancel]
    exact h.first
  · rw [read_shift, Int.add_sub_cancel]
    exact h.last
  · rw [read_shift] at ha
    have hplace := h.between _ ha
    omega

theorem slice_shift (t : Tape) (blank : Char) (lo hi d : Int) :
    (t.moved (.shift d)).slice blank (lo + d) (hi + d) = t.slice blank lo hi := by
  apply List.ext_getElem
  · rw [length_slice, length_slice]
    omega
  · intro i hi hi'
    have haddress : lo + d + (i : Int) - d = lo + i := by omega
    rw [getElem_slice, getElem_slice, read_shift, haddress]

theorem Canonical.text_shift (h : t.Canonical blank) (d : Int) :
    (t.moved (.shift d)).text blank = t.text blank := by
  obtain ⟨hempty, hblank⟩ | ⟨lo, hi, hspans, htext⟩ := h.text_cases
  · rw [hempty, (h.moved _).text_eq_empty_iff]
    intro a
    rw [read_shift]
    exact hblank _
  · apply String.toList_injective
    rw [htext, (h.moved _).toList_text (hspans.shift d), slice_shift]

/-- Two tapes on which the same word has all of what is written differ by a shift. -/
theorem Faces.eq_moved_shift {a' : Int} {word : List Char} (ht : t.Canonical blank)
    (ht' : t'.Canonical blank) (h : t.Faces blank a .right [] word)
    (h' : t'.Faces blank a' .right [] word) :
    t' = t.moved (.shift (a' - a)) := by
  refine ht.eq_moved ht' fun b => ?_
  have hdistance : b + (a' - a) - a' = b - a := by omega
  have hside : a' ≤ b + (a' - a) ↔ a ≤ b := by omega
  rw [Symmetry.shift_address, h.read_right, h'.read_right, hdistance]
  simp only [hside]

/-! ## Mirrored tapes -/

theorem read_mirror (t : Tape) (blank : Char) (a : Int) :
    (t.moved .mirror).read blank a = t.read blank (-a) := by
  rw [← t.read_moved .mirror, Symmetry.mirror_address, Int.neg_neg]

theorem Spans.mirror (h : t.Spans blank lo hi) : (t.moved .mirror).Spans blank (-hi) (-lo) := by
  refine ⟨?_, ?_, fun a ha => ?_⟩
  · rw [read_mirror, Int.neg_neg]
    exact h.last
  · rw [read_mirror, Int.neg_neg]
    exact h.first
  · rw [read_mirror] at ha
    have hplace := h.between _ ha
    omega

theorem slice_mirror (t : Tape) (blank : Char) (lo hi : Int) :
    (t.moved .mirror).slice blank (-hi) (-lo) = (t.slice blank lo hi).reverse := by
  apply List.ext_getElem
  · rw [List.length_reverse, length_slice, length_slice]
    omega
  · intro i hi' hi''
    have hlt : i < (t.slice blank lo hi).length := by rwa [List.length_reverse] at hi''
    have haddress : -(-hi + (i : Int)) = lo + ((t.slice blank lo hi).length - 1 - i : Nat) := by
      rw [length_slice] at hlt ⊢
      omega
    rw [List.getElem_reverse, getElem_slice, getElem_slice, read_mirror, haddress]

theorem Canonical.toList_text_mirror (h : t.Canonical blank) :
    ((t.moved .mirror).text blank).toList = (t.text blank).toList.reverse := by
  obtain ⟨hempty, hblank⟩ | ⟨lo, hi, hspans, htext⟩ := h.text_cases
  · have hmirrored : (t.moved .mirror).text blank = "" := by
      rw [(h.moved _).text_eq_empty_iff]
      intro a
      rw [read_mirror]
      exact hblank _
    rw [hmirrored, hempty]
    rfl
  · rw [htext, (h.moved _).toList_text hspans.mirror, slice_mirror]

end Tape

end TapeMachine
