import Mathlib.Data.List.GetD
import Mathlib.Tactic.Ring
import TapeMachine.Proofs.Tape.Extent
import TapeMachine.Rule.Basic

/-!
# A tape seen from a cell

A head that moves over a word leaves the word behind it in reverse. So the tape around a cell is
told by two lists: what is ahead in some direction, the symbol of the cell first, and what is
behind, the nearest symbol first. Beyond both the tape is blank (`Tape.Faces`). Moving on takes a
symbol from the one list to the other, and turning round exchanges the two.
-/

namespace TapeMachine

/-- The direction that a move is taken back in. -/
def Direction.opposite : Direction → Direction
  | left => right
  | right => left

theorem Direction.offset_opposite (d : Direction) : d.opposite.offset = -d.offset := by
  cases d with
  | left => rfl
  | right => rfl

namespace Tape

/-- Looking from address `a` in direction `d`, the tape has the symbols `ahead` from `a` on, and
behind `a`, the nearest first, the symbols `behind`. -/
structure Faces (t : Tape) (blank : Char) (a : Int) (d : Direction)
    (behind ahead : List Char) : Prop where
  ahead : ∀ i : Nat, t.read blank (a + d.offset * i) = ahead.getD i blank
  behind : ∀ i : Nat, t.read blank (a - d.offset * (i + 1)) = behind.getD i blank

variable {t : Tape} {blank c : Char} {a : Int} {d : Direction} {behind ahead word : List Char}

theorem Faces.read_eq (h : t.Faces blank a d behind ahead) :
    t.read blank a = ahead.headD blank := by
  have hzero := h.ahead 0
  rw [Int.natCast_zero, Int.mul_zero, Int.add_zero] at hzero
  rw [hzero]
  cases ahead with
  | nil => rfl
  | cons c ahead => rfl

/-- Moving on. -/
theorem faces_cons_iff :
    t.Faces blank a d behind (c :: ahead) ↔ t.Faces blank (a + d.offset) d (c :: behind) ahead := by
  have hnext (i : Nat) : a + d.offset + d.offset * i = a + d.offset * (i + 1 : Nat) := by
    push_cast
    ring
  have hlast (i : Nat) : a + d.offset - d.offset * ((i : Int) + 1) = a - d.offset * i := by
    ring
  constructor
  · intro h
    refine ⟨fun i => ?_, fun i => ?_⟩
    · rw [hnext]
      exact h.ahead (i + 1)
    · rw [hlast]
      cases i with
      | zero => simpa using h.ahead 0
      | succ i => simpa using h.behind i
  · intro h
    refine ⟨fun i => ?_, fun i => ?_⟩
    · cases i with
      | zero => simpa [hlast] using h.behind 0
      | succ i =>
        rw [← hnext]
        exact h.ahead i
    · have := h.behind (i + 1)
      rw [hlast] at this
      simpa using this

/-- Turning round, with a step to what was behind. -/
theorem faces_turn_iff :
    t.Faces blank a d behind ahead ↔ t.Faces blank (a - d.offset) d.opposite ahead behind := by
  have hahead (i : Nat) : a - d.offset + d.opposite.offset * i = a - d.offset * (i + 1) := by
    rw [d.offset_opposite]
    ring
  have hbehind (i : Nat) : a - d.offset - d.opposite.offset * (i + 1) = a + d.offset * i := by
    rw [d.offset_opposite]
    ring
  constructor
  · intro h
    refine ⟨fun i => ?_, fun i => ?_⟩
    · rw [hahead]
      exact h.behind i
    · rw [hbehind]
      exact h.ahead i
  · intro h
    refine ⟨fun i => ?_, fun i => ?_⟩
    · rw [← hbehind]
      exact h.behind i
    · rw [← hahead]
      exact h.ahead i

/-- A blank at the far end says nothing. -/
theorem faces_behind_blank_iff : t.Faces blank a d [blank] ahead ↔ t.Faces blank a d [] ahead := by
  have hgetD (i : Nat) : [blank].getD i blank = [].getD i blank := by
    cases i with
    | zero => rfl
    | succ i => rfl
  constructor
  · intro h
    exact ⟨h.ahead, fun i => (h.behind i).trans (hgetD i)⟩
  · intro h
    exact ⟨h.ahead, fun i => (h.behind i).trans (hgetD i).symm⟩

/-- Writing replaces the symbol of the cell. -/
theorem Faces.write (h : t.Faces blank a d behind ahead) (c : Char) :
    (t.write blank a c).Faces blank a d behind (c :: ahead.tail) := by
  have hoffset : d.offset = 1 ∨ d.offset = -1 := by
    cases d with
    | left => exact .inr rfl
    | right => exact .inl rfl
  refine ⟨fun i => ?_, fun i => ?_⟩
  · rw [read_write]
    cases i with
    | zero => simp
    | succ i =>
      have hne : a + d.offset * (i + 1 : Nat) ≠ a := by
        obtain ho | ho := hoffset <;> rw [ho] <;> omega
      rw [if_neg hne, h.ahead]
      cases ahead with
      | nil => rfl
      | cons c ahead => rfl
  · have hne : a - d.offset * ((i : Int) + 1) ≠ a := by
      obtain ho | ho := hoffset <;> rw [ho] <;> omega
    rw [read_write, if_neg hne, h.behind]

theorem faces_writeAll (blank : Char) (a : Int) (symbols : List Char) :
    (empty.writeAll blank a symbols).Faces blank a .right [] symbols := by
  refine ⟨fun i => ?_, fun i => ?_⟩
  · have hahead : a ≤ a + Direction.right.offset * i := by
      rw [Direction.offset]
      omega
    have hindex : (a + Direction.right.offset * i - a).toNat = i := by
      rw [Direction.offset]
      omega
    rw [read_writeAll, if_pos hahead, hindex, read_empty, List.getD_eq_getElem?_getD]
  · have hbehind : ¬ a ≤ a - Direction.right.offset * (i + 1) := by
      rw [Direction.offset]
      omega
    rw [read_writeAll, if_neg hbehind, read_empty]
    rfl

theorem faces_ofInput (blank : Char) (input : String) :
    (ofInput blank input).Faces blank 0 .right [] input.toList :=
  faces_writeAll blank 0 input.toList

/-! ## What is written -/

theorem Spans.unique {lo hi lo' hi' : Int} (h : t.Spans blank lo hi) (h' : t.Spans blank lo' hi') :
    lo = lo' ∧ hi = hi' := by
  have hlo := h.between lo' h'.first
  have hhi := h.between hi' h'.last
  have hlo' := h'.between lo h.first
  have hhi' := h'.between hi h.last
  omega

theorem Faces.read_right (h : t.Faces blank a .right [] word) (b : Int) :
    t.read blank b = if a ≤ b then word.getD (b - a).toNat blank else blank := by
  split
  · rename_i hle
    have haddress : a + Direction.right.offset * (b - a).toNat = b := by
      rw [Direction.offset]
      omega
    rw [← h.ahead, haddress]
  · rename_i hlt
    have haddress : a - Direction.right.offset * (((a - 1 - b).toNat : Int) + 1) = b := by
      rw [Direction.offset]
      omega
    rw [← haddress, h.behind]
    rfl

theorem Faces.spans (h : t.Faces blank a .right [] word) (hword : ∀ c ∈ word, c ≠ blank)
    (hne : word ≠ []) :
    t.Spans blank a (a + word.length - 1) := by
  have hpos := List.length_pos_iff.2 hne
  have hread (i : Nat) (hi : i < word.length) : t.read blank (a + i) ≠ blank := by
    have hindex : (a + (i : Int) - a).toNat = i := by omega
    rw [h.read_right, if_pos (by omega), hindex, List.getD_eq_getElem _ _ hi]
    exact hword _ (List.getElem_mem hi)
  refine ⟨?_, ?_, fun b hb => ?_⟩
  · simpa using hread 0 hpos
  · have hlast : a + (word.length : Int) - 1 = a + ((word.length - 1 : Nat) : Int) := by omega
    rw [hlast]
    exact hread _ (by omega)
  · rw [h.read_right] at hb
    split at hb
    · by_contra hout
      exact hb (List.getD_eq_default _ _ (by omega))
    · exact absurd rfl hb

theorem Faces.toList_text_of_nil (hc : t.Canonical blank) (h : t.Faces blank a .right [] word)
    (hword : ∀ c ∈ word, c ≠ blank) : (t.text blank).toList = word := by
  obtain ⟨hempty, hblank⟩ | ⟨lo, hi, hspans, hslice⟩ := hc.text_cases
  · by_cases hne : word = []
    · rw [hempty, hne]
      rfl
    · exact absurd (hblank a) (h.spans hword hne).first
  · have hne : word ≠ [] := by
      rintro rfl
      have hfirst := hspans.first
      rw [h.read_right] at hfirst
      split at hfirst
      · exact hfirst rfl
      · exact hfirst rfl
    obtain ⟨rfl, rfl⟩ := hspans.unique (h.spans hword hne)
    rw [hslice]
    apply List.ext_getElem
    · rw [length_slice]
      omega
    · intro i hi hi'
      have hindex : (lo + (i : Int) - lo).toNat = i := by omega
      have hget : (t.slice blank lo (lo + word.length - 1))[(lo + (i : Int) - lo).toNat]? =
          some (t.read blank (lo + i)) := getElem?_slice (by omega) (by omega)
      rw [hindex, List.getElem?_eq_getElem hi, Option.some.injEq] at hget
      rw [hget, h.read_right, if_pos (by omega), hindex, List.getD_eq_getElem _ _ hi']

/-- The text of a tape is what is written on both sides of a cell. -/
theorem Faces.toList_text (hc : t.Canonical blank) (h : t.Faces blank a .right behind ahead)
    (hbehind : ∀ c ∈ behind, c ≠ blank) (hahead : ∀ c ∈ ahead, c ≠ blank) :
    (t.text blank).toList = behind.reverse ++ ahead := by
  induction behind generalizing a ahead with
  | nil => exact h.toList_text_of_nil hc hahead
  | cons c behind ih =>
    obtain ⟨hfirst, hrest⟩ := List.forall_mem_cons.1 hbehind
    have hback : a = a - Direction.right.offset + Direction.right.offset := by ring
    rw [hback] at h
    have htext := ih (faces_cons_iff.2 h) hrest (List.forall_mem_cons.2 ⟨hfirst, hahead⟩)
    rw [htext, List.reverse_cons, List.append_assoc]
    rfl

end Tape

end TapeMachine
