import TapeMachine.Proofs.Machine.Bounded
import TapeMachine.Proofs.Tape.Facing

/-!
# Passes over a tape

A program is followed through its phases by telling where the head is and what the tape has on
either side of it (`Machine.Faces`). A rule that keeps the direction leaves the symbol that it
writes behind (`Faces.exists_onward`), one that changes it finds its symbol behind and the old
surroundings exchanged (`Faces.exists_back`). A state that goes over all symbols of a word in one
direction does so in as many steps as the word has symbols (`Faces.exists_pass`).
-/

namespace TapeMachine.Machine

/-- The machine has settings `s` and table `t`, is in a state and looks in direction
`d`: the symbols `ahead` begin with the one under the head, and the symbols `behind`
with the one next to it. -/
structure Faces (s : Settings) (t : Table) (m : Machine) (state : String) (d : Direction)
    (behind ahead : List Char) : Prop where
  settings : m.settings = s
  table : m.table = t
  canonical : m.now.tape.Canonical s.blank
  state : m.now.state = state
  tape : m.now.tape.Faces s.blank m.now.head d behind ahead

variable {s : Settings} {t : Table} {m m' : Machine} {state state' : String}
  {d : Direction} {c : Char}
  {behind ahead : List Char}

theorem faces_of_ofInput {input : String} (h : ofInput s t input = .ok m) :
    m.Faces s t s.initState .right [] input.toList := by
  obtain rfl := now_of_ofInput h
  exact ⟨rfl, rfl, Tape.canonical_ofInput s.blank input, rfl, Tape.faces_ofInput s.blank input⟩

namespace Faces

/-- A blank at the far end says nothing. -/
theorem behind_blank_iff : m.Faces s t state d [s.blank] ahead ↔ m.Faces s t state d [] ahead := by
  constructor
  · intro h
    exact ⟨h.settings, h.table, h.canonical, h.state, Tape.faces_behind_blank_iff.1 h.tape⟩
  · intro h
    exact ⟨h.settings, h.table, h.canonical, h.state, Tape.faces_behind_blank_iff.2 h.tape⟩

variable (h : m.Faces s t state d behind ahead)
include h

theorem isHalted_eq : m.isHalted = (state == s.haltState) := by
  rw [isHalted, h.state, h.settings]

theorem isHalted_eq_false (hne : state ≠ s.haltState) : m.isHalted = false := by
  rw [h.isHalted_eq, beq_eq_false_iff_ne]
  exact hne

theorem action?_eq : m.action? = t.get? state (ahead.headD s.blank) := by
  rw [action?, symbol, h.table, h.state, h.settings, h.tape.read_eq]

theorem canonical_now : m.now.tape.Canonical m.settings.blank := by
  rw [h.settings]
  exact h.canonical

variable (hne : state ≠ s.haltState)
include hne

/-- The rule for the state and the symbol ahead replaces that symbol and moves the head. -/
theorem exists_applies {a : Action} (hget : t.get? state (ahead.headD s.blank) = some a) :
    ∃ m', m.Applies m' ∧ m'.settings = s ∧ m'.table = t ∧ m'.now.tape.Canonical s.blank ∧
      m'.now.state = a.newState ∧ m'.now.head = m.now.head + a.direction.offset ∧
      m'.now.tape.Faces s.blank m.now.head d behind (a.newSymbol :: ahead.tail) := by
  have ha : m.Applies { m with now := m.apply a } :=
    ⟨h.isHalted_eq_false hne, a, h.action?_eq.trans hget, rfl⟩
  have hcanonical := ha.canonical h.canonical_now
  rw [ha.settings_eq, h.settings] at hcanonical
  refine ⟨_, ha, h.settings, h.table, hcanonical, rfl, rfl, ?_⟩
  show (m.now.tape.write m.settings.blank m.now.head a.newSymbol).Faces s.blank _ _ _ _
  rw [h.settings]
  exact h.tape.write a.newSymbol

theorem exists_onward (hget : t.get? state (ahead.headD s.blank) = some ⟨state', c, d⟩) :
    ∃ m', m.Applies m' ∧ m'.Faces s t state' d (c :: behind) ahead.tail := by
  obtain ⟨m', ha, hsettings, htable, hcanonical, hstate, hhead, htape⟩ := h.exists_applies hne hget
  refine ⟨m', ha, hsettings, htable, hcanonical, hstate, ?_⟩
  rw [hhead]
  exact Tape.faces_cons_iff.1 htape

theorem exists_back (hget : t.get? state (ahead.headD s.blank) = some ⟨state', c, d.opposite⟩) :
    ∃ m', m.Applies m' ∧ m'.Faces s t state' d.opposite (c :: ahead.tail) behind := by
  obtain ⟨m', ha, hsettings, htable, hcanonical, hstate, hhead, htape⟩ := h.exists_applies hne hget
  refine ⟨m', ha, hsettings, htable, hcanonical, hstate, ?_⟩
  rw [hhead, d.offset_opposite, ← Int.sub_eq_add_neg]
  exact Tape.faces_turn_iff.1 htape

omit h in
/-- A state that goes on over every symbol of a word passes over it, replacing each
symbol by what it writes. -/
theorem exists_pass {word : List Char}
    (h : m.Faces s t state d behind (word ++ ahead)) (written : Char → Char)
    (hget : ∀ c ∈ word, t.get? state c = some ⟨state, written c, d⟩) :
    ∃ m', m.ReachesIn word.length m' ∧
      m'.Faces s t state d ((word.map written).reverse ++ behind) ahead := by
  induction word generalizing m behind with
  | nil => exact ⟨m, .zero, h⟩
  | cons c word ih =>
    obtain ⟨hfirst, hrest⟩ := List.forall_mem_cons.1 hget
    obtain ⟨m₁, ha, h₁⟩ := h.exists_onward hne hfirst
    obtain ⟨m', hr, h'⟩ := ih h₁ hrest
    refine ⟨m', hr.head ha, ?_⟩
    rw [List.map_cons, List.reverse_cons, List.append_assoc]
    exact h'

end Faces

/-! ## What is left on the tape -/

section Text

variable (hbehind : ∀ c ∈ behind, c ≠ s.blank) (hahead : ∀ c ∈ ahead, c ≠ s.blank)
include hbehind hahead

theorem Faces.report_right (h : m.Faces s t state .right behind ahead) :
    m.report.tape.toList = behind.reverse ++ ahead := by
  show (m.now.tape.text m.settings.blank).toList = _
  rw [h.settings]
  exact h.tape.toList_text h.canonical hbehind hahead

theorem Faces.report_left (h : m.Faces s t state .left behind ahead) :
    m.report.tape.toList = ahead.reverse ++ behind := by
  show (m.now.tape.text m.settings.blank).toList = _
  rw [h.settings]
  exact (Tape.faces_turn_iff.1 h.tape).toList_text h.canonical hahead hbehind

end Text

end TapeMachine.Machine
