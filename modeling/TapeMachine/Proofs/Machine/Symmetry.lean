import TapeMachine.Proofs.Machine.Lockstep
import TapeMachine.Proofs.Machine.Window
import TapeMachine.Proofs.Table.Turned
import TapeMachine.Proofs.Tape.Symmetry

/-!
# Shifted and mirrored machines

A machine that is started on a shifted configuration does the same at the shifted addresses, and one
whose rules have their moves exchanged does the same on the mirror image (`Machine.lockstep_moves`).
Neither the text of the tape nor the picture shows where a machine is, and a mirror reverses both.

## Main definitions

- `Machine.Moves`: two machines in lockstep, the second with its cells at other addresses
- `Machine.LooksMoved`: two machines that show the same symbols at different addresses,
  whatever their rules are

## Main result

- `Machine.runs_commute_with_symmetries`: steps, texts and pictures after a shift and in a mirror
-/

namespace TapeMachine

/-- The configuration with its cells and its head at other addresses. -/
def Configuration.moved (σ : Symmetry) (c : Configuration) : Configuration :=
  { c with tape := c.tape.moved σ, head := σ.address c.head }

/-- The failure with its head at another address. -/
def Stuck.moved (σ : Symmetry) (e : Stuck) : Stuck :=
  { e with head := σ.address e.head }

namespace Machine

/-- The second machine is in the moved configuration of the first, and finds the actions of the
first with their moves turned. -/
structure Moves (σ : Symmetry) (m m' : Machine) : Prop where
  settings_eq : m'.settings = m.settings
  input_eq : m'.input = m.input
  now_eq : m'.now = m.now.moved σ
  canonical : m.now.tape.Canonical m.settings.blank
  get?_eq : ∀ state symbol, m'.table.get? state symbol =
    (m.table.get? state symbol).map (Action.turned σ)

/-- What can be seen on the tape of the second machine, and where its head is, is what can be seen
of the first machine at other addresses. -/
structure LooksMoved (σ : Symmetry) (m m' : Machine) : Prop where
  blank_eq : m'.settings.blank = m.settings.blank
  maxTapeLen_eq : m'.settings.maxTapeLen = m.settings.maxTapeLen
  tape_eq : m'.now.tape = m.now.tape.moved σ
  head_eq : m'.now.head = σ.address m.now.head
  canonical : m.now.tape.Canonical m.settings.blank

variable {σ : Symmetry} {m m' m₁ : Machine} {window : UInt64} {d : Int}

/-! ## Steps -/

namespace Moves

variable (h : Moves σ m m')
include h

theorem isHalted_eq : m'.isHalted = m.isHalted := by
  rw [isHalted, isHalted, h.settings_eq, h.now_eq]
  rfl

theorem symbol_eq : m'.symbol = m.symbol := by
  rw [symbol, h.settings_eq, h.now_eq]
  exact m.now.tape.read_moved σ m.settings.blank m.now.head

theorem action?_eq : m'.action? = m.action?.map (Action.turned σ) := by
  rw [action?, h.symbol_eq, h.get?_eq, h.now_eq]
  rfl

theorem stuck_eq : m'.stuck = m.stuck.moved σ := by
  rw [stuck, h.symbol_eq, h.input_eq, h.now_eq]
  rfl

/-- A turned action does to the moved configuration what the action does to the configuration. -/
theorem apply_eq (a : Action) : m'.apply (a.turned σ) = (m.apply a).moved σ := by
  have htape := m.now.tape.write_moved σ m.settings.blank m.now.head a.newSymbol
  have hhead := σ.address_add_offset m.now.head a.direction
  simp only [apply, Configuration.moved, Action.turned, h.now_eq, h.settings_eq, htape, hhead]

theorem applies (ha : m.Applies m₁) : ∃ m₁', m'.Applies m₁' ∧ Moves σ m₁ m₁' := by
  have hcanonical := ha.canonical h.canonical
  obtain ⟨hh, a, hget, rfl⟩ := ha
  refine ⟨{ m' with now := m'.apply (a.turned σ) }, ⟨?_, a.turned σ, ?_, rfl⟩, ?_⟩
  · rw [h.isHalted_eq, hh]
  · rw [h.action?_eq, hget, Option.map_some]
  · exact ⟨h.settings_eq, h.input_eq, h.apply_eq a, hcanonical, h.get?_eq⟩

theorem looksMoved : LooksMoved σ m m' := by
  refine ⟨?_, ?_, ?_, ?_, h.canonical⟩
  · rw [h.settings_eq]
  · rw [h.settings_eq]
  · rw [h.now_eq]
    rfl
  · rw [h.now_eq]
    rfl

end Moves

theorem lockstep_moves (σ : Symmetry) : Lockstep (Moves σ) where
  isHalted h := h.isHalted_eq
  applies h := h.applies
  stuck h _ ha := by rw [h.action?_eq, ha, Option.map_none]

theorem Moves.stepN (h : Moves σ m m') (n : Nat) :
    (m'.stepN n).1 = (m.stepN n).1.mapError (Stuck.moved σ) ∧
    Moves σ (m.stepN n).2 (m'.stepN n).2 :=
  (lockstep_moves σ).stepN_mapError h (fun h => h.stuck_eq) n

/-- A configuration and the moved one, put in place in machines that find the same
actions, with turned moves. -/
theorem moves_restore (m : Machine) (c : Configuration) (t : Table)
    (hget : ∀ state symbol, t.get? state symbol =
      (m.table.get? state symbol).map (Action.turned σ)) :
    Moves σ (m.restore c) ({ m with table := t }.restore (c.moved σ)) where
  settings_eq := rfl
  input_eq := rfl
  now_eq := by
    have htape := c.tape.dropBlanks_moved σ m.settings.blank
    simp only [restore, Configuration.moved, htape]
  canonical := c.tape.canonical_dropBlanks m.settings.blank
  get?_eq := hget

theorem turned_shift (d : Int) (a : Action) : a.turned (.shift d) = a :=
  rfl

theorem moves_restore_shift (m : Machine) (c : Configuration) (d : Int) :
    Moves (.shift d) (m.restore c) (m.restore (c.moved (.shift d))) :=
  moves_restore m c m.table fun state symbol => by
    have hid : Action.turned (.shift d) = id := funext (turned_shift d)
    rw [hid, Option.map_id, id]

theorem moves_restore_mirror (m : Machine) (c : Configuration) :
    Moves .mirror (m.restore c)
      ({ m with table := m.table.turned .mirror }.restore (c.moved .mirror)) :=
  moves_restore m c _ (m.table.get?_turned .mirror)

/-! ## Pictures -/

namespace LooksMoved

theorem reach_eq (h : LooksMoved σ m m') (window : UInt64) : m'.reach window = m.reach window := by
  rw [reach, reach, h.maxTapeLen_eq]

theorem mem_occupied_iff (h : LooksMoved σ m m') (a : Int) :
    σ.address a ∈ m'.occupied ↔ a ∈ m.occupied := by
  simp only [occupied, Set.mem_union, Set.mem_ofPred_eq, Set.mem_singleton_iff, h.blank_eq,
    h.tape_eq, h.head_eq, Tape.read_moved, σ.address.injective.eq_iff]

theorem canonical' (h : LooksMoved σ m m') : m'.now.tape.Canonical m'.settings.blank := by
  rw [h.blank_eq, h.tape_eq]
  exact h.canonical.moved σ

section Shift

variable (h : LooksMoved (.shift d) m m')
include h

theorem low_shift : m'.low = m.low + d := by
  obtain ⟨hmem, hleast⟩ := isLeast_low h.canonical
  refine (isLeast_low h.canonical').unique ⟨(h.mem_occupied_iff m.low).2 hmem, fun a ha => ?_⟩
  obtain ⟨b, rfl⟩ := (Symmetry.shift d).address.surjective a
  exact Int.add_le_add_right (hleast ((h.mem_occupied_iff b).1 ha)) d

theorem high_shift : m'.high = m.high + d := by
  obtain ⟨hmem, hgreatest⟩ := isGreatest_high h.canonical
  refine (isGreatest_high h.canonical').unique ⟨(h.mem_occupied_iff m.high).2 hmem, fun a ha => ?_⟩
  obtain ⟨b, rfl⟩ := (Symmetry.shift d).address.surjective a
  exact Int.add_le_add_right (hgreatest ((h.mem_occupied_iff b).1 ha)) d

theorem text_shift : m'.report.tape = m.report.tape := by
  rw [report, report, h.blank_eq, h.tape_eq]
  exact h.canonical.text_shift d

variable (hrow : m.RowWithinAddresses window) (hrow' : m'.RowWithinAddresses window)
include hrow hrow'

theorem row_shift : m'.row window = m.row window := by
  have hleft : m.low + d - m.reach window = m.low - m.reach window + d := by omega
  have hright : m.high + d + m.reach window = m.high + m.reach window + d := by omega
  rw [hrow'.row_eq, hrow.row_eq, h.low_shift, h.high_shift, h.reach_eq, hleft, hright, h.blank_eq,
    h.tape_eq, Tape.slice_shift]

theorem caret_shift : m'.caret window = m.caret window := by
  have hdistance : m.now.head + d - (m.low + d - m.reach window) =
      m.now.head - (m.low - m.reach window) := by
    omega
  rw [caret, caret, hrow'.leftEnd_eq, hrow.leftEnd_eq, h.low_shift, h.reach_eq, h.head_eq,
    Symmetry.shift_address, hdistance]

theorem render_shift (hstate : m'.now.state = m.now.state) :
    m'.render window = m.render window := by
  rw [render, render, h.row_shift hrow hrow', h.caret_shift hrow hrow', hstate]

end Shift

section Mirror

variable (h : LooksMoved .mirror m m')
include h

theorem low_mirror : m'.low = -m.high := by
  obtain ⟨hmem, hgreatest⟩ := isGreatest_high h.canonical
  refine (isLeast_low h.canonical').unique ⟨(h.mem_occupied_iff m.high).2 hmem, fun a ha => ?_⟩
  obtain ⟨b, rfl⟩ := Symmetry.mirror.address.surjective a
  exact Int.neg_le_neg (hgreatest ((h.mem_occupied_iff b).1 ha))

theorem high_mirror : m'.high = -m.low := by
  obtain ⟨hmem, hleast⟩ := isLeast_low h.canonical
  refine (isGreatest_high h.canonical').unique ⟨(h.mem_occupied_iff m.low).2 hmem, fun a ha => ?_⟩
  obtain ⟨b, rfl⟩ := Symmetry.mirror.address.surjective a
  exact Int.neg_le_neg (hleast ((h.mem_occupied_iff b).1 ha))

theorem text_mirror : m'.report.tape.toList = m.report.tape.toList.reverse := by
  rw [report, report, h.blank_eq, h.tape_eq]
  exact h.canonical.toList_text_mirror

theorem row_mirror (hrow : m.RowWithinAddresses window) (hrow' : m'.RowWithinAddresses window) :
    m'.row window = (m.row window).reverse := by
  have hleft : -m.high - m.reach window = -(m.high + m.reach window) := by omega
  have hright : -m.low + m.reach window = -(m.low - m.reach window) := by omega
  rw [hrow'.row_eq, hrow.row_eq, h.low_mirror, h.high_mirror, h.reach_eq, hleft, hright, h.blank_eq,
    h.tape_eq, Tape.slice_mirror]

end Mirror

end LooksMoved

/-- A shifted configuration that is put in place in a machine is followed, after any number of
steps, by the shifted configuration that would have followed, with the same result but for the place
of a failure. The text of the tape is the same, and so is the picture, as long as the ends of its
row are addresses. The table of the rules with left and right exchanged is the one with the moves of
all actions exchanged. With this table, the mirror image of a configuration is followed by mirror
images, and the text of the tape and the row of the picture are reversed. -/
theorem runs_commute_with_symmetries (m : Machine) (c : Configuration) (n : Nat) :
    let after := (m.restore c).stepN n
    (∀ d : Int,
      let shifted := (m.restore (c.moved (.shift d))).stepN n
      shifted.1 = after.1.mapError (Stuck.moved (.shift d)) ∧
      shifted.2.now = after.2.now.moved (.shift d) ∧
      shifted.2.report.tape = after.2.report.tape ∧
      ∀ window, after.2.RowWithinAddresses window → shifted.2.RowWithinAddresses window →
        shifted.2.render window = after.2.render window) ∧
    (∀ s init halt rules, Table.build s init halt rules = .ok m.table →
      Table.build s init halt (rules.map (Rule.turned .mirror)) = .ok (m.table.turned .mirror)) ∧
    let mirrored := ({ m with table := m.table.turned .mirror }.restore (c.moved .mirror)).stepN n
    mirrored.1 = after.1.mapError (Stuck.moved .mirror) ∧
    mirrored.2.now = after.2.now.moved .mirror ∧
    mirrored.2.report.tape.toList = after.2.report.tape.toList.reverse ∧
    ∀ window, after.2.RowWithinAddresses window → mirrored.2.RowWithinAddresses window →
      mirrored.2.row window = (after.2.row window).reverse := by
  intro after
  refine ⟨fun d => ?_, fun s init halt rules => Table.build_turned .mirror, ?_⟩
  · intro shifted
    obtain ⟨hresult, hafter⟩ := (moves_restore_shift m c d).stepN n
    refine ⟨hresult, hafter.now_eq, hafter.looksMoved.text_shift, fun window hrow hrow' => ?_⟩
    refine hafter.looksMoved.render_shift hrow hrow' ?_
    rw [hafter.now_eq]
    rfl
  · intro mirrored
    obtain ⟨hresult, hafter⟩ := (moves_restore_mirror m c).stepN n
    exact ⟨hresult, hafter.now_eq, hafter.looksMoved.text_mirror,
      fun window => hafter.looksMoved.row_mirror⟩

/-- Two steps to the right and back, far to the left of where they were made first, and in a
mirror. -/
theorem runs_commute_with_symmetries_two_steps :
    let rules : List Rule :=
      [⟨"INIT", 'a', ⟨"INIT", 'b', .right⟩⟩, ⟨"INIT", '_', ⟨"HALT", 'c', .left⟩⟩]
    ∃ t m, Table.build {} "INIT" "HALT" rules = .ok t ∧ ofInput {} t "a" = .ok m ∧
      Table.build {} "INIT" "HALT" (rules.map (Rule.turned .mirror)) = .ok (t.turned .mirror) ∧
      let after := (m.restore m.now).stepN 2
      let shifted := (m.restore (m.now.moved (.shift (-7)))).stepN 2
      let mirrored := ({ m with table := t.turned .mirror }.restore (m.now.moved .mirror)).stepN 2
      after.1 = .ok .halted ∧ shifted.1 = .ok .halted ∧ mirrored.1 = .ok .halted ∧
      after.2.RowWithinAddresses 3 ∧ shifted.2.RowWithinAddresses 3 ∧
      mirrored.2.RowWithinAddresses 3 ∧
      shifted.2.now.head = -7 ∧ shifted.2.render 3 = after.2.render 3 ∧
      mirrored.2.row 3 = (after.2.row 3).reverse := by
  intro rules
  obtain ⟨t, m, ht, hm, htest⟩ := exists_ofInput {} rules "a"
    (fun _ m =>
      let after := (m.restore m.now).stepN 2
      after.2.settings == {} && after.2.now == ⟨2, .ofInput '_' "bc", 0, "HALT"⟩ &&
        decide (after.1 = .ok .halted)) (by decide +kernel)
  simp only [Bool.and_eq_true, beq_iff_eq, decide_eq_true_eq] at htest
  obtain ⟨⟨hsettings, hnow⟩, hhalted⟩ := htest
  have htable : m.table = t := by rw [now_of_ofInput hm]
  subst htable
  obtain ⟨hshift, hbuild, hmirrored, _, _, hrow⟩ := runs_commute_with_symmetries m m.now 2
  obtain ⟨hshifted, hplace, _, hrender⟩ := hshift (-7)
  have hbehind := ((moves_restore_shift m m.now (-7)).stepN 2).2.looksMoved
  have hbefore := ((moves_restore_mirror m m.now).stepN 2).2.looksMoved
  have hlow : ((m.restore m.now).stepN 2).2.low = 0 := by
    rw [low, hnow, Tape.first?_ofInput (c := 'b') rfl (by decide)]
    rfl
  have hhigh : ((m.restore m.now).stepN 2).2.high = 1 := by
    rw [high, hnow, Tape.last?_ofInput (n := 1) (c := 'c') rfl rfl (by decide)]
    rfl
  have hreach : ((m.restore m.now).stepN 2).2.reach 3 = 3 := by
    rw [reach, hsettings]
    decide
  have hfirst : ((m.restore m.now).stepN 2).2.RowWithinAddresses 3 := by
    rw [rowWithinAddresses_iff, hlow, hhigh, hreach]
    decide
  have hsecond : ((m.restore (m.now.moved (.shift (-7)))).stepN 2).2.RowWithinAddresses 3 := by
    rw [rowWithinAddresses_iff, hbehind.low_shift, hbehind.high_shift, hbehind.reach_eq, hlow,
      hhigh, hreach]
    decide
  have hthird : (({ m with table := m.table.turned .mirror }.restore
      (m.now.moved .mirror)).stepN 2).2.RowWithinAddresses 3 := by
    rw [rowWithinAddresses_iff, hbefore.low_mirror, hbefore.high_mirror, hbefore.reach_eq, hlow,
      hhigh, hreach]
    decide
  refine ⟨m.table, m, ht, hm, hbuild _ _ _ _ ht, hhalted, ?_, ?_, hfirst, hsecond, hthird, ?_,
    hrender 3 hfirst hsecond, hrow 3 hfirst hthird⟩
  · rw [hshifted, hhalted]
    rfl
  · rw [hmirrored, hhalted]
    rfl
  · rw [hplace, hnow]
    rfl

end Machine

end TapeMachine
