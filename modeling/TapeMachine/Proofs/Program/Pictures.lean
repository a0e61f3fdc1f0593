import TapeMachine.Proofs.Machine.Symmetry
import TapeMachine.Proofs.Program.Reached

/-!
# What is told by a picture

The row of a picture, its caret and its state are put one below the other, and nothing is escaped: a
caret or a line feed can stand in the row as well. But a state is a word, so the last line is the
state and the one before has the caret. All that is above them is the row, and with the caret it
tells what is on the tape around the head.

## Main result

- `Program.pictures_are_faithful`: machines with the same picture are in the same
  configuration but for a shift
-/

namespace TapeMachine

open Text

namespace Machine

variable {m m' : Machine} {window : UInt64}

/-! ## From the picture to the tape -/

/-- The three parts of a picture are found from its end. -/
theorem parts_of_render_eq (hstate : IsWord m.now.state.toList)
    (hstate' : IsWord m'.now.state.toList) (h : m.render window = m'.render window) :
    m.row window = m'.row window ∧ m.caret window = m'.caret window ∧
    m.now.state = m'.now.state := by
  have hlines := lines_render hstate.newline_notMem window
  rw [h, lines_render hstate'.newline_notMem window] at hlines
  obtain ⟨hrow, hbelow⟩ := List.append_inj' hlines rfl
  obtain ⟨hcaret, hstates⟩ := List.cons_eq_cons.1 hbelow
  refine ⟨lines_injective hrow.symm, ?_, ?_⟩
  · have hlength := congrArg List.length hcaret
    simpa using hlength.symm
  · exact String.toList_injective (List.singleton_inj.1 hstates).symm

/-- What stands around the head is told by the row and the caret. -/
theorem WithinAddresses.read_around (h : m.WithinAddresses window)
    (hc : m.now.tape.Canonical m.settings.blank) (k : Int) :
    m.now.tape.read m.settings.blank (m.now.head + k) =
      if 0 ≤ m.caret window + k then (m.row window).getD (m.caret window + k).toNat m.settings.blank
      else m.settings.blank := by
  have hcaret := h.natCast_caret
  have hdistance : m.now.head + k - (m.low - m.reach window) = m.caret window + k := by omega
  have hside : m.low - m.reach window ≤ m.now.head + k ↔ 0 ≤ m.caret window + k := by omega
  rw [(h.row.faces_row hc).read_right, hdistance]
  simp only [hside]

/-! ## From the tape to the picture -/

section Looks

variable (hblank : m'.settings.blank = m.settings.blank)
  (hmax : m'.settings.maxTapeLen = m.settings.maxTapeLen)
  (hc : m.now.tape.Canonical m.settings.blank) (hc' : m'.now.tape.Canonical m'.settings.blank)
include hblank hmax hc hc'

/-- Machines that read the same around their heads look alike, one shifted against the other. -/
theorem looksMoved_of_read_around
    (h : ∀ k : Int, m.now.tape.read m.settings.blank (m.now.head + k) =
      m'.now.tape.read m.settings.blank (m'.now.head + k)) :
    LooksMoved (.shift (m'.now.head - m.now.head)) m m' where
  blank_eq := hblank
  maxTapeLen_eq := hmax
  tape_eq := by
    rw [hblank] at hc'
    refine hc.eq_moved hc' fun a => ?_
    have haround := h (a - m.now.head)
    have hplace : m.now.head + (a - m.now.head) = a := by omega
    have hplace' : m'.now.head + (a - m.now.head) = a + (m'.now.head - m.now.head) := by omega
    rw [hplace, hplace'] at haround
    exact haround.symm
  head_eq := by
    rw [Symmetry.shift_address]
    omega
  canonical := hc

variable (hstate : IsWord m.now.state.toList) (hstate' : IsWord m'.now.state.toList)
  (hwithin : m.WithinAddresses window) (hwithin' : m'.WithinAddresses window)
include hstate hstate' hwithin hwithin'

theorem render_eq_iff_read_around : m.render window = m'.render window ↔
    m.now.state = m'.now.state ∧ ∀ k : Int,
      m.now.tape.read m.settings.blank (m.now.head + k) =
        m'.now.tape.read m.settings.blank (m'.now.head + k) := by
  constructor
  · intro h
    obtain ⟨hrow, hcaret, hstates⟩ := parts_of_render_eq hstate hstate' h
    refine ⟨hstates, fun k => ?_⟩
    rw [hwithin.read_around hc, hrow, hcaret, ← hblank, hwithin'.read_around hc']
  · rintro ⟨hstates, h⟩
    have hlooks := looksMoved_of_read_around hblank hmax hc hc' h
    exact (hlooks.render_shift hwithin.row hwithin'.row hstates.symm).symm

theorem render_eq_iff_exists_moved : m.render window = m'.render window ↔
    ∃ d, { m'.now with steps := m.now.steps } = m.now.moved (.shift d) := by
  constructor
  · intro h
    obtain ⟨hstates, haround⟩ :=
      (render_eq_iff_read_around hblank hmax hc hc' hstate hstate' hwithin hwithin').1 h
    have hlooks := looksMoved_of_read_around hblank hmax hc hc' haround
    refine ⟨m'.now.head - m.now.head, ?_⟩
    rw [Configuration.moved, ← hlooks.tape_eq, ← hlooks.head_eq, hstates]
  · rintro ⟨d, hmoved⟩
    obtain ⟨_, htape, hhead, hstates⟩ := Configuration.mk.inj hmoved
    have hlooks : LooksMoved (.shift d) m m' := ⟨hblank, hmax, htape, hhead, hc⟩
    exact (hlooks.render_shift hwithin.row hwithin'.row hstates).symm

end Looks

end Machine

namespace Program

variable {s s' : Settings} {text text' : String} {p p' : Program} {m m' : Machine}

/-- Two machines, of any programs with the same blank and tape limit, have the same picture
just if they are in the same state and read the same symbols at the same distances from their
heads. So the picture tells the configuration, except for the steps that were counted and for a
shift of all addresses. -/
theorem pictures_are_faithful (hp : ofText s text = .ok p) (hp' : ofText s' text' = .ok p')
    (hblank : s'.blank = s.blank) (hmax : s'.maxTapeLen = s.maxTapeLen)
    (hm : p.Reaches m) (hm' : p'.Reaches m') (window : UInt64)
    (hwithin : m.WithinAddresses window) (hwithin' : m'.WithinAddresses window) :
    (m.render window = m'.render window ↔
      m.now.state = m'.now.state ∧ ∀ k : Int,
        m.now.tape.read s.blank (m.now.head + k) = m'.now.tape.read s.blank (m'.now.head + k)) ∧
    (m.render window = m'.render window ↔
      ∃ d, { m'.now with steps := m.now.steps } = m.now.moved (.shift d)) := by
  have hproper := hm.proper hp
  have hproper' := hm'.proper hp'
  have hsettings : m.settings = s := hproper.settings_eq.trans (settings_of_ofText hp)
  have hsettings' : m'.settings = s' := hproper'.settings_eq.trans (settings_of_ofText hp')
  rw [← hsettings, ← hsettings'] at hblank hmax
  rw [← hsettings]
  exact ⟨
    Machine.render_eq_iff_read_around hblank hmax hproper.canonical_now hproper'.canonical_now
      hproper.state hproper'.state hwithin hwithin',
    Machine.render_eq_iff_exists_moved hblank hmax hproper.canonical_now hproper'.canonical_now
      hproper.state hproper'.state hwithin hwithin'⟩

/-- A caret and a line feed on the tape, and the same one cell further to the right, in another
program and after a step. -/
theorem pictures_are_faithful_one_further :
    ∃ p p' m m', ofText {} "INIT a HALT a R" = .ok p ∧
      ofText {} "INIT _ INIT _ R\nINIT a HALT a R" = .ok p' ∧
      p.machine "^\na" = .ok m ∧ p'.Reaches m' ∧ m'.now.steps = 1 ∧ m.now.head = 0 ∧
      m'.now.head = 1 ∧
      m.WithinAddresses 3 ∧ m'.WithinAddresses 3 ∧ m.render 3 = m'.render 3 ∧
      ∀ k : Int, m.now.tape.read '_' k = m'.now.tape.read '_' (1 + k) := by
  let moved := (Tape.ofInput '_' "^\na").moved (.shift 1)
  obtain ⟨p, m, hp, hm, hreach⟩ := exists_machine {} "INIT a HALT a R" "^\na"
    (fun _ m => decide (m.reach 3 = 3)) (by decide +kernel)
  obtain ⟨p', m₀, hp', hm₀, htest⟩ := exists_machine {} "INIT _ INIT _ R\nINIT a HALT a R" "_^\na"
    (fun _ m₀ =>
      let m' := m₀.step.2
      decide (m₀.step.1 = .ok .running ∧ m'.now.steps = 1 ∧ m'.now.head = 1 ∧
        m'.now.state = "INIT" ∧
        m'.reach 3 = 3 ∧ m'.now.tape.toList = moved.toList)) (by decide +kernel)
  rw [decide_eq_true_eq] at hreach htest
  obtain ⟨hrunning, hsteps, hhead', hstate', hreach', hcells⟩ := htest
  have hinput := machine_eq_ok_iff.1 hm
  have hnow : m.now = .initial {} (.ofInput '_' "^\na") := by
    rw [Machine.now_of_ofInput hinput, settings_of_ofText hp]
  have hhead : m.now.head = 0 := by
    rw [hnow]
    rfl
  have hmoved : { m₀.step.2.now with steps := m.now.steps } = m.now.moved (.shift 1) := by
    have htape : m₀.step.2.now.tape = moved := Tape.toList_inj.1 hcells
    simp only [htape, hhead', hstate', hnow]
    rfl
  have hwithin : m.WithinAddresses 3 := by
    refine (Machine.staysWithin_of_ofInput hinput).withinAddresses ?_
    rw [hreach]
    decide
  have hwithin' : m₀.step.2.WithinAddresses 3 := by
    obtain ⟨_, hs⟩ | ⟨_, _, hs⟩ | ⟨m', ha, hs⟩ := m₀.step_cases
    · rw [hs] at hrunning
      cases hrunning
    · rw [hs] at hrunning
      cases hrunning
    · rw [hs] at hreach' ⊢
      have hstays := (Machine.staysWithin_of_ofInput (machine_eq_ok_iff.1 hm₀)).applies ha
      refine hstays.withinAddresses ?_
      rw [hreach']
      decide
  obtain ⟨haround, hconfiguration⟩ :=
    pictures_are_faithful hp hp' rfl rfl (.machine hm) (.step (.machine hm₀)) 3 hwithin hwithin'
  have hrender := hconfiguration.2 ⟨1, hmoved⟩
  refine ⟨p, p', m, m₀.step.2, hp, hp', hm, .step (.machine hm₀), hsteps, hhead, hhead', hwithin,
    hwithin', hrender, fun k => ?_⟩
  have hread := (haround.1 hrender).2 k
  rw [hhead, hhead', Int.zero_add] at hread
  exact hread

end Program

end TapeMachine
