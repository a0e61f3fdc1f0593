import TapeMachine.Proofs.Machine.Restored
import TapeMachine.Proofs.Program.Reached
import TapeMachine.Proofs.Program.Run
import TapeMachine.Proofs.Tape.Symmetry

/-!
# Texts of tapes as inputs

The text of a tape can be loaded again, since no machine of a program has a space on its tape. Then
the tape is the one that it was read off, except that it begins at address 0. An input is told by
its tape up to the blanks at its end, and those make no difference to a run.

## Main result

- `Program.load_undoes_text`: what is read off a loaded tape, which inputs are loaded alike, and
  what is loaded of a text that was read off
-/

namespace TapeMachine

open Text

namespace Tape

variable {t : Tape} {blank c : Char} {input input' : String}

theorem exists_read_of_mem_text (hc : t.Canonical blank) (h : c ∈ (t.text blank).toList) :
    ∃ a, t.read blank a = c := by
  obtain ⟨a, hfaces, _⟩ := hc.exists_faces_text
  rw [hfaces.eq_slice] at h
  exact exists_read_of_mem_slice h

/-- Two inputs make the same tape just if they differ in the blanks at their ends. -/
theorem ofInput_eq_iff : ofInput blank input = ofInput blank input' ↔
    unpaddedEnd blank input.toList = unpaddedEnd blank input'.toList := by
  rw [unpaddedEnd_eq_iff]
  have hfaces := faces_ofInput blank input
  have hfaces' := faces_ofInput blank input'
  constructor
  · intro heq n
    rw [← hfaces.ahead, heq, hfaces'.ahead]
  · intro heq
    have hcells := (canonical_ofInput blank input).cells_eq_iff (canonical_ofInput blank input')
    refine congrArg mk (hcells.2 fun a => ?_)
    rw [hfaces.read_right, hfaces'.read_right, heq]

end Tape

namespace Program

variable {s : Settings} {text input input' : String} {p : Program} {m m' : Machine}

theorem text_of_machine (hm : p.machine input = .ok m) :
    m.report.tape.toList = unpadded p.settings.blank input.toList := by
  obtain rfl := Machine.now_of_ofInput (machine_eq_ok_iff.1 hm)
  exact (Tape.faces_ofInput p.settings.blank input).toList_text_eq_unpadded
    (Tape.canonical_ofInput p.settings.blank input)

theorem now_eq_iff (hm : p.machine input = .ok m) (hm' : p.machine input' = .ok m') :
    m.now = m'.now ↔
      unpaddedEnd p.settings.blank input.toList = unpaddedEnd p.settings.blank input'.toList := by
  obtain rfl := Machine.now_of_ofInput (machine_eq_ok_iff.1 hm)
  obtain rfl := Machine.now_of_ofInput (machine_eq_ok_iff.1 hm')
  rw [← Tape.ofInput_eq_iff]
  simp [Configuration.initial]

/-- Two inputs that are loaded alike leave machines that differ in nothing else. -/
theorem alike_of_now_eq (hm : p.machine input = .ok m) (hm' : p.machine input' = .ok m')
    (hnow : m.now = m'.now) :
    Machine.Alike 0 input' m m' := by
  obtain rfl := Machine.now_of_ofInput (machine_eq_ok_iff.1 hm)
  obtain rfl := Machine.now_of_ofInput (machine_eq_ok_iff.1 hm')
  refine ⟨rfl, rfl, rfl, ?_, rfl⟩
  rw [UInt64.add_zero]
  exact hnow.symm

theorem run_of_alike (hm : p.machine input = .ok m) (hm' : p.machine input' = .ok m')
    (halike : Machine.Alike 0 input' m m') (limit : Option UInt64) :
    (∃ r, p.run input limit = .ok r ∧ p.run input' limit = .ok r) ∨
    ∃ e, p.run input limit = .error (.stuck e) ∧ p.run input' limit =
      .error (.stuck { e with input := input' }) := by
  have hrun := ((Machine.lockstep_alike 0 input').run_eq halike (Machine.translates_alike input')
    (limit.getD p.settings.maxSteps)).1
  rw [run_eq_of_machine hm, run_eq_of_machine hm', hrun]
  cases (m.run (limit.getD p.settings.maxSteps)).1 with
  | ok r => exact .inl ⟨r, rfl, rfl⟩
  | error e => exact .inr ⟨e, rfl, rfl⟩

/-- The text of a tape that fits in the tape limit is an input, and this input makes the tape
again, from address 0 on. -/
theorem exists_machine_text (h : p.Proper m)
    (hlength : m.report.tape.length ≤ p.settings.maxTapeLen.toNat) :
    ∃ m', p.machine m.report.tape = .ok m' ∧ m'.report.tape = m.report.tape ∧
      ∃ d, m'.now.tape = m.now.tape.moved (.shift d) ∧
        ∀ lo hi, m.now.tape.Spans p.settings.blank lo hi → d = -lo := by
  have htape : m.report.tape = m.now.tape.text p.settings.blank := by
    rw [Machine.report, h.settings_eq]
  rw [htape] at hlength ⊢
  have hspace : ' ' ∉ (m.now.tape.text p.settings.blank).toList := by
    intro hmem
    obtain ⟨a, ha⟩ := Tape.exists_read_of_mem_text h.canonical hmem
    exact h.no_space a ha
  obtain ⟨m', hm'⟩ := exists_machine_of_length_le hspace hlength
  obtain rfl := Machine.now_of_ofInput (machine_eq_ok_iff.1 hm')
  obtain ⟨a, hfaces, hfirst⟩ := h.canonical.exists_faces_text
  have hloaded := Tape.faces_ofInput p.settings.blank (m.now.tape.text p.settings.blank)
  have hmoved := hfaces.eq_moved_shift h.canonical (Tape.canonical_ofInput _ _) hloaded
  refine ⟨_, hm', ?_, 0 - a, hmoved, fun lo hi hspans => ?_⟩
  · show (Tape.ofInput p.settings.blank _).text p.settings.blank = _
    rw [hmoved, h.canonical.text_shift]
  · rw [hfirst lo hi hspans, Int.zero_sub]

/-- The text of the tape that a machine of the program has after loading an input is the input
without the blanks at its ends, and two inputs are loaded alike just if they are the same without
the blanks behind them. Then any number of steps and any run do the same on both, except that a
failure shows the input that was loaded. The text of the tape of any machine of the program can
be loaded if it fits in the tape limit, and then is the text of the tape again; the tape is the
old one with its first written cell at address 0. So what a run reports as its tape can be given
to the program again. -/
theorem load_undoes_text (hp : ofText s text = .ok p) :
    (∀ m, p.Reaches m → ∀ input m', m.load input = (.ok (), m') ↔ p.machine input = .ok m') ∧
    (∀ input m, p.machine input = .ok m → m.report.tape.toList = unpadded s.blank input.toList) ∧
    (∀ input input' m m', p.machine input = .ok m → p.machine input' = .ok m' →
      (m.now = m'.now ↔ unpaddedEnd s.blank input.toList = unpaddedEnd s.blank input'.toList) ∧
      (m.now = m'.now →
        (∀ n : Nat, (m'.stepN n).1 = (m.stepN n).1.mapError ({ · with input := input' }) ∧
          (m'.stepN n).2.now = (m.stepN n).2.now) ∧
        ∀ limit,
          (∃ r, p.run input limit = .ok r ∧ p.run input' limit = .ok r) ∨
          ∃ e, p.run input limit = .error (.stuck e) ∧
            p.run input' limit = .error (.stuck { e with input := input' }))) ∧
    (∀ m, p.Reaches m → m.report.tape.length ≤ s.maxTapeLen.toNat →
      ∃ m', m.load m.report.tape = (.ok (), m') ∧ m'.report.tape = m.report.tape ∧
        ∃ d, m'.now.tape = m.now.tape.moved (.shift d) ∧
          ∀ lo hi, m.now.tape.Spans s.blank lo hi → d = -lo) ∧
    ∀ input limit r, p.run input limit = .ok r → r.tape.length ≤ s.maxTapeLen.toNat →
      ∃ m', p.machine r.tape = .ok m' ∧ m'.report.tape = r.tape := by
  obtain rfl := settings_of_ofText hp
  have hload (m : Machine) (h : p.Reaches m) (input : String) (m' : Machine) :
      m.load input = (.ok (), m') ↔ p.machine input = .ok m' :=
    load_eq_ok_iff (h.proper hp).settings_eq (h.proper hp).table_eq
  refine ⟨hload, fun input m => text_of_machine, fun input input' m m' hm hm' => ?_,
    fun m h hlength => ?_, fun input limit r hrun hlength => ?_⟩
  · refine ⟨now_eq_iff hm hm', fun hnow => ?_⟩
    have halike := alike_of_now_eq hm hm' hnow
    exact ⟨(Machine.lockstep_alike 0 input').stepN_eq halike (Machine.translates_alike input'),
      run_of_alike hm hm' halike⟩
  · obtain ⟨m', hm', htext, hmoved⟩ := exists_machine_text (h.proper hp) hlength
    exact ⟨m', (hload m h _ m').2 hm', htext, hmoved⟩
  · obtain ⟨m, hm, hreport⟩ := Checks.bind_eq_ok_iff.1 hrun
    have hend : m.run (limit.getD p.settings.maxSteps) =
        (.ok r, (m.run (limit.getD p.settings.maxSteps)).2) :=
      Prod.ext (Checks.mapError_eq_ok_iff.1 hreport) rfl
    have hreached := ((Reaches.machine hm).run (limit.getD p.settings.maxSteps)).proper hp
    rw [Machine.report_of_run hend] at hlength ⊢
    obtain ⟨m', hm', htext, _⟩ := exists_machine_text hreached hlength
    exact ⟨m', hm', htext⟩

/-- Two steps to the left of address 0, on an input and on the same input with blanks behind it.
What they leave is loaded one cell further to the right. -/
theorem load_undoes_text_left_of_zero :
    ∃ p m m', ofText {} "INIT a INIT b L\nINIT _ HALT c L" = .ok p ∧ p.machine "a" = .ok m ∧
      p.machine "a__" = .ok m' ∧ m'.report.tape = "a" ∧ m.now = m'.now ∧
      ∃ r, p.run "a" (some 2) = .ok r ∧ p.run "a__" (some 2) = .ok r ∧ r.tape = "cb" ∧
        (∃ m₁, p.machine r.tape = .ok m₁ ∧ m₁.report.tape = r.tape) ∧
        ∃ m₂, (m.stepN 2).2.load (m.stepN 2).2.report.tape = (.ok (), m₂) ∧
          m₂.now.tape = (m.stepN 2).2.now.tape.moved (.shift 1) := by
  obtain ⟨p, m, hp, hm, htest⟩ := exists_machine {} "INIT a INIT b L\nINIT _ HALT c L" "a"
    (fun _ m =>
      (m.stepN 2).2.now.tape.toList == (Tape.empty.writeAll '_' (-1) ['c', 'b']).toList &&
        decide ((m.stepN 2).1 = .ok .halted)) (by decide +kernel)
  simp only [Bool.and_eq_true, beq_iff_eq, decide_eq_true_eq] at htest
  obtain ⟨hcells, hhalted⟩ := htest
  have hsettings : p.settings = {} := settings_of_ofText hp
  obtain ⟨m', hm'⟩ : ∃ m', p.machine "a__" = .ok m' := by
    apply exists_machine_of_length_le
    · decide
    · rw [hsettings]
      decide
  obtain ⟨hload, htext, halike, hback, hagain⟩ := load_undoes_text hp
  obtain ⟨hequal, hruns⟩ := halike "a" "a__" m m' hm hm'
  have hstart : m.now = m'.now := hequal.2 (by decide)
  have hreached := (Reaches.machine hm).stepN 2
  have hproper := hreached.proper hp
  have hfaces : (m.stepN 2).2.now.tape.Faces '_' (-1) .right [] ['c', 'b'] := by
    rw [Tape.toList_inj.1 hcells]
    exact Tape.faces_writeAll '_' (-1) ['c', 'b']
  have hreport : (m.stepN 2).2.report.tape = "cb" := by
    have hcanonical := hproper.canonical
    rw [hsettings] at hcanonical
    rw [Machine.report, hproper.settings_eq, hsettings]
    exact String.toList_injective ((hfaces.toList_text_eq_unpadded hcanonical).trans (by decide))
  have hrun : p.run "a" (some 2) = .ok (m.stepN 2).2.report := by
    have hsteps : m.now.steps.toNat + 2 = (2 : UInt64).toNat := by
      rw [steps_of_machine hm]
      decide
    rw [run_eq_of_machine hm, Option.getD_some, Machine.run_eq_stepN hsteps, hhalted]
    rfl
  have hlength : (m.stepN 2).2.report.tape.length ≤ ({} : Settings).maxTapeLen.toNat := by
    rw [hreport]
    decide
  obtain ⟨m₂, hm₂, _, d, hmoved, hfirst⟩ := hback _ hreached hlength
  have hd : d = -(-1) := hfirst _ _ (hfaces.spans (by simp) (List.cons_ne_nil _ _))
  refine ⟨p, m, m', hp, hm, hm', ?_, hstart, _, hrun, ?_, hreport, hagain _ _ _ hrun hlength,
    m₂, hm₂, ?_⟩
  · exact String.toList_injective ((htext "a__" m' hm').trans (by decide))
  · obtain ⟨r, hr, hr'⟩ | ⟨e, he, _⟩ := (hruns hstart).2 (some 2)
    · rwa [hrun.symm.trans hr]
    · cases hrun.symm.trans he
  · rw [hmoved, hd]
    rfl

end Program

end TapeMachine
