import TapeMachine.Proofs.Session.Agreement
import TapeMachine.Proofs.Session.Failures
import TapeMachine.Shell.Run

/-!
# Traced runs

`Shell.trace` steps a session in a loop of its own, which stops where `Session.run` stops. So a run
that is shown step by step comes to the same result as one that is not, and what is shown before
that result is the machine on its input and one frame for each applied rule.

## Main definitions

- `Shell.outcomeOf`: what the command prints and returns, told from the run of the machine alone
- `Shell.frames`: the pictures after the next rules, each under its number
-/

namespace TapeMachine.Shell

/-- What is printed and returned when a run ends: what was shown before, the result, and either a
notice that the limit was reached or the failure of the machine. -/
def outcomeOf (shown : String) (max : UInt64) (ended : Except Stuck Report × Machine) : Outcome :=
  let result := [.text shown, .text (resultText ended.2.report), .measurements]
  match ended.1 with
  | .ok r =>
    let notice :=
      if r.halted then "" else s!"\nStopped at the step ceiling ({max}) without halting\n"
    { exitCode := 0, output := result ++ [.text notice], errors := "" }
  | .error e =>
    { exitCode := 2, output := result, errors := "\nMachine stuck: " ++ e.message ++ "\n" }

/-- The picture of a machine under the number of the step that led to it. -/
def numberedPicture (window : UInt64) (number : Nat) (m : Machine) : String :=
  s!"Step {number}\n" ++ (m.render window ++ "\n\n")

/-- The frames of the next `n` rules of a machine that has applied `k`. -/
def frames (window : UInt64) (k : Nat) (m : Machine) (n : Nat) : String :=
  String.join
    ((List.range n).map fun i => numberedPicture window (k + i + 1) (Machine.next^[i + 1] m))

variable {window : UInt64} {s : Session} {m : Machine}

theorem frames_zero (window : UInt64) (k : Nat) (m : Machine) : frames window k m 0 = "" :=
  rfl

theorem frames_succ (window : UInt64) (k : Nat) (m : Machine) (n : Nat) :
    frames window k m (n + 1) =
      numberedPicture window (k + 1) m.next ++ frames window (k + 1) m.next n := by
  rw [frames, frames, List.range_succ_eq_map, List.map_cons, String.join_cons, List.map_map]
  congr 3
  funext i
  have hnumber : k + (i + 1) + 1 = k + 1 + i + 1 := by omega
  simp only [Function.comp_apply, Nat.succ_eq_add_one, hnumber, Function.iterate_succ_apply]

theorem frame_eq (window : UInt64) (s : Session) :
    frame window s = numberedPicture window s.machine.now.steps.toNat s.machine :=
  rfl

theorem frame_advanceTo (window : UInt64) (hlt : s.machine.now.steps < s.maxSteps)
    (ha : s.machine.Applies m) : frame window (s.advanceTo m) =
      numberedPicture window (s.machine.now.steps.toNat + 1) s.machine.next := by
  have hsteps : m.now.steps.toNat = s.machine.now.steps.toNat + 1 := ha.toNat_steps hlt
  rw [ha.next_eq, ← hsteps]
  rfl

/-! ## The loop -/

theorem traceFrom_eq (shown : String) (s : Session) :
    traceFrom window shown s = match s.step with
      | (.error e, next) => ⟨shown, next, .stuck e⟩
      | (.ok none, next) => ⟨shown, next, .done⟩
      | (.ok (some .halted), next) => ⟨shown ++ frame window next ++ haltLine next, next, .done⟩
      | (.ok (some .running), next) => traceFrom window (shown ++ frame window next) next := by
  rw [traceFrom]
  split <;> simp only [*]

theorem traceFrom_of_isHalted (h : s.machine.isHalted = true) (shown : String) :
    traceFrom window shown s = ⟨shown ++ frame window s ++ haltLine s, s, .done⟩ := by
  rw [traceFrom_eq, Session.step_of_isHalted h]

theorem traceFrom_of_limit (h : s.machine.isHalted = false) (hle : s.maxSteps ≤ s.machine.now.steps)
    (shown : String) : traceFrom window shown s = ⟨shown, s, .done⟩ := by
  rw [traceFrom_eq, Session.step_of_limit h hle]

theorem traceFrom_of_stuck (h : s.machine.isHalted = false)
    (hlt : s.machine.now.steps < s.maxSteps) (ha : s.machine.action? = none) (shown : String) :
    traceFrom window shown s = ⟨shown, s, .stuck s.machine.stuck⟩ := by
  rw [traceFrom_eq, Session.step_of_stuck h hlt ha]

theorem traceFrom_of_applies (hlt : s.machine.now.steps < s.maxSteps) (ha : s.machine.Applies m)
    (shown : String) : traceFrom window shown s =
      if m.isHalted then
        ⟨shown ++ frame window (s.advanceTo m) ++ haltLine (s.advanceTo m), s.advanceTo m, .done⟩
      else traceFrom window (shown ++ frame window (s.advanceTo m)) (s.advanceTo m) := by
  rw [traceFrom_eq, Session.step_of_applies hlt ha, Machine.signal]
  cases m.isHalted with
  | true => rfl
  | false => rfl

/-! ## How a traced run ends -/

theorem runQuietly_eq (s : Session) : runQuietly s =
    ⟨"", s.run.2, match s.run.1 with
      | .ok _ => .done
      | .error e => .stuck e⟩ := by
  rw [runQuietly]
  split
  · rename_i heq
    rw [heq]
  · rename_i heq
    rw [heq]

theorem traceFrom_end (window : UInt64) (shown : String) (s : Session) :
    (traceFrom window shown s).session = s.run.2 ∧
      (traceFrom window shown s).ending = (runQuietly s).ending := by
  rw [runQuietly_eq]
  induction s using Session.limit_induction generalizing shown with
  | halted s hh =>
    rw [traceFrom_of_isHalted hh, Session.run_of_isHalted hh]
    exact ⟨rfl, rfl⟩
  | limit s hh hle =>
    rw [traceFrom_of_limit hh hle, Session.run_of_limit hh hle]
    exact ⟨rfl, rfl⟩
  | stuck s hh hlt ha =>
    rw [traceFrom_of_stuck hh hlt ha, Session.run_of_stuck hh hlt ha]
    exact ⟨rfl, rfl⟩
  | advance s m hlt ha ih =>
    rw [traceFrom_of_applies hlt ha, Session.run_of_applies hlt ha]
    split
    · rename_i hm
      rw [Session.run_of_isHalted hm]
      exact ⟨rfl, rfl⟩
    · exact ih _

/-! ## What a traced run shows -/

/-- From a session that has not halted, every rule that is applied adds its frame. Only the last of
them can halt the machine. -/
theorem traceFrom_shown (window : UInt64) (shown : String) (s : Session)
    (hh : s.machine.isHalted = false) :
    ∃ n, s.run.2.machine.now.steps.toNat = s.machine.now.steps.toNat + n ∧
      (traceFrom window shown s).shown =
        shown ++ frames window s.machine.now.steps.toNat s.machine n ++
          if s.run.2.machine.isHalted then haltLine s.run.2 else "" := by
  induction s using Session.limit_induction generalizing shown with
  | halted s hhalted =>
    rw [hh] at hhalted
    cases hhalted
  | limit s _ hle =>
    rw [traceFrom_of_limit hh hle, Session.run_of_limit hh hle]
    exact ⟨0, rfl, by simp [frames_zero, hh]⟩
  | stuck s _ hlt ha =>
    rw [traceFrom_of_stuck hh hlt ha, Session.run_of_stuck hh hlt ha]
    exact ⟨0, rfl, by simp [frames_zero, hh]⟩
  | advance s m hlt ha ih =>
    have hframe := frame_advanceTo window hlt ha
    have hsteps : m.now.steps.toNat = s.machine.now.steps.toNat + 1 := ha.toNat_steps hlt
    rw [traceFrom_of_applies hlt ha, Session.run_of_applies hlt ha]
    cases hm : m.isHalted with
    | true =>
      rw [Session.run_of_isHalted (s := s.advanceTo m) hm, if_pos rfl]
      refine ⟨1, hsteps, ?_⟩
      rw [frames_succ, frames_zero, String.append_empty, hframe]
      show _ = _ ++ if m.isHalted then haltLine (s.advanceTo m) else ""
      rw [if_pos hm]
    | false =>
      obtain ⟨n, hn, hshown⟩ := ih (shown ++ frame window (s.advanceTo m)) hm
      have hmachine : (s.advanceTo m).machine = m := rfl
      rw [hmachine] at hn hshown
      rw [if_neg (by simp)]
      refine ⟨n + 1, by omega, ?_⟩
      rw [hshown, frames_succ, hframe, hsteps, ha.next_eq]
      simp only [String.append_assoc]

/-- The whole text of a traced run. The last part is that of a halted machine, with a frame more if
nothing was done to halt it. -/
theorem trace_shown (window : UInt64) (s : Session) (h0 : s.machine.now.steps = 0) :
    (trace window s).shown = s.machine.render window ++ "\n\n" ++
      frames window 0 s.machine s.run.2.machine.now.steps.toNat ++
        if s.run.2.machine.isHalted then
          (if s.machine.isHalted then numberedPicture window 0 s.machine else "") ++
            s!"HALTED after {s.run.2.machine.now.steps.toNat} steps\n"
        else "" := by
  have hzero : s.machine.now.steps.toNat = 0 := by
    rw [h0]
    rfl
  cases hh : s.machine.isHalted with
  | true =>
    rw [trace, traceFrom_of_isHalted hh, Session.run_of_isHalted hh, hzero, frames_zero, if_pos hh,
      if_pos rfl, String.append_empty, String.append_assoc, frame_eq, hzero, haltLine, h0]
    rfl
  | false =>
    obtain ⟨n, hn, hshown⟩ := traceFrom_shown window (picture window s) s hh
    rw [hzero] at hn hshown
    obtain rfl : s.run.2.machine.now.steps.toNat = n := by omega
    have hfirst : (if false = true then numberedPicture window 0 s.machine else "") = "" := rfl
    rw [trace, hshown, hfirst, String.empty_append]
    rfl

/-! ## What the command makes of it -/

/-- A run that does not fail has halted or is at its limit, and gives the report of the machine. -/
theorem run_of_session_ends (s : Session) : s.run.2.maxSteps = s.maxSteps ∧
    ∀ r, s.run.1 = .ok r → r = s.run.2.machine.report ∧
      (s.run.2.machine.isHalted = true ∨ s.maxSteps ≤ s.run.2.machine.now.steps) := by
  induction s using Session.limit_induction with
  | halted s hh =>
    rw [Session.run_of_isHalted hh]
    exact ⟨rfl, fun r hr => ⟨(Except.ok.inj hr).symm, .inl hh⟩⟩
  | limit s hh hle =>
    rw [Session.run_of_limit hh hle]
    exact ⟨rfl, fun r hr => ⟨(Except.ok.inj hr).symm, .inr hle⟩⟩
  | stuck s hh hlt ha =>
    rw [Session.run_of_stuck hh hlt ha]
    refine ⟨rfl, fun r hr => ?_⟩
    cases hr
  | advance s m hlt ha ih =>
    rw [Session.run_of_applies hlt ha]
    exact ih

theorem limitText_of_session_ends {r : Report} (hr : s.run.1 = .ok r) :
    limitText s.run.2 =
      if r.halted then ""
      else s!"\nStopped at the step ceiling ({s.maxSteps}) without halting\n" := by
  obtain ⟨hmax, hends⟩ := run_of_session_ends s
  obtain ⟨rfl, hend⟩ := hends r hr
  show limitText s.run.2 = if s.run.2.machine.isHalted then _ else _
  rw [limitText, Session.atLimit, hmax]
  cases hh : s.run.2.machine.isHalted with
  | true => simp
  | false =>
    have hle : s.maxSteps ≤ s.run.2.machine.now.steps := by simpa [hh] using hend
    simp [hle]

/-- The outcome of a run depends on the machine and the limit only, and on what was shown before. -/
theorem conclude_eq (shown : String) (s : Session) :
    conclude ⟨shown, s.run.2, (runQuietly s).ending⟩ =
      outcomeOf shown s.maxSteps (s.machine.run s.maxSteps) := by
  obtain ⟨hreport, hmachine⟩ := s.run_machine
  rw [runQuietly_eq, outcomeOf, conclude, ← hmachine, ← hreport]
  cases hr : s.run.1 with
  | ok r => rw [limitText_of_session_ends hr]
  | error e => rfl

theorem conclude_runQuietly (s : Session) :
    conclude (runQuietly s) = outcomeOf "" s.maxSteps (s.machine.run s.maxSteps) := by
  rw [← conclude_eq, runQuietly_eq]

theorem conclude_trace (window : UInt64) (s : Session) :
    conclude (trace window s) =
      outcomeOf (trace window s).shown s.maxSteps (s.machine.run s.maxSteps) := by
  obtain ⟨hsession, hending⟩ := traceFrom_end window (picture window s) s
  rw [← conclude_eq, ← hending, ← hsession]
  rfl

theorem exitCode_outcomeOf (shown : String) (max : UInt64) (h0 : m.now.steps = 0) :
    ((outcomeOf shown max (m.run max)).exitCode = 2 ↔
      (m.run max).2.status = .stuck ∧ (m.run max).2.now.steps < max) ∧
    ((outcomeOf shown max (m.run max)).exitCode = 0 ↔
      (m.run max).2.isHalted = true ∨ (m.run max).2.now.steps = max) := by
  obtain ⟨m', _, _, ⟨hend, hrun⟩ | ⟨hh, hlt, ha, hrun⟩⟩ := Machine.exists_run_end_of_start h0 max
  · have hnot : ¬ (m'.status = .stuck ∧ m'.now.steps < max) := by
      rintro ⟨hstuck, hlt⟩
      obtain hh | hmax := hend
      · rw [(Machine.status_eq_stuck_iff.1 hstuck).1] at hh
        cases hh
      · rw [hmax] at hlt
        exact UInt64.lt_irrefl max hlt
    simp [outcomeOf, hrun, hend, hnot]
  · have hne : m'.now.steps ≠ max := UInt64.ne_of_lt hlt
    have hstuck : m'.status = .stuck := Machine.status_eq_stuck_iff.2 ⟨hh, ha⟩
    simp [outcomeOf, hrun, hstuck, hlt, hh, hne]

/-- A run that is traced and one that is not come to the same outcome, which is that of the run of
the machine; they differ in what is shown before. The exit code tells a run that got stuck below its
limit from one that halted or reached it. A traced run shows the machine on its input, then the
machine after each applied rule, numbered from 1, and the line that says that it halted if it did; a
machine that is halted from the start has one more frame, with the number 0. -/
theorem trace_agrees_with_run {p : Program} {input : String} {m : Machine}
    (hm : p.machine input = .ok m) (max : UInt64) {o : Options} (ho : o.interactive = false)
    (bytes : ByteArray) :
    ∃ s₀, Session.start p input o.interactive = .ok s₀ ∧
      let s := s₀.setMaxSteps max
      let traced := drive bytes { o with trace := true } s
      let quiet := drive bytes { o with trace := false } s
      let ended := (m.run max).2
      let k := ended.now.steps.toNat
      (∀ look, o.list = false → session look bytes o = .ok s →
        run look bytes { o with trace := true } = conclude traced ∧
        run look bytes { o with trace := false } = conclude quiet) ∧
      p.run input (some max) = (m.run max).1.mapError .stuck ∧
      conclude traced = outcomeOf traced.shown max (m.run max) ∧
      conclude quiet = outcomeOf "" max (m.run max) ∧
      ((conclude quiet).exitCode = 2 ↔ ended.status = .stuck ∧ ended.now.steps < max) ∧
      ((conclude quiet).exitCode = 0 ↔ ended.isHalted = true ∨ ended.now.steps = max) ∧
      (∀ i ≤ k, m.ReachesIn i (Machine.next^[i] m)) ∧ Machine.next^[k] m = ended ∧
      traced.shown = m.render o.windowSize ++ "\n\n" ++ frames o.windowSize 0 m k ++
        if ended.isHalted then
          (if m.isHalted then numberedPicture o.windowSize 0 m else "") ++
            s!"HALTED after {k} steps\n"
        else "" := by
  have h0 := Machine.fresh_of_ofInput (Program.machine_eq_ok_iff.1 hm)
  refine ⟨_, Session.start_of_machine hm o.interactive, ?_⟩
  intro s traced quiet ended k
  have htraced : traced = trace o.windowSize s := by simp [traced, drive, ho, Options.windowSize]
  have hquiet : quiet = runQuietly s := by simp [quiet, drive, ho]
  have hended : s.run.2.machine = ended := (s.run_machine).2
  obtain ⟨m', hr, _, hend⟩ := Machine.exists_run_end_of_start h0.steps max
  obtain rfl : ended = m' := by
    obtain ⟨_, hrun⟩ | ⟨_, _, _, hrun⟩ := hend
    · exact congrArg Prod.snd hrun
    · exact congrArg Prod.snd hrun
  obtain ⟨hstuck, hgood⟩ := exitCode_outcomeOf "" max h0.steps
  refine ⟨?_, ?_, ?_, ?_, ?_, ?_, fun i => hr.iterate_next, hr.iterate_next_eq, ?_⟩
  · intro look hlist hs
    have hsession (b : Bool) : session look bytes { o with trace := b } = .ok s := hs
    constructor
    · rw [run, hsession]
      simp [hlist, traced]
    · rw [run, hsession]
      simp [hlist, quiet]
  · simp only [Program.run, hm, bind, Except.bind, Option.getD_some]
  · rw [htraced]
    exact conclude_trace o.windowSize s
  · rw [hquiet]
    exact conclude_runQuietly s
  · rw [hquiet, conclude_runQuietly]
    exact hstuck
  · rw [hquiet, conclude_runQuietly]
    exact hgood
  · rw [htraced, trace_shown o.windowSize s h0.steps, hended]
    rfl

/-- One rule applies, and no rule to what it leaves: one frame is shown, and the exit code is that
of a stuck machine with and without it. -/
theorem trace_agrees_with_run_until_stuck :
    ∃ p m s₀, Program.ofText {} "INIT a Q a R\nQ b HALT b R" = .ok p ∧ p.machine "a" = .ok m ∧
      Session.start p "a" false = .ok s₀ ∧
      (conclude (drive .empty { trace := true } (s₀.setMaxSteps 5))).exitCode = 2 ∧
      (conclude (drive .empty {} (s₀.setMaxSteps 5))).exitCode = 2 ∧
      (drive .empty { trace := true } (s₀.setMaxSteps 5)).shown =
        m.render 10 ++ "\n\n" ++ frames 10 0 m 1 ++ "" := by
  obtain ⟨p, m, hp, hm, htest⟩ := Program.exists_machine {} "INIT a Q a R\nQ b HALT b R" "a"
    (fun _ m => m.now.steps == 0 &&
      (m.stepN 5).2.status == .stuck && (m.stepN 5).2.now.steps == 1 &&
      !(m.stepN 5).2.isHalted) (by decide +kernel)
  simp only [Bool.and_eq_true, beq_iff_eq, Bool.not_eq_true'] at htest
  obtain ⟨⟨⟨hzero, hstatus⟩, hsteps⟩, hhalted⟩ := htest
  have hrun : (m.run 5).2 = (m.stepN 5).2 :=
    congrArg Prod.snd (Machine.run_eq_stepN (n := 5) (by rw [hzero]; rfl))
  obtain ⟨s₀, hs₀, _, _, htraced, _, hcode, _, _, _, hshown⟩ :=
    trace_agrees_with_run hm 5 (o := {}) rfl .empty
  rw [hrun, hsteps] at hcode hshown
  refine ⟨p, m, s₀, hp, hm, hs₀, ?_, hcode.2 ⟨hstatus, by decide⟩, ?_⟩
  · rw [htraced, (exitCode_outcomeOf _ 5 hzero).1, hrun, hsteps]
    exact ⟨hstatus, by decide⟩
  · rw [hshown, hhalted]
    rfl

end TapeMachine.Shell
