import TapeMachine.Proofs.Session.Failures
import TapeMachine.Proofs.Session.Limits
import TapeMachine.Shell.Run

/-!
# Scripts of commands

The loop that reads commands takes one line a turn. Whatever the lines are, the machine that it
drives never leaves the one run that its input allows (`Session.OnCourse`), and so the result that
is printed at the end is that of a run with the final step count as its limit.

## Main definitions

- `Session.OnCourse`: a recorded session within a limit, on the run of a freshly loaded machine
- `Shell.Idle`: the commands that change nothing in a session
- `Shell.turn`: one turn of the loop, which ends it or takes a line
- `Shell.EndsIn`: the loop ends after a number of turns that went on
-/

namespace TapeMachine

namespace Session

/-- The session is on the run of `m₀` that `max` steps limit, and its history records that run. -/
structure OnCourse (m₀ : Machine) (max : UInt64) (s : Session) : Prop where
  limit : s.maxSteps = max
  recorded : ∃ h, s.history = some h ∧ Records m₀ h s.machine ∧ h.toList.length ≤ max.toNat

namespace OnCourse

variable {m₀ m : Machine} {max : UInt64} {s t : Session}

theorem steps_le (hc : OnCourse m₀ max s) : s.machine.now.steps ≤ max := by
  obtain ⟨h, _, hr, hlength⟩ := hc.recorded
  exact UInt64.le_iff_toNat_le.2 (Nat.le_trans hr.steps_le hlength)

theorem start (h0 : m₀.Fresh) (max : UInt64) : OnCourse m₀ max ⟨m₀, some .empty, max⟩ where
  limit := rfl
  recorded := ⟨.empty, rfl, .start h0, Nat.zero_le _⟩

theorem advance (hc : OnCourse m₀ max s) (hlt : s.machine.now.steps < s.maxSteps)
    (ha : s.machine.Applies m) : OnCourse m₀ max (s.advanceTo m) := by
  obtain ⟨h, hs, hr, _⟩ := hc.recorded
  refine ⟨hc.limit, h.record s.machine.now, ?_, hr.record hlt ha, ?_⟩
  · simp [advanceTo, hs]
  · -- The history is cut at the step count, which is below the limit, before it grows.
    rw [hc.limit] at hlt
    have hlt := UInt64.lt_iff_toNat_lt.1 hlt
    rw [History.toList_record, List.length_append, List.length_take, List.length_singleton]
    omega

theorem climbs (hc : OnCourse m₀ max s) (h : s.Climbs t) : OnCourse m₀ max t := by
  induction h with
  | refl => exact hc
  | advance _ hlt ha ih => exact ih.advance hlt ha

theorem rewind (h0 : m₀.Fresh) (hc : OnCourse m₀ max s) (index : UInt64) :
    OnCourse m₀ max (s.rewind index).2 := by
  obtain ⟨h, hs, hr, hlength⟩ := hc.recorded
  cases hseek : s.seek index with
  | none =>
    rw [Session.rewind, hseek]
    exact hc
  | some c =>
    rw [rewind_of_seek hseek]
    exact ⟨hc.limit, h, hs, hr.restore h0 ((seek_eq_some_iff hs index c).1 hseek), hlength⟩

theorem reset (h0 : m₀.Fresh) (hc : OnCourse m₀ max s) : OnCourse m₀ max s.reset := by
  obtain ⟨h, hs, hr, _⟩ := hc.recorded
  have hreset : s.reset = ⟨m₀, some .empty, max⟩ := by
    rw [Session.reset, hs, hc.limit, hr.reached.reset_eq h0]
    rfl
  rw [hreset]
  exact .start h0 max

/-- A run of the freshly loaded machine up to where the session stands comes to the
machine of the session. -/
theorem run_eq (h0 : m₀.Fresh) (hc : OnCourse m₀ max s) :
    m₀.run s.machine.now.steps = (.ok s.machine.report, s.machine) := by
  obtain ⟨h, _, hr, _⟩ := hc.recorded
  have hzero : m₀.now.steps.toNat = 0 := by
    rw [h0.steps]
    rfl
  rw [hr.reached.run_eq (fun _ => by omega), Machine.run_of_isDone]
  simp [Machine.isDone]

end OnCourse

end Session

namespace Shell

open Session (OnCourse)

variable {m₀ : Machine} {max window : UInt64} {s : Session} {command : Command}

/-! ## Commands -/

theorem respond_step (window : UInt64) (s : Session) (n : UInt64) :
    respond window s (.step n) = match s.stepN n.toNat with
      | (.error e, next) => ⟨"", next, some (.stuck e)⟩
      | (.ok _, next) => ⟨picture window next, next, none⟩ :=
  rfl

theorem respond_back (window : UInt64) (s : Session) (index : UInt64) :
    respond window s (.back index) = match s.rewind index with
      | (true, next) => ⟨neighboursText next index ++ picture window next, next, none⟩
      | (false, next) => ⟨s!"No snapshot for step {index}\n", next, none⟩ :=
  rfl

/-- The commands that change nothing: those that are none, and those that would go back to a place
where nothing is recorded. -/
inductive Idle (s : Session) : Command → Prop where
  | back {index : UInt64} (h : ∀ history, s.history = some history → history.length ≤ index.toNat) :
    Idle s (.back index)
  | unknown (text : String) : Idle s (.unknown text)

theorem respond_of_idle (h : Idle s command) (window : UInt64) :
    ∃ text, respond window s command = ⟨text, s, none⟩ := by
  cases h with
  | @back index h =>
    have hseek : s.seek index = none := by
      cases hs : s.history with
      | none => simp [Session.seek, hs]
      | some history =>
        have hle := h history hs
        rw [← Option.not_isSome_iff_eq_none, Session.seek_isSome_iff hs]
        omega
    have hrewind : s.rewind index = (false, s) := by rw [Session.rewind, hseek]
    rw [respond_back, hrewind]
    exact ⟨_, rfl⟩
  | unknown text => exact ⟨_, rfl⟩

/-- No command takes the session off its course. -/
theorem respond_onCourse (h0 : m₀.Fresh) (hc : OnCourse m₀ max s) (window : UInt64)
    (command : Command) : OnCourse m₀ max (respond window s command).session := by
  cases command with
  | step n =>
    have hclimbs := hc.climbs (s.climbs_stepN n.toNat)
    rw [respond_step]
    split
    · rename_i heq
      rwa [heq] at hclimbs
    · rename_i heq
      rwa [heq] at hclimbs
  | back index =>
    have hback := hc.rewind h0 index
    rw [respond_back]
    split
    · rename_i heq
      rwa [heq] at hback
    · rename_i heq
      rwa [heq] at hback
  | reset => exact hc.reset h0
  | quit => exact hc
  | unknown text => exact hc

/-- Only steps can fail, and then no rule applies to the machine where the session stands. -/
theorem respond_ending {ending : Ending} (h : (respond window s command).ending = some ending) :
    let t := (respond window s command).session
    ending = .done ∨ ending = .stuck t.machine.stuck ∧ t.machine.status = .stuck := by
  cases command with
  | step n =>
    rw [respond_step] at h ⊢
    split at h
    · rename_i e next heq
      obtain rfl := Option.some.inj h
      obtain ⟨k, _, hfails⟩ := Session.failsAfter_of_stepN heq
      obtain ⟨rfl, hstatus⟩ := Session.stuck_of_step_error hfails.last_step
      exact .inr ⟨rfl, hstatus⟩
    · cases h
  | back index =>
    rw [respond_back] at h
    split at h
    · cases h
    · cases h
  | reset => cases h
  | quit => exact .inl (Option.some.inj h).symm
  | unknown text => cases h

/-! ## The loop -/

/-- Where the loop stands before a turn. -/
structure Conversation where
  shown : String
  session : Session
  lines : List (Option String)

variable {c c' : Conversation} {d : Driven Ending} {n : Nat}

/-- One turn: the loop ends, or it has carried out the command on the first line. -/
def turn (window : UInt64) (c : Conversation) : Driven Ending ⊕ Conversation :=
  match closing? c.session with
  | some text => .inl ⟨c.shown ++ text, c.session, .done⟩
  | none =>
    match c.lines with
    | [] => .inl ⟨c.shown ++ prompt, c.session, .done⟩
    | none :: _ => .inl ⟨c.shown ++ prompt, c.session, .unreadable⟩
    | some line :: rest =>
      match respond window c.session (.parse line) with
      | ⟨text, next, some ending⟩ => .inl ⟨c.shown ++ prompt ++ text, next, ending⟩
      | ⟨text, next, none⟩ => .inr ⟨c.shown ++ prompt ++ text, next, rest⟩

theorem converseFrom_eq (window : UInt64) (c : Conversation) :
    converseFrom window c.shown c.session c.lines = match turn window c with
      | .inl d => d
      | .inr c' => converseFrom window c'.shown c'.session c'.lines := by
  obtain ⟨shown, s, lines⟩ := c
  cases lines with
  | nil =>
    simp only [converseFrom, turn]
    cases closing? s with
    | some text => rfl
    | none => rfl
  | cons line rest =>
    simp only [converseFrom, turn]
    cases closing? s with
    | some text => rfl
    | none =>
      cases line with
      | none => rfl
      | some line =>
        dsimp only
        obtain ⟨text, next, ending⟩ := respond window s (.parse line)
        cases ending with
        | none => rfl
        | some ending => rfl

theorem turn_eq_inr (h : turn window c = .inr c') :
    ∃ line, c.lines = some line :: c'.lines ∧
      c'.session = (respond window c.session (.parse line)).session := by
  unfold turn at h
  split at h
  · cases h
  · split at h
    · cases h
    · cases h
    · rename_i line rest hlines
      split at h
      · cases h
      · rename_i heq
        cases h
        exact ⟨line, hlines, by rw [heq]⟩

theorem turn_eq_inl (h : turn window c = .inl d) :
    d.session = c.session ∧ (d.ending = .done ∨ d.ending = .unreadable ∧ none ∈ c.lines) ∨
      ∃ command, d.session = (respond window c.session command).session ∧
        (respond window c.session command).ending = some d.ending := by
  unfold turn at h
  split at h
  · cases h
    exact .inl ⟨rfl, .inl rfl⟩
  · split at h
    · cases h
      exact .inl ⟨rfl, .inl rfl⟩
    · rename_i hlines
      cases h
      exact .inl ⟨rfl, .inr ⟨rfl, by simp [hlines]⟩⟩
    · rename_i line rest _
      split at h
      · rename_i heq
        cases h
        exact .inr ⟨.parse line, by rw [heq], by rw [heq]⟩
      · cases h

/-- An idle command takes its line and nothing else, unless the loop is over before it is read. -/
theorem turn_of_idle {line : String} {rest : List (Option String)} (hopen : closing? s = none)
    (h : Idle s (.parse line)) (window : UInt64) (shown : String) :
    ∃ text, turn window ⟨shown, s, some line :: rest⟩ =
      .inr ⟨shown ++ prompt ++ text, s, rest⟩ := by
  obtain ⟨text, hrespond⟩ := respond_of_idle h window
  refine ⟨text, ?_⟩
  rw [turn, hopen]
  simp only [hrespond]

/-- After `n` turns that went on, the next one ends the loop. -/
inductive EndsIn (window : UInt64) : Nat → Conversation → Driven Ending → Prop where
  | last {c : Conversation} {d : Driven Ending} (h : turn window c = .inl d) : EndsIn window 0 c d
  | more {n : Nat} {c c' : Conversation} {d : Driven Ending} (h : turn window c = .inr c')
    (hrest : EndsIn window n c' d) : EndsIn window (n + 1) c d

/-- There are no more turns than lines, as each turn that goes on takes one. -/
theorem endsIn_converseFrom (window : UInt64) (c : Conversation) :
    ∃ n ≤ c.lines.length, EndsIn window n c (converseFrom window c.shown c.session c.lines) := by
  induction hlines : c.lines generalizing c with
  | nil =>
    rw [← hlines, converseFrom_eq]
    cases hturn : turn window c with
    | inl d => exact ⟨0, Nat.zero_le _, .last hturn⟩
    | inr c' =>
      obtain ⟨line, hcons, _⟩ := turn_eq_inr hturn
      rw [hlines] at hcons
      cases hcons
  | cons first rest ih =>
    rw [← hlines, converseFrom_eq]
    cases hturn : turn window c with
    | inl d => exact ⟨0, Nat.zero_le _, .last hturn⟩
    | inr c' =>
      obtain ⟨line, hcons, _⟩ := turn_eq_inr hturn
      obtain rfl : rest = c'.lines := (List.cons.inj (hlines.symm.trans hcons)).2
      obtain ⟨n, hn, hends⟩ := ih c' rfl
      exact ⟨n + 1, by simpa [hlines] using hn, .more hturn hends⟩

theorem EndsIn.onCourse (h0 : m₀.Fresh) (h : EndsIn window n c d) (hc : OnCourse m₀ max c.session) :
    OnCourse m₀ max d.session := by
  induction h with
  | last hturn =>
    obtain ⟨hsession, _⟩ | ⟨command, hsession, _⟩ := turn_eq_inl hturn
    · rwa [hsession]
    · rw [hsession]
      exact respond_onCourse h0 hc window command
  | more hturn _ ih =>
    obtain ⟨line, _, hsession⟩ := turn_eq_inr hturn
    refine ih ?_
    rw [hsession]
    exact respond_onCourse h0 hc window _

theorem EndsIn.ending (h : EndsIn window n c d) :
    d.ending = .done ∨ d.ending = .unreadable ∧ none ∈ c.lines ∨
      d.ending = .stuck d.session.machine.stuck ∧ d.session.machine.status = .stuck := by
  induction h with
  | last hturn =>
    obtain ⟨_, hdone | hunreadable⟩ | ⟨command, hsession, hending⟩ := turn_eq_inl hturn
    · exact .inl hdone
    · exact .inr (.inl hunreadable)
    · rw [hsession]
      obtain hdone | hstuck := respond_ending hending
      · exact .inl hdone
      · exact .inr (.inr hstuck)
  | more hturn _ ih =>
    obtain ⟨line, hlines, _⟩ := turn_eq_inr hturn
    obtain hdone | ⟨hunreadable, hmem⟩ | hstuck := ih
    · exact .inl hdone
    · refine .inr (.inl ⟨hunreadable, ?_⟩)
      rw [hlines]
      exact List.mem_cons_of_mem _ hmem
    · exact .inr (.inr hstuck)

/-! ## What is printed at the end -/

theorem output_conclude (d : Driven Ending) :
    [.text d.shown, .text (resultText d.session.machine.report), .measurements] <+:
      (conclude d).output := by
  rw [conclude]
  cases d.ending with
  | done => exact List.prefix_append _ _
  | stuck e => exact List.prefix_rfl
  | unreadable => exact List.prefix_rfl

/-- Whatever lines are typed, the loop ends with one of them taken by every turn that goes on. The
only failure of the machine is that no rule applies to it, and any other that a line is no text. The
result that is printed is that of a run with the final step count as its limit, which is within the
limit of the session. Lines that are no command, and those that go back to where nothing is
recorded, leave the session as it is. -/
theorem scripts_agree_with_run {p : Program} {input : String} {m : Machine}
    (hm : p.machine input = .ok m) (window max : UInt64) (lines : List (Option String)) :
    ∃ s₀, Session.start p input true = .ok s₀ ∧
      let s := s₀.setMaxSteps max
      let d := converse window s lines
      let k := d.session.machine.now.steps
      (∀ look bytes o, o.list = false → o.interactive = true → session look bytes o = .ok s →
        o.windowSize = window → inputLines bytes = lines → run look bytes o = conclude d) ∧
      (∃ n ≤ lines.length, EndsIn window n ⟨opening window s, s, lines⟩ d) ∧
      (∀ c c', turn window c = .inr c' → ∃ line, c.lines = some line :: c'.lines) ∧
      (d.ending = .done ∨ d.ending = .unreadable ∧ none ∈ lines ∨
        d.ending = .stuck d.session.machine.stuck ∧ d.session.machine.status = .stuck) ∧
      k ≤ max ∧
      p.run input (some k) = .ok d.session.machine.report ∧
      [.text d.shown, .text (resultText d.session.machine.report), .measurements] <+:
        (conclude d).output ∧
      ∀ t line rest shown, closing? t = none → Idle t (.parse line) →
        ∃ text, turn window ⟨shown, t, some line :: rest⟩ =
          .inr ⟨shown ++ prompt ++ text, t, rest⟩ := by
  have h0 := Machine.fresh_of_ofInput (Program.machine_eq_ok_iff.1 hm)
  refine ⟨_, Session.start_of_machine hm true, ?_⟩
  intro s d k
  obtain ⟨n, hn, hends⟩ := endsIn_converseFrom window ⟨opening window s, s, lines⟩
  have hcourse : OnCourse m max d.session := hends.onCourse h0 (.start h0 max)
  refine ⟨?_, ⟨n, hn, hends⟩, ?_, hends.ending, hcourse.steps_le, ?_, output_conclude d, ?_⟩
  · intro look bytes o hlist hinteractive hs hwindow hlines
    rw [run, hs]
    simp [hlist, drive, hinteractive, hwindow, hlines, d]
  · intro c c' hturn
    obtain ⟨line, hlines, _⟩ := turn_eq_inr hturn
    exact ⟨line, hlines⟩
  · simp only [Program.run, hm, bind, Except.bind, Option.getD_some, k, hcourse.run_eq h0]
    rfl
  · intro t line rest shown hopen hidle
    exact turn_of_idle hopen hidle window shown

/-- Two steps, back before the second of them, a line that is no command, one more step, and a
line that is no text. -/
theorem scripts_agree_with_run_rewound :
    ∃ p m s₀, Program.ofText {} "INIT a INIT b R\nINIT _ HALT c L" = .ok p ∧
      p.machine "aaa" = .ok m ∧ Session.start p "aaa" true = .ok s₀ ∧
      let d := converse 10 (s₀.setMaxSteps 3) [some "2", some "b 1", some "back", some "", none]
      d.session.machine.now.steps ≤ 3 ∧
      p.run "aaa" (some d.session.machine.now.steps) = .ok d.session.machine.report := by
  obtain ⟨p, m, hp, hm, _⟩ := Program.exists_machine {} "INIT a INIT b R\nINIT _ HALT c L" "aaa"
    (fun _ _ => true) (by decide +kernel)
  obtain ⟨s₀, hs₀, _, _, _, _, hle, hrun, _⟩ := scripts_agree_with_run hm 10 3
    [some "2", some "b 1", some "back", some "", none]
  exact ⟨p, m, s₀, hp, hm, hs₀, hle, hrun⟩

end Shell

end TapeMachine
