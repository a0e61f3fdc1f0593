import TapeMachine.Machine.Render
import TapeMachine.Session
import TapeMachine.Shell.Command

/-!
# Driving a machine

Two ways to watch a session: `Shell.trace` shows every step up to the end, and `Shell.converse`
carries out the commands that are typed, one line each.
-/

namespace TapeMachine.Shell

/-- How driving a session ends. -/
inductive Ending where
  /-- The machine halted or reached its step limit, or the user stopped. -/
  | done
  /-- No rule applied. -/
  | stuck (e : Stuck)
  /-- A line of commands is no text. -/
  | unreadable
deriving DecidableEq, Inhabited

/-- A session with what has been shown so far and, when it is over, how it ended. -/
structure Driven (ε : Type) where
  shown : String
  session : Session
  ending : ε

/-- The machine as it is shown. -/
def picture (window : UInt64) (s : Session) : String :=
  s.machine.render window ++ "\n\n"

/-- The line that reports a halted machine. -/
def haltLine (s : Session) : String :=
  s!"HALTED after {s.machine.now.steps} steps\n"

/-- What is shown after a step. -/
def frame (window : UInt64) (s : Session) : String :=
  s!"Step {s.machine.now.steps}\n" ++ picture window s

/-- Applies rules up to the end, showing every step after what is in `shown`. -/
def traceFrom (window : UInt64) (shown : String) (s : Session) : Driven Ending :=
  match _hstep : s.step with
  | (.error e, next) => ⟨shown, next, .stuck e⟩
  | (.ok none, next) => ⟨shown, next, .done⟩
  | (.ok (some .halted), next) =>
    ⟨shown ++ frame window next ++ haltLine next, next, .done⟩
  | (.ok (some .running), next) =>
    traceFrom window (shown ++ frame window next) next
termination_by s.maxSteps.toNat - s.machine.now.steps.toNat
decreasing_by
  exact Session.limit_sub_steps_lt _hstep

/-- Applies rules up to the end, showing the machine before the first step and after each. -/
def trace (window : UInt64) (s : Session) : Driven Ending :=
  traceFrom window (picture window s) s

/-- The text before every line of commands. -/
def prompt : String :=
  "[Enter] step | N: step N times | b N: back to step N | r: reset | q: quit > "

/-- The text before the first line. -/
def opening (window : UInt64) (s : Session) : String :=
  "Turing machine initialized:\n" ++ picture window s

/-- The text with which a session is over, if there is nothing left to do. -/
def closing? (s : Session) : Option String :=
  if s.machine.isHalted then some (haltLine s) else if s.atLimit then some "" else none

/-- The states around an index of the history, as they are shown. -/
def neighboursText (s : Session) (index : UInt64) : String :=
  match s.history with
  | none => ""
  | some h =>
    let (previous, next) := h.neighbours index
    s!"Rewound to step {index} (previous: " ++ previous.getD "--" ++ ", next: " ++ next.getD "--" ++
      ")\n"

/-- Carries out a command. -/
def respond (window : UInt64) (s : Session) : Command → Driven (Option Ending)
  | .step n =>
    match s.stepN n.toNat with
    | (.error e, next) => ⟨"", next, some (.stuck e)⟩
    | (.ok _, next) => ⟨picture window next, next, none⟩
  | .back index =>
    match s.rewind index with
    | (true, next) => ⟨neighboursText next index ++ picture window next, next, none⟩
    | (false, next) => ⟨s!"No snapshot for step {index}\n", next, none⟩
  | .reset => ⟨picture window s.reset, s.reset, none⟩
  | .quit => ⟨"Machine stopped manually\n", s, some .done⟩
  | .unknown text => ⟨"Unrecognized command: " ++ Text.quote text ++ "\n", s, none⟩

/-- Reads lines of commands until the machine halts, the step limit is reached, the user stops or
the lines end. A line that is no text ends the session too. -/
def converseFrom (window : UInt64) (shown : String) (s : Session) :
    List (Option String) → Driven Ending
  | [] =>
    match closing? s with
    | some text => ⟨shown ++ text, s, .done⟩
    | none => ⟨shown ++ prompt, s, .done⟩
  | line :: rest =>
    match closing? s with
    | some text => ⟨shown ++ text, s, .done⟩
    | none =>
      match line with
      | none => ⟨shown ++ prompt, s, .unreadable⟩
      | some line =>
        match respond window s (.parse line) with
        | ⟨text, next, some ending⟩ => ⟨shown ++ prompt ++ text, next, ending⟩
        | ⟨text, next, none⟩ => converseFrom window (shown ++ prompt ++ text) next rest

/-- Carries out lines of commands. -/
def converse (window : UInt64) (s : Session) (lines : List (Option String)) : Driven Ending :=
  converseFrom window (opening window s) s lines

end TapeMachine.Shell
