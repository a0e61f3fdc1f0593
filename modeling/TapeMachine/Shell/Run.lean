import TapeMachine.Shell.Input
import TapeMachine.Shell.Interactive
import TapeMachine.Shell.Listing
import TapeMachine.Shell.Start

/-!
# Running the command line

`Shell.run` does what the options ask for: it lists the samples, or starts a session, drives
it and prints its result.
-/

namespace TapeMachine.Shell

/-- A piece of the output. -/
inductive Output where
  | text (content : String)
  /-- The lines with the time and the memory that the run took, which are not known here. -/
  | measurements
deriving DecidableEq, Inhabited

/-- What the command prints, and its exit code. -/
structure Outcome where
  exitCode : UInt32
  output : List Output
  errors : String
deriving DecidableEq, Inhabited

/-- Runs a session without showing its steps. -/
def runQuietly (s : Session) : Driven Ending :=
  match s.run with
  | (.error e, next) => ⟨"", next, .stuck e⟩
  | (.ok _, next) => ⟨"", next, .done⟩

/-- Drives a session in the way that the options ask for. -/
def drive (input : ByteArray) (o : Options) (s : Session) : Driven Ending :=
  if o.interactive then converse o.windowSize s (inputLines input)
  else if o.trace then trace o.windowSize s
  else runQuietly s

/-- The lines with the result of a run. -/
def resultText (r : Report) : String :=
  "Result Tape: '" ++ r.tape ++ "'\n" ++ s!"Steps Count: {r.steps}\nTotal Rules: {r.rules}\n\n"

/-- The notice that a run ended at its step limit. -/
def limitText (s : Session) : String :=
  if s.atLimit then s!"\nStopped at the step ceiling ({s.maxSteps}) without halting\n" else ""

/-- The outcome of a failure. -/
def Failure.outcome (f : Failure) (output : List Output) : Outcome :=
  { exitCode := 1, output, errors := "Error: " ++ f.message ++ "\n" }

/-- The outcome of a session that was driven to its end. -/
def conclude (d : Driven Ending) : Outcome :=
  let result := [.text d.shown, .text (resultText d.session.machine.report), .measurements]
  match d.ending with
  | .done =>
    { exitCode := 0, output := result ++ [.text (limitText d.session)], errors := "" }
  | .stuck e =>
    { exitCode := 2, output := result, errors := "\nMachine stuck: " ++ e.message ++ "\n" }
  | .unreadable => Failure.unreadableCommand.outcome result

/-- Runs the command line on a file system and the bytes of standard input. -/
def run (look : Lookup) (input : ByteArray) (o : Options) : Outcome :=
  if o.list then { exitCode := 0, output := [.text sampleList], errors := "" }
  else
    match session look input o with
    | .error f => f.outcome []
    | .ok s => conclude (drive input o s)

end TapeMachine.Shell
