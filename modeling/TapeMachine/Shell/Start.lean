import TapeMachine.Files.Loader
import TapeMachine.Session
import TapeMachine.Shell.Failure
import TapeMachine.Shell.Options

/-!
# Starting a session

From options to a session: settings are put together, and a program is found in the catalogue, in a
file or on standard input.
-/

namespace TapeMachine.Shell

/-- The settings of a run: those of the file, or the default ones, with what the options change. -/
def settings (look : Lookup) (o : Options) : Except Failure Settings := do
  let base ← match o.settingsFile with
    | some path => (Settings.load look path).mapError (.settingsFile path)
    | none => pure {}
  let s : Settings := { base with
    initState := o.initState.getD base.initState
    haltState := o.haltState.getD base.haltState
    blank := o.blank.getD base.blank }
  s.check.mapError (.refused ∘ .settings)
  return s

/-- The program of a run, with the tape it is run on if the options give none. -/
def program (look : Lookup) (input : ByteArray) (o : Options) (s : Settings) :
    Except Failure (Program × String) :=
  match o.sample, o.rulesFile with
  | some name, _ =>
    match Catalogue.find? name with
    | none => .error (.unknownSample name)
    | some (sample, _) =>
      ((Program.ofText s sample.rules).mapError (.sample name)).map (·, sample.tape)
  | none, some path => ((Program.load look s path).mapError (.rulesFile path)).map (·, "")
  | none, none =>
    if o.interactive then .error .rulesAndCommands
    else
      match decodeText input with
      | .error _ => .error .unreadableRules
      | .ok text => ((Program.ofText s text).mapError .rules).map (·, "")

/-- The session that is driven. -/
def session (look : Lookup) (input : ByteArray) (o : Options) : Except Failure Session := do
  let s ← settings look o
  let (p, tape) ← program look input o s
  let started ← (Session.start p (o.tape.getD tape) o.interactive).mapError .refused
  return { started with maxSteps := o.maxSteps.getD started.maxSteps }

end TapeMachine.Shell
