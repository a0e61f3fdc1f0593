import TapeMachine.Machine.Render
import TapeMachine.Text.Numeral

/-!
# Command-line options

`Options.parse?` reads the arguments of the command line. Options have a long name after two
hyphens or a letter after one; letters can be put together, and a value follows in the same
argument or in the next.
-/

namespace TapeMachine.Shell

/-- What the command line asks for. -/
structure Options where
  /-- The file of rules. -/
  rulesFile : Option String := none
  /-- The input tape. -/
  tape : Option String := none
  /-- The name of a sample machine to run. -/
  sample : Option String := none
  /-- Whether to list the sample machines and do nothing else. -/
  list : Bool := false
  maxSteps : Option UInt64 := none
  initState : Option String := none
  haltState : Option String := none
  blank : Option Char := none
  /-- The file of settings. -/
  settingsFile : Option String := none
  /-- Whether to show every step. -/
  trace : Bool := false
  /-- Whether to read commands. -/
  interactive : Bool := false
  /-- The cells shown beyond the tape. -/
  window : Option UInt64 := none
  /-- How much to log: nothing is logged, so this has no effect. -/
  verbosity : Nat := 0
deriving DecidableEq, Inhabited

/-- An option without a value. -/
inductive Flag where
  | list
  | trace
  | interactive
  | verbose
deriving DecidableEq, Inhabited

/-- An option with a value. -/
inductive Setting where
  | tape
  | sample
  | maxSteps
  | initState
  | haltState
  | blank
  | settingsFile
  | window
deriving DecidableEq, Inhabited

/-- Either kind of option. -/
inductive Switch where
  | flag (f : Flag)
  | setting (s : Setting)
deriving DecidableEq, Inhabited

/-- The option of a long name. -/
def Switch.ofName? : String → Option Switch
  | "list" => some (.flag .list)
  | "trace" => some (.flag .trace)
  | "interactive" => some (.flag .interactive)
  | "verbose" => some (.flag .verbose)
  | "tape" => some (.setting .tape)
  | "builtin" => some (.setting .sample)
  | "max-steps" => some (.setting .maxSteps)
  | "init" => some (.setting .initState)
  | "halt" => some (.setting .haltState)
  | "blank" => some (.setting .blank)
  | "config" => some (.setting .settingsFile)
  | "window" => some (.setting .window)
  | _ => none

/-- The option of a letter. -/
def Switch.ofLetter? : Char → Option Switch
  | 'i' => some (.flag .interactive)
  | 'v' => some (.flag .verbose)
  | 't' => some (.setting .tape)
  | 'b' => some (.setting .sample)
  | 'm' => some (.setting .maxSteps)
  | 'c' => some (.setting .settingsFile)
  | _ => none

namespace Options

/-- The cells shown beyond the tape. -/
def windowSize (o : Options) : UInt64 :=
  o.window.getD Machine.defaultWindow

/-- Turns a flag on. Only the one for logging may be repeated. -/
def turnOn? (o : Options) : Flag → Option Options
  | .list => if o.list then none else some { o with list := true }
  | .trace => if o.trace then none else some { o with trace := true }
  | .interactive => if o.interactive then none else some { o with interactive := true }
  | .verbose => some { o with verbosity := o.verbosity + 1 }

/-- The first value of an option; `none` if it has one already or is given a value that cannot be
read. -/
def fill? {α : Type} (old : Option α) (value : Option α) : Option (Option α) :=
  if old.isSome || value.isNone then none else some value

/-- A file name must not be empty. -/
def fileName? (value : String) : Option String :=
  if value.isEmpty then none else some value

/-- A value of one character. -/
def letter? (value : String) : Option Char :=
  match value.toList with
  | [c] => some c
  | _ => none

/-- Gives an option its value. -/
def set? (o : Options) (s : Setting) (value : String) : Option Options :=
  match s with
  | .tape => (fill? o.tape (some value)).map fun v => { o with tape := v }
  | .sample => (fill? o.sample (some value)).map fun v => { o with sample := v }
  | .maxSteps =>
    (fill? o.maxSteps (Text.parseNumeral? value.toList)).map fun v => { o with maxSteps := v }
  | .initState => (fill? o.initState (some value)).map fun v => { o with initState := v }
  | .haltState => (fill? o.haltState (some value)).map fun v => { o with haltState := v }
  | .blank => (fill? o.blank (letter? value)).map fun v => { o with blank := v }
  | .settingsFile =>
    (fill? o.settingsFile (fileName? value)).map fun v => { o with settingsFile := v }
  | .window =>
    (fill? o.window (Text.parseNumeral? value.toList)).map fun v => { o with window := v }

/-- Takes an argument that is no option for the file of rules. -/
def setRules? (o : Options) (path : String) : Option Options :=
  (fill? o.rulesFile (fileName? path)).map fun v => { o with rulesFile := v }

/-- The options after an argument, with the one that still waits for its value. -/
abbrev Pending := Options × Option Setting

/-- Reads a long option: its name, and its value after an equals sign. -/
def readName? (o : Options) (text : List Char) : Option Pending :=
  let name := String.ofList (text.takeWhile (· != '='))
  match Switch.ofName? name, text.dropWhile (· != '=') with
  | some (.flag f), [] => (o.turnOn? f).map (·, none)
  | some (.setting s), [] => some (o, some s)
  | some (.setting s), _ :: value => (o.set? s (String.ofList value)).map (·, none)
  | _, _ => none

/-- Reads letters: flags, and at most one option with a value, which is what remains. -/
def readLetters? (o : Options) : List Char → Option Pending
  | [] => some (o, none)
  | c :: rest =>
    match Switch.ofLetter? c with
    | none => none
    | some (.flag f) => (o.turnOn? f).bind (readLetters? · rest)
    | some (.setting s) =>
      match rest with
      | [] => some (o, some s)
      | '=' :: value => (o.set? s (String.ofList value)).map (·, none)
      | value => (o.set? s (String.ofList value)).map (·, none)

/-- Whether an argument can be a value or a file name: a hyphen alone can. -/
def isPlain (arg : String) : Bool :=
  match arg.toList with
  | '-' :: _ :: _ => false
  | _ => true

/-- Reads an argument. -/
def readArgument? (o : Options) (arg : String) : Option Pending :=
  if isPlain arg then (o.setRules? arg).map (·, none)
  else
    match arg.toList with
    | '-' :: '-' :: name => o.readName? name
    | letters => o.readLetters? (letters.drop 1)

/-- Reads arguments. After two hyphens alone, what follows are no options. -/
def readAll? (o : Options) : List String → Option Options
  | [] => some o
  | arg :: rest =>
    if arg = "--" then rest.foldlM setRules? o
    else
      match o.readArgument? arg with
      | none => none
      | some (o, none) => o.readAll? rest
      | some (o, some s) =>
        match rest with
        | [] => none
        | value :: rest => if isPlain value then (o.set? s value).bind (·.readAll? rest) else none

/-- Whether options contradict each other: two sources of rules, or two ways to show steps. -/
def hasConflict (o : Options) : Bool :=
  (o.sample.isSome && o.rulesFile.isSome) || (o.trace && o.interactive)

/-- The options that arguments give. -/
def parse? (args : List String) : Option Options := do
  let o ← readAll? {} args
  if o.hasConflict then none else some o

end Options

end TapeMachine.Shell
