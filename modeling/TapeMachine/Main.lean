import TapeMachine.Files.Tree
import TapeMachine.Shell.Memory
import TapeMachine.Shell.Run

/-!
# The program

The command line on the real file system and the real streams: this module reads and prints, and all
that is to be decided is decided by `Shell`.
-/

namespace TapeMachine.Console

open Shell

/-- What stands at a path. -/
def find (path : String) : IO (Except ReadFault Found) := do
  try
    return .ok (.file (← IO.FS.readBinFile path))
  catch
    | .noFileOrDirectory .. => return .error .notFound
    | .inappropriateType _ code _ =>
      if code = 21 then return .ok (.directory FileTree.directorySize [])
      else return .error .notDirectory
    | .invalidArgument .. => return .error .nameTooLong
    | other => throw other

/-- The answers about the paths that the options name. -/
def lookup (o : Options) : IO Lookup := do
  let found ← (o.settingsFile.toList ++ o.rulesFile.toList).mapM fun path =>
    return (path, ← find path)
  return fun path => (found.lookup path).getD (.error .notFound)

/-- All bytes of a stream, after these. -/
partial def readAll (stream : IO.FS.Stream) (bytes : ByteArray) : IO ByteArray := do
  let chunk ← stream.read 65536
  if chunk.isEmpty then return bytes else readAll stream (bytes ++ chunk)

/-- Shows a text at once. -/
def put (text : String) : IO Unit := do
  let out ← IO.getStdout
  out.putStr text
  out.flush

/-- Carries out commands while they are typed. -/
partial def converse (window : UInt64) (s : Session) : IO (Driven Ending) := do
  match closing? s with
  | some text =>
    put text
    return ⟨"", s, .done⟩
  | none =>
    put prompt
    let line ← try some <$> (← IO.getStdin).getLine catch _ => pure none
    match line with
    | none => return ⟨"", s, .unreadable⟩
    | some "" => return ⟨"", s, .done⟩
    | some line =>
      let answer := respond window s (.parse line)
      put answer.shown
      match answer.ending with
      | some ending => return ⟨"", answer.session, ending⟩
      | none => converse window answer.session

/-- Nanoseconds as seconds with five decimal places. -/
def renderSeconds (nanos : Nat) : String :=
  let places := divRound nanos 10000
  let fraction := toString (places % 100000)
  toString (places / 100000) ++ "." ++ "".pushn '0' (5 - fraction.length) ++ fraction

/-- The bytes of memory in use, where the system tells. -/
def memory : IO (Option UInt64) := do
  try
    let sizes := (← IO.FS.readFile "/proc/self/statm").splitOn " "
    return (sizes[1]?.bind String.toNat?).map fun pages => (pages * 4096).toUInt64
  catch _ => return none

/-- The lines with the time and the memory that a run took. -/
def measurements (nanos : Nat) : IO String := do
  return "   Time run: " ++ renderSeconds nanos ++ "s\nMemory used: " ++
    renderMemory (← memory) ++ "\n"

/-- Prints an outcome. -/
def print (nanos : Nat) (o : Outcome) : IO UInt32 := do
  for piece in o.output do
    match piece with
    | .text content => put content
    | .measurements => put (← measurements nanos)
  (← IO.getStderr).putStr o.errors
  return o.exitCode

/-- Runs the command line. Commands are carried out while they are typed. -/
def run (o : Options) : IO UInt32 := do
  let look ← lookup o
  let fromInput := !o.list && !o.interactive && o.sample.isNone && o.rulesFile.isNone
  let input ← if fromInput then readAll (← IO.getStdin) .empty else pure .empty
  let start ← IO.monoNanosNow
  let outcome ← match o.list || !o.interactive, session look input o with
    | false, .ok s => do
      put (opening o.windowSize s)
      pure (conclude (← converse o.windowSize s))
    | _, _ => pure (Shell.run look input o)
  print ((← IO.monoNanosNow) - start) outcome

/-- The text for arguments that cannot be read. -/
def usage : String :=
  "Usage: tape-machine [RULES_FILE] [--tape TAPE] [--builtin NAME] [--list] [--max-steps N]\n" ++
  "                    [--init STATE] [--halt STATE] [--blank SYMBOL] [--config FILE]\n" ++
  "                    [--trace | --interactive] [--window N] [--verbose]\n"

end TapeMachine.Console

/-- The program. -/
def main (args : List String) : IO UInt32 := do
  match TapeMachine.Shell.Options.parse? args with
  | none =>
    (← IO.getStderr).putStr TapeMachine.Console.usage
    return 2
  | some o => TapeMachine.Console.run o
