import TapeMachine.Program

/-!
# Sample machines

Four small machines that come with the library, each with a tape to try it on. `Catalogue.entries`
holds them with their programs.
-/

namespace TapeMachine

/-- A sample machine. -/
structure Sample where
  name : String
  description : String
  /-- A tape that the machine is meant for. -/
  tape : String
  rules : String
deriving DecidableEq, Inhabited

namespace Sample

/-- Walks to the right over bars and appends one. -/
def findEnd : Sample where
  name := "find-end"
  description := "Walk right over a run of bars and append one more"
  tape := "||||"
  rules :=
    "// Walks right over a run of bars and appends one more.\n" ++
    "// Tape: ||||\n" ++
    "INIT | FIND | R\n" ++
    "FIND | FIND | R\n" ++
    "FIND _ HALT | R\n"

/-- Adds two unary numbers. -/
def unaryAddition : Sample where
  name := "unary-addition"
  description := "Add two unary numbers separated by '+'"
  tape := "||+|||"
  rules :=
    "// Adds two unary numbers separated by '+'.\n" ++
    "// Tape: ||+|||   ->   |||||\n" ++
    "\n" ++
    "INIT | INIT | R    // skip the first operand\n" ++
    "INIT + SEEK | R    // join the operands\n" ++
    "SEEK | SEEK | R\n" ++
    "SEEK _ ERASE _ L   // past the end, step back\n" ++
    "ERASE | HALT _ L   // drop the surplus bar\n"

/-- Adds one to a binary number. -/
def binaryIncrement : Sample where
  name := "binary-increment"
  description := "Add one to a binary number"
  tape := "1011"
  rules :=
    "// Adds one to a binary number, most significant bit first.\n" ++
    "// Tape: 1011   ->   1100\n" ++
    "\n" ++
    "INIT 0 INIT 0 R\n" ++
    "INIT 1 INIT 1 R\n" ++
    "INIT _ CARRY _ L\n" ++
    "\n" ++
    "CARRY 1 CARRY 0 L\n" ++
    "CARRY 0 HALT 1 L\n" ++
    "CARRY _ HALT 1 L   // overflow into a new leading digit\n"

/-- Writes four ones and halts. -/
def busyBeaver2 : Sample where
  name := "busy-beaver-2"
  description := "Two-state busy beaver"
  tape := ""
  rules :=
    "// Two-state busy beaver: writes four ones in six steps on a blank tape.\n" ++
    "// INIT plays the role of state A.\n" ++
    "\n" ++
    "INIT _ B 1 R\n" ++
    "INIT 1 B 1 L\n" ++
    "B _ INIT 1 L\n" ++
    "B 1 HALT 1 R\n"

end Sample

namespace Catalogue

/-- All samples. -/
def samples : List Sample :=
  [.findEnd, .unaryAddition, .binaryIncrement, .busyBeaver2]

/-- A sample with its program under the default settings, if it has one. -/
def compile? (s : Sample) : Option (Sample × Program) :=
  (Program.ofText {} s.rules).toOption.map (s, ·)

/-- The samples that have a program, with it. -/
def entries : List (Sample × Program) :=
  samples.filterMap compile?

/-- The names of the samples. -/
def names : List String :=
  entries.map (·.1.name)

/-- The sample at an index. -/
def get? (index : UInt64) : Option (Sample × Program) :=
  entries[index.toNat]?

/-- The sample of a name. -/
def find? (name : String) : Option (Sample × Program) :=
  entries.find? (·.1.name == name)

end Catalogue

end TapeMachine
