import TapeMachine.Files.Lookup

/-!
# Lines of standard input

Commands are read from bytes: the lines are found first, and a line that is no text does not
hide the ones before it.
-/

namespace TapeMachine.Shell

/-- Cuts bytes after each line feed, with the bytes of the first line in `split.1`. -/
def splitBytes (b : UInt8) (split : List UInt8 × List (List UInt8)) :
    List UInt8 × List (List UInt8) :=
  if b = 10 then ([], split.1 :: split.2) else (b :: split.1, split.2)

/-- The lines of standard input, each as a text if it is one. A last line may lack its line feed. -/
def inputLines (input : ByteArray) : List (Option String) :=
  let split := input.toList.foldr splitBytes ([], [])
  let lines := split.1 :: split.2
  let lines := if lines.getLast? = some [] then lines.dropLast else lines
  lines.map fun bytes => (decodeText ⟨bytes.toArray⟩).toOption

end TapeMachine.Shell
