import TapeMachine.Files.Lookup
import TapeMachine.Program
import TapeMachine.Settings.Json

/-!
# Loading files

Settings and programs that are kept in files. A directory is loaded file by file; the order in which
the file system lists it does not show in the programs found.
-/

namespace TapeMachine

/-- Reads a file of settings. -/
def Settings.load (look : Lookup) (path : String) : Except Error Settings := do
  let text ← (look.text path).mapError .file
  (Settings.parse text).mapError .settings

/-- The bytes that the greatest rule text can take: four for each character, as long as
that is a 64-bit count. -/
def Settings.maxRulesBytes (s : Settings) : Nat :=
  min (s.maxRulesSize.toNat * 4) (UInt64.size - 1)

namespace Program

/-- Reads a file of rules. A file that has too many bytes to be admissible is not read at all. -/
def load (look : Lookup) (s : Settings) (path : String) : Except Error Program := do
  let found ← (look.get path).mapError .file
  if s.maxRulesBytes < found.size then
    .error (.file (.tooManyBytes path found.size s.maxRulesSize))
  else
    let text ← (found.text.mapError (.unreadable path)).mapError .file
    Program.ofText s text

/-- The ending of the names of rule files. -/
def fileSuffix : String := ".tm"

/-- Whether a name is that of a rule file: the suffix with something before it. -/
def isFileName (name : String) : Bool :=
  name.endsWith fileSuffix && name != fileSuffix

/-- The path of an entry of a directory. -/
def entryPath (directory name : String) : String :=
  if directory.endsWith "/" then directory ++ name else directory ++ "/" ++ name

/-- Whether a path leads to a directory. -/
def isDirectory (look : Lookup) (path : String) : Bool :=
  match look path with
  | .ok found => found.isDirectory
  | .error _ => false

/-- A program with the path of its file, or why there is none. -/
abbrev Loaded := Except Error (String × Program)

/-- What comes of an entry of a directory, if anything does: a failure if the entry cannot be read,
and what its file is loaded as if it is a rule file. -/
def loadListed? (look : Lookup) (s : Settings) (directory : String) : DirectoryEntry → Option Loaded
  | .error cause => some (.error (.file (.unreadableEntry cause)))
  | .ok name =>
    let path := entryPath directory name
    if isFileName name && !isDirectory look path then some ((load look s path).map (path, ·))
    else none

/-- Loads the rule files among the entries of a directory, in the order of `entries`. -/
def loadEntries (look : Lookup) (s : Settings) (directory : String)
    (entries : List DirectoryEntry) : List Loaded :=
  entries.filterMap (loadListed? look s directory)

/-- The order of a directory's programs: by path, and failures after them. -/
def loadedLe : Loaded → Loaded → Bool
  | .ok (a, _), .ok (b, _) => a ≤ b
  | .ok _, .error _ => true
  | .error _, .ok _ => false
  | .error _, .error _ => true

/-- Loads all rule files of a directory: the programs in the order of their paths, then the failures
in the order in which the directory is listed. -/
def loadDirectory (look : Lookup) (s : Settings) (directory : String) : List Loaded :=
  match look directory with
  | .error _ => [.error (.file (.missingDirectory directory))]
  | .ok (.file _) => [.error (.file (.unreadableDirectory directory .notDirectory))]
  | .ok (.directory _ entries) => (loadEntries look s directory entries).mergeSort loadedLe

end Program

end TapeMachine
