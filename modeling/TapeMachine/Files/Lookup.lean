import TapeMachine.Files.Fault

/-!
# Looking at files

What the loaders need to know of a file system: what stands at a path. A file or a directory that is
found can be read; an entry of a directory need not be readable. Paths and names are texts, so what
a directory holds under a name that is no UTF-8 is left out.
-/

namespace TapeMachine

/-- An entry that is met when a directory is listed: its name, which is a text, or why it cannot be
read. -/
abbrev DirectoryEntry := Except ReadFault String

/-- What stands at a path. -/
inductive Found where
  | file (content : ByteArray)
  /-- A directory, with the bytes it takes itself and its entries. -/
  | directory (size : Nat) (entries : List DirectoryEntry)
deriving Inhabited

/-- The number of bytes that something takes. -/
def Found.size : Found → Nat
  | file content => content.size
  | directory size _ => size

/-- Whether a directory was found. -/
def Found.isDirectory : Found → Bool
  | file _ => false
  | directory _ _ => true

/-- A file system, as the answers it gives about paths. -/
abbrev Lookup := String → Except ReadFault Found

/-- The text of bytes. -/
def decodeText (bytes : ByteArray) : Except ReadFault String :=
  match String.fromUTF8? bytes with
  | some text => .ok text
  | none => .error .notText

/-- The text of what was found, if it is a file. -/
def Found.text : Found → Except ReadFault String
  | file content => decodeText content
  | directory _ _ => .error .isDirectory

/-- What stands at a path, or the fault that nothing does. -/
def Lookup.get (look : Lookup) (path : String) : Except FileFault Found :=
  (look path).mapError (.unreadable path)

/-- The text of a file. -/
def Lookup.text (look : Lookup) (path : String) : Except FileFault String := do
  let found ← look.get path
  found.text.mapError (.unreadable path)

end TapeMachine
