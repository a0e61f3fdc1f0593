import TapeMachine.Files.Lookup

/-!
# File trees

Files and directories that are kept in memory. `FileTree.lookup` finds what a path leads to, from
the top of the tree: nothing is known of what may lie beside or above it.
-/

namespace TapeMachine

/-- A file, or a directory with the files and directories in it. -/
inductive FileTree where
  | file (content : ByteArray)
  | directory (entries : List (String × FileTree))
deriving Inhabited

namespace FileTree

/-- A directory without entries. -/
def empty : FileTree :=
  directory []

/-- The bytes that a directory takes itself. -/
def directorySize : Nat := 4096

/-- What a node is to somebody who looks at it. -/
def found : FileTree → Found
  | file content => .file content
  | directory entries => .directory directorySize (entries.map fun entry => .ok entry.1)

/-- The entries of a directory; a file has none. -/
def entries : FileTree → List (String × FileTree)
  | file _ => []
  | directory entries => entries

/-- The directory with its entry `name` changed; a new entry starts as an empty directory. -/
def modify (name : String) (change : FileTree → FileTree) (tree : FileTree) : FileTree :=
  let child := (tree.entries.lookup name).getD empty
  directory ((name, change child) :: tree.entries.filter (·.1 != name))

/-- The tree with a node put in the place that the names lead to. Directories on the way are
made. -/
def put (node : FileTree) : List String → FileTree → FileTree
  | [], _ => node
  | name :: rest, tree => tree.modify name (put node rest)

/-- The names that a path is made of. -/
def segments (path : String) : List String :=
  (path.splitOn "/").filter fun name => name != "" && name != "."

/-- The tree with a file at a path. -/
def addFile (path : String) (content : ByteArray) (tree : FileTree) : FileTree :=
  put (file content) (segments path) tree

/-- The tree with a directory at a path; a directory that is there already stays as it is. -/
def addDirectory (path : String) (tree : FileTree) : FileTree :=
  go (segments path) tree
where
  /-- Makes the directories that the names lead through. -/
  go : List String → FileTree → FileTree
    | [], tree => directory tree.entries
    | name :: rest, tree => tree.modify name (go rest)

/-- The greatest number of bytes in a name. -/
def maxNameBytes : Nat := 255

/-- The greatest number of bytes in a path. -/
def maxPathBytes : Nat := 4095

/-- What is wrong with a path, whatever the tree holds. -/
def pathFault? (path : String) : Option ReadFault :=
  if path.toList.contains '\x00' then some .zeroInPath
  else if path.isEmpty then some .notFound
  else if maxPathBytes < path.utf8ByteSize then some .nameTooLong
  else none

/-- Follows names from a node, with the directories it was reached through in `above`. -/
def walk (above : List FileTree) (node : FileTree) : List String → Except ReadFault FileTree
  | [] => .ok node
  | name :: rest =>
    match node with
    | file _ => .error .notDirectory
    | directory entries =>
      if name = "" || name = "." then walk above node rest
      else if name = ".." then
        match above with
        | [] => walk [] empty rest
        | parent :: above => walk above parent rest
      else if maxNameBytes < name.utf8ByteSize then .error .nameTooLong
      else
        match entries.lookup name with
        | none => .error .notFound
        | some child => walk (node :: above) child rest

/-- What a path leads to. The empty path leads nowhere, and a path that begins at the root
leads out of the tree. -/
def lookup (tree : FileTree) : Lookup := fun path =>
  match pathFault? path with
  | some fault => .error fault
  | none =>
    match path.splitOn "/" with
    | "" :: rest => (walk [] empty rest).map found
    | names => (walk [] tree names).map found

end FileTree

end TapeMachine
