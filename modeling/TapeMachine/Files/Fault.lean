/-!
# Faults of files

What can go wrong between the path of a rule file and its text.
-/

namespace TapeMachine

/-- Why reading a file or a directory failed. -/
inductive ReadFault where
  | notFound
  | notDirectory
  | isDirectory
  /-- The path, or a name in it, has too many bytes. -/
  | nameTooLong
  /-- The path holds the character U+0000, which ends a path for the system. -/
  | zeroInPath
  | notText
  /-- Any other failure, with the text that the system has for it. -/
  | system (text : String)
deriving DecidableEq, Inhabited

/-- The text that reports a failure to read. -/
def ReadFault.message : ReadFault → String
  | notFound => "No such file or directory (os error 2)"
  | notDirectory => "Not a directory (os error 20)"
  | isDirectory => "Is a directory (os error 21)"
  | nameTooLong => "File name too long (os error 36)"
  | zeroInPath => "file name contained an unexpected NUL byte"
  | notText => "stream did not contain valid UTF-8"
  | system text => text

/-- What can be wrong with a file or a directory of rules. -/
inductive FileFault where
  /-- The file cannot be read. -/
  | unreadable (path : String) (cause : ReadFault)
  /-- The file has `bytes` bytes, too many for `max` characters. -/
  | tooManyBytes (path : String) (bytes : Nat) (max : UInt64)
  /-- There is no such directory. -/
  | missingDirectory (path : String)
  /-- The directory cannot be read. -/
  | unreadableDirectory (path : String) (cause : ReadFault)
  /-- An entry of a directory cannot be read. -/
  | unreadableEntry (cause : ReadFault)
deriving DecidableEq, Inhabited

/-- The text that reports a fault. -/
def FileFault.message : FileFault → String
  | unreadable path cause => s!"File error: Failed to read file {path}: " ++ cause.message
  | tooManyBytes path bytes max =>
    s!"File error: File {path} is {bytes} bytes. Maximum is {max} characters"
  | missingDirectory path => s!"File error: Directory {path} does not exist"
  | unreadableDirectory path cause =>
    s!"File error: Failed to read directory {path}: " ++ cause.message
  | unreadableEntry cause => "File error: Failed to read directory entry: " ++ cause.message

end TapeMachine
