import TexSource.Path
import TexSource.Text.Quoted

/-!
# File systems

A file system answers two questions about a path: whether it leads to a file, and
what the file holds. Either question can fail. It also knows the canonical form of a
path, in which the links on the way to a file are followed.
-/

namespace TexSource

/-- Why the system refuses to look at a file. -/
inductive FileFault where
  | noSuchFile
  | permissionDenied
  | notDirectory
  | isDirectory
  | nameTooLong
deriving DecidableEq, Repr, Inhabited

namespace FileFault

/-- The number of a fault. -/
def number : FileFault → Nat
  | noSuchFile => 2
  | permissionDenied => 13
  | notDirectory => 20
  | isDirectory => 21
  | nameTooLong => 36

/-- The words for a fault. -/
def reason : FileFault → Text
  | noSuchFile => "No such file or directory"
  | permissionDenied => "Permission denied"
  | notDirectory => "Not a directory"
  | isDirectory => "Is a directory"
  | nameTooLong => "File name too long"

end FileFault

/-- A failure to look at a file. -/
inductive FileError where
  | system (fault : FileFault) (path : Path)
  /-- The anonymous input was read before it was given any contents. -/
  | noContents
  /-- No file can have a name with a null character in it. -/
  | nullInName
deriving DecidableEq, Repr

namespace FileError

/-- The wording of a failure, with the path where there is one. -/
def message : FileError → Text
  | system fault path =>
    "[Errno " ++ Text.ofNat fault.number ++ "] " ++ fault.reason ++ ": " ++ path.toText.quoted
  | noContents => "anonymous input has no contents"
  | nullInName => "embedded null byte"

/-- The words for an error. -/
def reason : FileError → Text
  | system fault _ => fault.reason
  | error => error.message

end FileError

/-- The files as a program sees them. -/
structure FileSystem where
  currentDirectory : Path
  /-- The path that another one leads to in the end, read from inside the current
  directory. -/
  canonical : Path → Path
  isAbsolute_canonical : ∀ path, (canonical path).isAbsolute = true
  canonical_canonical : ∀ path, canonical (canonical path) = canonical path
  isFile : Path → Except FileError Bool
  read : Path → Except FileError (List UInt8)

end TexSource
