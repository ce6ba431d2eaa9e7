import TexSource.FileSystem

/-!
# Surveys of a file system

A survey holds what is known about the paths that were looked at. A question about any
other path ends in the report that there is no such file, which a file system never
gives to the question whether a path leads to a file: the path in it is the next one to
look at. Links are not followed: files that are reached through them count as files of
their own.
-/

namespace TexSource

namespace FileSystem

/-- The contents of the files that were looked at, or why they have none. -/
structure Survey where
  currentDirectory : Path
  seen : List (Path × Except FileFault (List UInt8))

namespace Survey

/-- What was found at a path, if it was looked at. -/
def find? (survey : Survey) (path : Path) : Option (Except FileFault (List UInt8)) :=
  (survey.seen.find? fun entry => entry.1 = survey.currentDirectory.join path).map Prod.snd

/-- Keeps what was found at a path. -/
def add (survey : Survey) (path : Path) (contents : Except FileFault (List UInt8)) : Survey :=
  { survey with seen := (survey.currentDirectory.join path, contents) :: survey.seen }

/-- The files that were looked at; no other ones are there. -/
def toFileSystem (survey : Survey) : FileSystem where
  currentDirectory := survey.currentDirectory
  canonical path := path.canonical survey.currentDirectory
  isAbsolute_canonical _ := rfl
  canonical_canonical path := path.canonical_canonical survey.currentDirectory
  isFile path :=
    match survey.find? path with
    | none => .error (.system .noSuchFile path)
    | some (.ok _) => .ok true
    | some (.error .permissionDenied) => .ok true
    | some (.error .nameTooLong) => .error (.system .nameTooLong path)
    | some (.error _) => .ok false
  read path :=
    match survey.find? path with
    | none => .error (.system .noSuchFile path)
    | some (.ok contents) => .ok contents
    | some (.error fault) => .error (.system fault path)

end Survey

end FileSystem

end TexSource
