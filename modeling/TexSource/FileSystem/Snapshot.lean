import TexSource.FileSystem
import TexSource.Layered
import TexSource.Text.Encoding

/-!
# File systems held in memory

A snapshot lists the directories and files of a file system by their canonical names. None of them
is a link. A path is followed name by name, so that `..` behind a missing directory leads nowhere.
-/

namespace TexSource

namespace FileSystem

/-- What a name of a snapshot stands for. -/
inductive Entry where
  | directory
  | file (contents : List UInt8)
  | unreadableFile

/-- Directories and files by their names from the root. -/
structure Snapshot where
  currentDirectory : Path
  entries : Bindings (List Text) Entry

namespace Snapshot

/-- The greatest length of a name in bytes. -/
def maxNameLength : Nat := 255

/-- The greatest length of a path in bytes. -/
def maxPathLength : Nat := 4095

/-- What lies at the given names from the root. The root is a directory. -/
def entry? (snapshot : Snapshot) (names : List Text) : Option Entry :=
  if names = [] then some .directory else snapshot.entries.get? names

/-- Follows names from a place (the innermost name first). -/
def follow (snapshot : Snapshot) (place : List Text) : List Text → Except FileFault Entry
  | [] => .ok ((snapshot.entry? place.reverse).getD .directory)
  | name :: rest =>
    match snapshot.entry? place.reverse with
    | none => .error .noSuchFile
    | some .directory =>
      if name = Path.above then follow snapshot place.tail rest
      else if maxNameLength < name.byteLength then .error .nameTooLong
      else if (snapshot.entry? (name :: place).reverse).isNone then .error .noSuchFile
      else follow snapshot (name :: place) rest
    | some _ => .error .notDirectory

/-- What stands at a path. -/
def status (snapshot : Snapshot) (path : Path) : Except FileFault Entry :=
  if maxPathLength < path.toText.byteLength then .error .nameTooLong
  else snapshot.follow [] (snapshot.currentDirectory.join path).names

/-- Enters a file or a directory, with the directories that lead to it. -/
def insert (snapshot : Snapshot) (names : List Text) (entry : Entry) : Snapshot :=
  let ancestors := ((List.range names.length).map names.take).filter (· ≠ [])
  let withAncestors := ancestors.foldl
    (fun entries directory =>
      if (Bindings.get? entries directory).isSome then entries
      else Bindings.insert entries directory .directory)
    snapshot.entries
  { snapshot with entries := Bindings.insert withAncestors names entry }

/-- The files of a snapshot. -/
def toFileSystem (snapshot : Snapshot) : FileSystem where
  currentDirectory := snapshot.currentDirectory
  canonical path := path.canonical snapshot.currentDirectory
  isAbsolute_canonical _ := rfl
  canonical_canonical path := path.canonical_canonical snapshot.currentDirectory
  isFile path :=
    if path.hasNull then .ok false
    else
      match snapshot.status path with
      | .ok .directory => .ok false
      | .ok _ => .ok true
      | .error .nameTooLong => .error (.system .nameTooLong path)
      | .error _ => .ok false
  read path :=
    if path.hasNull then .error .nullInName
    else
      match snapshot.status path with
      | .ok (.file contents) => .ok contents
      | .ok .unreadableFile => .error (.system .permissionDenied path)
      | .ok .directory => .error (.system .isDirectory path)
      | .error fault => .error (.system fault path)

end Snapshot

end FileSystem

end TexSource
