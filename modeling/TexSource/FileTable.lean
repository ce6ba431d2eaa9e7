import TexSource.Document.Parser
import TexSource.FileSystem
import TexSource.Text.Encoding

/-!
# File tables

A file table numbers the files that take part in a run. Each file is known by its
canonical path, so a file included from several places is read and parsed once.
Number zero is the anonymous input, which has no path.
-/

namespace TexSource

/-- A failure to obtain the document of a file or to expand it. -/
inductive DocumentError where
  | file (error : FileError)
  | number (error : NumberError)
  /-- A macro was called under limits that lack one. -/
  | missingLimit
deriving DecidableEq, Repr

/-- What is known about one file. -/
structure FileEntry where
  id : FileId
  path : Option Path
  parent : Option FileId
  contents : Option (List UInt8)
  document : Option Document

namespace FileEntry

/-- How far the contents of a file have been taken in. -/
inductive State where
  | unparsed
  | read
  | parsed
deriving DecidableEq, Repr

/-- The name of a state. -/
def State.name : State → String
  | unparsed => "unparsed"
  | read => "read"
  | parsed => "parsed"

/-- How far an entry has come. -/
def state (entry : FileEntry) : State :=
  if entry.document.isSome then .parsed
  else if entry.contents.isSome then .read
  else .unparsed

/-- The name of an entry, as it was given. -/
def name (entry : FileEntry) : Text :=
  match entry.path with
  | some path => path.toText
  | none => "<stdin>"

/-- The text of a file as far as it was taken in. -/
def source (entry : FileEntry) : Text :=
  match entry.document, entry.contents with
  | some document, _ => document.source
  | none, some contents => Text.decode contents
  | none, none => []

/-- The entry of the anonymous input before it is given any contents. -/
def anonymous : FileEntry := ⟨0, none, none, none, none⟩

end FileEntry

/-- The files of a run, with the tables under which they are parsed. -/
structure FileTable where
  workingDirectory : Path
  commands : CommandTable
  catcodes : Bindings Nat Catcode
  entries : Array FileEntry

namespace FileTable

/-- A table without entries. -/
def empty (workingDirectory : Path) (commands : CommandTable := CommandTable.standard)
    (catcodes : Bindings Nat Catcode := []) : FileTable :=
  ⟨workingDirectory, commands, catcodes, #[FileEntry.anonymous]⟩

/-- The entry of a file. Numbers that were not given out lead to the anonymous
input. -/
def entry (table : FileTable) (id : FileId) : FileEntry :=
  match table.entries[id]? with
  | some entry => entry
  | none => (table.entries[0]?).getD FileEntry.anonymous

/-- Changes the entry of a file. -/
def modify (table : FileTable) (id : FileId) (change : FileEntry → FileEntry) : FileTable :=
  { table with entries := table.entries.modify (table.entry id).id change }

/-- The entry of the file with a canonical path. -/
def find? (table : FileTable) (canonical : Path) : Option FileEntry :=
  table.entries.find? fun entry => entry.path = some canonical

/-- The canonical form of the path of a file. A path that no file can have has none. -/
def canonicalPath (files : FileSystem) (path : Path) : Except FileError Path :=
  if path.hasNull then .error .nullInName else .ok (files.canonical path)

/-- The entry of a file, however its path is spelt. -/
def lookup (files : FileSystem) (table : FileTable) (path : Path) :
    Except FileError (Option FileEntry) := do
  return table.find? (← canonicalPath files path)

/-- The entry of the file with a canonical path, made on first sight. The parent of a
known file stays. -/
def enter (table : FileTable) (canonical : Path) (parent : Option FileId := none) :
    FileEntry × FileTable :=
  match table.find? canonical with
  | some entry => (entry, table)
  | none =>
    let entry : FileEntry := ⟨table.entries.size, some canonical, parent, none, none⟩
    (entry, { table with entries := table.entries.push entry })

/-- The entry of a file, made on first sight, however its path is spelt. -/
def register (files : FileSystem) (table : FileTable) (path : Path)
    (parent : Option FileId := none) : Except FileError (FileEntry × FileTable) := do
  return table.enter (← canonicalPath files path) parent

/-- Gives a file its contents directly and forgets what was parsed from the old
ones. -/
def setSource (table : FileTable) (id : FileId) (contents : List UInt8) : FileTable :=
  table.modify id fun entry => { entry with contents := some contents, document := none }

/-- The directory of a file; for the anonymous input, the working directory. -/
def directory (table : FileTable) (id : FileId) : Path :=
  match (table.entry id).path with
  | some path => path.parent
  | none => table.workingDirectory

/-- The parents from a file upwards that are not among those already found. -/
def ancestorsFrom (table : FileTable) (found : List FileId) :
    (fuel : Nat) → FileId → List FileId
  | 0, _ => found.reverse
  | fuel + 1, id =>
    if found.contains id then found.reverse
    else
      match (table.entry id).parent with
      | some parent => table.ancestorsFrom (id :: found) fuel parent
      | none => (id :: found).reverse

/-- A file, its parent, the parent of that, and so on. Only files of the table have
parents, which bounds the length of the chain. -/
def ancestors (table : FileTable) (id : FileId) : List FileId :=
  table.ancestorsFrom [] (table.entries.size + 2) id

/-- The contents of a file, read on first use. -/
def read (files : FileSystem) (table : FileTable) (id : FileId) :
    Except FileError (List UInt8) × FileTable :=
  let entry := table.entry id
  match entry.contents, entry.path with
  | some contents, _ => (.ok contents, table)
  | none, none => (.error .noContents, table)
  | none, some path =>
    match files.read path with
    | .ok contents =>
      (.ok contents, table.modify id fun entry => { entry with contents := some contents })
    | .error error => (.error error, table)

/-- The document of a file, parsed on first use. -/
def document (files : FileSystem) (table : FileTable) (id : FileId) :
    Except DocumentError Document × FileTable :=
  let entry := table.entry id
  match entry.document with
  | some document => (.ok document, table)
  | none =>
    match table.read files id with
    | (.error error, table) => (.error (.file error), table)
    | (.ok contents, table) =>
      match Document.parse (Text.decode contents) (Catcode.Table.ofOverrides table.catcodes)
          table.commands entry.id with
      | .error error => (.error (.number error), table)
      | .ok document =>
        (.ok document, table.modify id fun entry => { entry with document := some document })

/-- The document without content that stands for a file that cannot be read. -/
def unreadableDocument (id : FileId) (path : Path) (error : FileError) : Document :=
  let problem := Problem.fileUnreadable path.toText error.reason
  { Document.ofTokens [] [] id CommandTable.standard with
    diagnostics := [problem.reportAt (Span.emptyAt Position.start id)] }

/-- The document of a main file. A file that cannot be read is reported. -/
def load (files : FileSystem) (table : FileTable) (path : Path) :
    Except DocumentError Document × FileTable :=
  match table.register files path with
  | .error error => (.error (.file error), table)
  | .ok (entry, table) =>
    match table.document files entry.id with
    | (.ok document, table) => (.ok document, table)
    | (.error (.file error), table) => (.ok (unreadableDocument entry.id path error), table)
    | (.error error, table) => (.error error, table)

/-- The paths that a name may stand for. A name with a suffix is tried as it is
before the extensions, other names after them. -/
def candidates (name : Text) (extensions : List Text) : List Path :=
  let extended := extensions.map fun extension => Path.ofText (name ++ extension)
  let bare := Path.ofText name
  if bare.suffix ≠ [] then bare :: extended else extended ++ [bare]

/-- The first of the paths that leads to a file, in canonical form. -/
def firstFile (files : FileSystem) : List Path → Except FileError (Option Path)
  | [] => .ok none
  | path :: rest => do
    if ← files.isFile path then
      return some (files.canonical path)
    else
      firstFile files rest

/-- The directories in which a relative name is looked for: those of the including
file and of its ancestors, and the working directory. -/
def searchPath (table : FileTable) (ancestors : List FileId) : List Path :=
  (ancestors.reverse.map table.directory ++ [table.workingDirectory]).eraseDups

/-- The file that a name stands for in a file with the given ancestors, which run
from the main file to the file itself. -/
def resolve (files : FileSystem) (table : FileTable) (name : Text) (ancestors : List FileId)
    (extensions : List Text := [".tex"]) : Except FileError (Option Path) :=
  let names := candidates name extensions
  if (Path.ofText name).isAbsolute then
    firstFile files names
  else
    firstFile files ((table.searchPath ancestors).flatMap fun directory =>
      names.map directory.join)

end FileTable

end TexSource
