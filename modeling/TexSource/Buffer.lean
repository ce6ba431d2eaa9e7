import TexSource.Expansion
import TexSource.Layout
import TexSource.Text.Line

/-!
# Buffers of an editor

The answers to an editor about the text of a buffer: the problems to be shown in it,
and the change that brings it into canonical layout. Lines and characters are counted
from zero here.
-/

namespace TexSource

namespace Buffer

/-- A place in a buffer. -/
structure Place where
  line : Nat
  character : Nat
deriving DecidableEq, Repr

/-- A stretch of a buffer. -/
structure Range where
  start : Place
  stop : Place
deriving DecidableEq, Repr

/-- A position as a line and a character, both counted from zero. -/
def Place.ofPosition (position : Position) : Place :=
  ⟨position.line - 1, position.column - 1⟩

/-- A span as the places where it starts and ends. -/
def Range.ofSpan (span : Span) : Range :=
  ⟨Place.ofPosition span.start, Place.ofPosition span.stop⟩

/-- What diagnostics are said to come from. -/
def source : String := "texloom"

/-- The number of a severity. -/
def severityNumber : Severity → Nat
  | .error => 1
  | .warning => 2

/-- The file of a buffer that was given a text, in a table of its own. A buffer without a
path is the anonymous input, next to which files are looked for in the current
directory. -/
def opened (files : FileSystem) (path : Option Path) (text : Text) :
    Except FileError (FileId × FileTable) := do
  match path with
  | some path =>
    let (entry, table) ← (FileTable.empty path.parent).register files path
    return (entry.id, table.setSource entry.id text.encode)
  | none => return (0, (FileTable.empty files.currentDirectory).setSource 0 text.encode)

/-- The problems in the text of a buffer. Problems inside included files belong to the
buffers of those files. -/
def diagnostics (files : FileSystem) (path : Option Path) (text : Text) :
    Except DocumentError (List Diagnostic) := do
  let (id, table) ← (opened files path text).mapError DocumentError.file
  let (document, table) := table.document files id
  let document ← document
  let expanded := Expansion.expand ⟨files, {}, CommandTable.standard⟩ document Scope.empty table
  let (_, reports) ← expanded.outcome
  return (document.diagnostics ++ reports).filter fun report => report.span.fileId = id

/-- The replacement of a range by a text. -/
structure Edit where
  range : Range
  newText : Text
deriving DecidableEq, Repr

/-- The change that formats a text: the whole of it is replaced, unless it is in
canonical layout already. -/
def formatEdits (text : Text) : Except NumberError (List Edit) := do
  let document ← Document.parse text Catcode.Table.standard CommandTable.standard 0
  let formatted := document.format Layout.Options.standard
  if formatted = text then
    return []
  else
    return [⟨⟨⟨0, 0⟩, ⟨text.lines.length + 1, 0⟩⟩, formatted⟩]

end Buffer

end TexSource
