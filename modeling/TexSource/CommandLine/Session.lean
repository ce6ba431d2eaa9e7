import TexSource.CommandLine.Configuration
import TexSource.Diagnostic.Frame
import TexSource.Outline

/-!
# Sessions

A run takes its inputs one after the other. The inputs share the table of files and the
diagnostics, which are shown at the end; each has a scope of its own. What a run writes
for an input does not depend on the inputs before it, as long as a file is not changed
meanwhile.
-/

namespace TexSource

namespace CommandLine

/-- What a run has read and written so far. -/
structure Session where
  table : FileTable
  /-- The standard input, until it is read. -/
  unread : List UInt8
  diagnostics : Array Diagnostic
  output : Text
  /-- The trees that were asked for. -/
  trees : Text

/-- What a call of the program leaves behind. -/
structure Outcome where
  exitCode : Nat
  output : Text
  errors : Text
deriving DecidableEq, Repr

namespace Session

/-- A session before the first input. -/
def start (options : Options) (files : FileSystem) (standardInput : List UInt8) : Session :=
  ⟨FileTable.empty files.currentDirectory options.commands, standardInput, #[], [], []⟩

/-- Writes a text to the output. -/
def write (session : Session) (text : Text) : Session :=
  { session with output := session.output ++ text }

/-- Writes the tree of a document, if that is asked for. -/
def writeTree (session : Session) (options : Options) (document : Document) : Session :=
  if options.debug then { session with trees := session.trees ++ document.outline }
  else session

/-- Keeps diagnostics behind those of the session. -/
def report (session : Session) (diagnostics : List Diagnostic) : Session :=
  { session with diagnostics := session.diagnostics ++ diagnostics.toArray }

/-- Reads an input. The standard input can be read once and is empty afterwards. -/
def load (files : FileSystem) (session : Session) (name : Text) :
    Except Failure (Document × Session) := do
  if name = standardInput then
    let table := session.table.setSource FileEntry.anonymous.id session.unread
    let (document, table) := table.document files FileEntry.anonymous.id
    let document ← document.mapError Failure.document
    return (document, { session with table, unread := [] }.report document.diagnostics)
  else
    let (document, table) := session.table.load files (Path.ofText name)
    let document ← document.mapError Failure.document
    return (document, { session with table }.report document.diagnostics)

/-- The definitions of the preamble. -/
def scope (options : Options) (files : FileSystem) : Except Failure Scope :=
  if options.preamble = [] then .ok Scope.empty
  else (Scope.ofSource files options.preamble).mapError Failure.document

/-- The expansion of a document, with its diagnostics reported. -/
def expand (options : Options) (files : FileSystem) (session : Session)
    (document : Document) : Except Failure (Document × Session) := do
  let scope ← scope options files
  let expanded := Expansion.expand ⟨files, options.limits, options.commands⟩ document scope
    session.table
  let (document, diagnostics) ← expanded.outcome.mapError Failure.document
  let session := { session with table := expanded.table }.report diagnostics
  return (document, session.writeTree options document)

/-- Adds the diagnostics that stand at no place at which a file is already missing. -/
def reportUnreported (session : Session) (diagnostics : List Diagnostic) : Session :=
  let place (diagnostic : Diagnostic) : FileId × Nat :=
    (diagnostic.span.fileId, diagnostic.span.start.offset)
  let missing := (session.diagnostics.toList.filter (·.kind = .fileNotFound)).map place
  session.report (diagnostics.filter fun diagnostic => !missing.contains (place diagnostic))

/-- A text with a line end. -/
def line (content : Text) : Text :=
  content ++ [.char '\n']

/-- Paths, one a line. -/
def listed (paths : List Path) : Text :=
  paths.flatMap fun path => line path.toText

/-- Paths by their kinds, each kind under its name. -/
def grouped (paths : List Path) : Text :=
  Dependency.Kind.all.flatMap fun kind =>
    match paths.filter fun path => Dependency.Kind.ofPath path = kind with
    | [] => []
    | members =>
      line (kind.name ++ ":") ++ members.flatMap fun path => line ("  " ++ path.toText)

/-- A position as its line and its column. -/
def place (position : Position) : Text :=
  Text.ofNat position.line ++ ":" ++ Text.ofNat position.column

/-- The stretches of a document with their categories and texts. -/
def stretches (categories : List Highlight.Category) (document : Document) : Text :=
  let source := document.source.encode.toArray
  let wanted := document.highlight.filter fun stretch =>
    categories = [] || categories.contains stretch.category
  wanted.flatMap fun ⟨span, category⟩ =>
    let bytes := (source.extract span.start.offset span.stop.offset).toList
    line <| place span.start ++ "-" ++ place span.stop ++ "\t" ++ category.name ++ "\t" ++
      (Text.decode bytes).quoted

/-- What a subcommand does with one input. -/
def runInput (options : Options) (files : FileSystem) (session : Session) (name : Text) :
    Except Failure Session := do
  let (document, session) ← session.load files name
  match options.subcommand with
  | .parse => return session.write document.outline
  | .highlight =>
    return (session.write (stretches options.categories document)).writeTree options document
  | .format =>
    if options.lacksIndent && Layout.hasCode options.layout document then
      .error .blankIndent
    return (session.write (document.format options.layout)).writeTree options document
  | .check =>
    let (_, session) ← session.expand options files document
    return session
  | .expand =>
    let (expanded, session) ← session.expand options files document
    return session.write expanded.sourceText
  | .dependencies =>
    let (expanded, session) ← session.expand options files document
    let (paths, diagnostics) ←
      (Dependency.collect files session.table Dependency.standardRules expanded).mapError
        Failure.dependencies
    return (session.reportUnreported diagnostics).write
      (if options.group then grouped paths else listed paths)

/-- A diagnostic with the line of its file that it points to. -/
def frame (session : Session) (diagnostic : Diagnostic) : Text :=
  let entry := session.table.entry diagnostic.span.fileId
  line (diagnostic.frame entry.source entry.name)

/-- What a session leaves behind. It fails if an error was reported. -/
def outcome (session : Session) : Outcome :=
  let diagnostics := session.diagnostics.toList
  ⟨if diagnostics.any Diagnostic.isError then 1 else 0, session.output,
    session.trees ++ diagnostics.flatMap session.frame⟩

end Session

/-- What a subcommand does with all its inputs. -/
def run (options : Options) (files : FileSystem) (standardInput : List UInt8) :
    Except Failure Outcome := do
  let session ← options.inputs.foldlM (Session.runInput options files)
    (Session.start options files standardInput)
  return session.outcome

/-- Why a call of the program leaves nothing behind. -/
inductive Stop where
  | dismissed (dismissal : Dismissal)
  | failed (failure : Failure)
deriving DecidableEq, Repr

/-- The outcome of a call that a fault in the configuration ends. -/
def ConfigurationError.outcome (error : ConfigurationError) : Outcome :=
  ⟨2, [], Session.line ("error: " ++ error.message)⟩

/-- What a call of the program does with its arguments. -/
def call (files : FileSystem) (standardInput : List UInt8) (arguments : List Text) :
    Except Stop Outcome := do
  let request ← (readArguments arguments).mapError Stop.dismissed
  match request.options files with
  | .error (.configuration error) => return error.outcome
  | .error (.failure failure) => .error (.failed failure)
  | .ok options => (run options files standardInput).mapError Stop.failed

end CommandLine

end TexSource
