import TexSource.CommandLine.Arguments
import TexSource.Dependency
import TexSource.Expansion
import TexSource.Layout
import TexSource.Text.EncodingFault
import TexSource.Toml.Document

/-!
# Configuration

The options of a run come from a configuration file and from the arguments, and the
arguments count more. The file is a TOML document with the tables `commands`,
`environments`, `expand` and `format`, each of which may be missing.
-/

namespace TexSource

namespace CommandLine

/-- The name of the configuration file beside the first input. -/
def configurationName : Text := "texloom.toml"

/-- The name under which the standard input is read. -/
def standardInput : Text := "-"

/-- The options of a run. -/
structure Options where
  subcommand : Subcommand
  inputs : List Text
  commands : CommandTable
  limits : Expansion.Limits
  preamble : Text
  layout : Layout.Options
  /-- Whether the indentation unit was left blank. Then no code line can be written. -/
  lacksIndent : Bool
  categories : List Highlight.Category
  group : Bool
  debug : Bool

/-- What is wrong with a configuration file. -/
inductive ConfigurationError where
  | malformed (path : Path)
  | notTable (name : Text)
  | notLimit (key : Text)
  | notString (key : Text)
  | number (error : NumberError)
  | invalidSignature (invalid : InvalidSignature)
deriving DecidableEq, Repr

/-- The wording of what is wrong with a configuration file. -/
def ConfigurationError.message : ConfigurationError → Text
  | malformed path => path.toText ++ ": invalid TOML"
  | notTable name => "[" ++ name ++ "] must be a table"
  | notLimit key => key ++ " must be a non-negative integer"
  | notString key => key ++ " must be a string"
  | number error => error.message
  | invalidSignature invalid => invalid.message

/-- What keeps the program from giving an answer. -/
inductive Failure where
  | file (error : FileError)
  | encoding (fault : EncodingFault)
  | document (error : DocumentError)
  | dependencies (error : Dependency.CollectError)
  | blankCategory
  | blankIndent
deriving DecidableEq, Repr

/-- Why no options were found. -/
inductive SetupError where
  | configuration (error : ConfigurationError)
  | failure (failure : Failure)
deriving DecidableEq, Repr

namespace Configuration

/-- The fields of a table, under their keys. -/
abbrev Fields := List (Text × Toml.Value)

/-- The fields of a table of the file. A missing table is empty. -/
def table (fields : Fields) (name : Text) : Except ConfigurationError Fields :=
  match fields.lookup name with
  | none => .ok []
  | some (.table inner) => .ok inner
  | some _ => .error (.notTable name)

/-- A limit in a table, if there is one. -/
def limit? (fields : Fields) (key : Text) : Except ConfigurationError (Option Int) :=
  match fields.lookup key with
  | none => .ok none
  | some (.integer number) => if 0 ≤ number then .ok (some number) else .error (.notLimit key)
  | some _ => .error (.notLimit key)

/-- The text of a field, or a default where it is missing. -/
def string (fields : Fields) (key default : Text) : Except ConfigurationError Text :=
  match fields.lookup key with
  | none => .ok default
  | some (.string content) => .ok content
  | some _ => .error (.notString key)

/-- The texts of an array in a table. What is no array does not count. -/
def texts (fields : Fields) (key : Text) (default : List Text) :
    Except NumberError (List Text) :=
  match fields.lookup key with
  | some (.array items) => items.mapM Toml.Value.text?
  | _ => .ok default

/-- The declarations of a table, in its order. -/
def declarations (fields : Fields) (name : Text) (declaration : Text → Text → Declaration) :
    Except ConfigurationError (List Declaration) := do
  (← table fields name).mapM fun (name, signature) => do
    return declaration name (← signature.text?.mapError ConfigurationError.number)

/-- The commands and environments that a configuration declares, besides the standard ones. -/
def commandTable (fields : Fields) : Except ConfigurationError CommandTable := do
  let commands ← declarations fields "commands" Declaration.command
  let environments ← declarations fields "environments" Declaration.environment
  let (extended, outcome) := CommandTable.standard.declareAll (commands ++ environments)
  outcome.mapError ConfigurationError.invalidSignature
  return extended

/-- The limits that a configuration states. -/
def limits (expand : Fields) : Except ConfigurationError Expansion.Limits := do
  let standard : Expansion.Limits := {}
  let maxDepth ← limit? expand "max_depth"
  let maxSteps ← limit? expand "max_steps"
  let maxIncludeDepth ← limit? expand "max_include_depth"
  return {
    maxDepth := maxDepth <|> standard.maxDepth
    maxSteps := maxSteps <|> standard.maxSteps
    maxIncludeDepth := maxIncludeDepth.getD standard.maxIncludeDepth }

/-- The choices of a layout that a configuration states. -/
def layout (format : Fields) : Except SetupError Layout.Options := do
  let standard := Layout.Options.standard
  let indent ← (string format "indent" standard.indent).mapError SetupError.configuration
  let majorCommands ← (texts format "major" standard.majorCommands).mapError fun error =>
    .failure (.document (.number error))
  return { standard with indent, majorCommands }

/-- The categories that are asked for. None of them may be blank. -/
def categories (request : Request) : Except SetupError (List Highlight.Category) :=
  request.categories.mapM fun setting =>
    match setting with
    | .given category => .ok category
    | .blank => .error (.failure .blankCategory)

/-- The inputs that are asked for. Without files, that is the standard input. -/
def inputs (request : Request) : List Text :=
  if request.files = [] then [standardInput] else request.files

/-- The limits of an expansion and the preamble in front of it. -/
def expansion (fields : Fields) : Except ConfigurationError (Expansion.Limits × Text) := do
  let expand ← table fields "expand"
  return (← limits expand, ← string expand "preamble" [])

/-- The options that the fields of a configuration file and a request make. A flag that
is blank takes the place of a limit and leaves none. -/
def options (fields : Fields) (request : Request) : Except SetupError Options := do
  let commands ← (commandTable fields).mapError SetupError.configuration
  let (configured, preamble) ← (expansion fields).mapError SetupError.configuration
  let configuredLayout ← layout (← (table fields "format").mapError SetupError.configuration)
  let categories ← categories request
  let layout :=
    match request.indent with
    | some (.given indent) => { configuredLayout with indent }
    | _ => configuredLayout
  return {
    subcommand := request.subcommand
    inputs := inputs request
    commands
    limits := { configured with
      maxDepth := (request.maxDepth.map Setting.value?).getD configured.maxDepth
      maxSteps := (request.maxSteps.map Setting.value?).getD configured.maxSteps }
    preamble
    layout
    lacksIndent := request.indent = some .blank
    categories
    group := request.group
    debug := request.debug }

/-- The path of the configuration file: the one that is asked for, or the one beside the
first input that is a file. -/
def path (request : Request) : Path :=
  match (request.config.bind Setting.value?).filter (· ≠ []) with
  | some name => Path.ofText name
  | none =>
    let directory :=
      match (inputs request).find? (· ≠ standardInput) with
      | some name => (Path.ofText name).parent
      | none => Path.ofText []
    directory.join (Path.ofText configurationName)

/-- The fields of a configuration file. A missing file has none. -/
def load (files : FileSystem) (path : Path) : Except SetupError Fields := do
  let isThere ← (files.isFile path).mapError fun error => .failure (.file error)
  if !isThere then return []
  let contents ← (files.read path).mapError fun error => .failure (.file error)
  if let some fault := encodingFault? contents then
    .error (.failure (.encoding fault))
  else
    match Toml.parse ((Text.decode contents).toString?.getD "") with
    | .ok fields => return fields
    | .error .malformed => .error (.configuration (.malformed path))
    | .error (.number error) => .error (.failure (.document (.number error)))

end Configuration

/-- The options of the run that is asked for. -/
def Request.options (files : FileSystem) (request : Request) : Except SetupError Options := do
  let fields ← Configuration.load files (Configuration.path request)
  Configuration.options fields request

end CommandLine

end TexSource
