import TexSource.FileTable

/-!
# Dependencies

The files that a document refers to through known commands. The commands of the tree
are listed from the inside out, in the order of the text; the rules say which argument
of a command names files; each name is resolved, and every file is listed once.
-/

namespace TexSource

namespace Dependency

/-- What a file that a document refers to is. -/
inductive Kind where
  | tex
  | image
  | bibliography
  | other
deriving DecidableEq, Repr

/-- The extensions of images, in the order in which they are tried. -/
def imageExtensions : List Text :=
  [".pdf", ".png", ".jpg", ".jpeg", ".eps", ".svg"]

/-- The extensions of source files. -/
def texExtensions : List Text :=
  [".tex", ".sty", ".cls", ".ltx"]

namespace Kind

/-- All kinds, in the order in which they are listed. -/
def all : List Kind :=
  [tex, image, bibliography, other]

/-- The name of a kind. -/
def name : Kind → String
  | tex => "tex"
  | image => "image"
  | bibliography => "bibliography"
  | other => "other"

/-- The kind of a file, by the suffix of its path. -/
def ofPath (path : Path) : Kind :=
  let suffix := path.suffix.map Glyph.toLower
  if texExtensions.contains suffix then tex
  else if imageExtensions.contains suffix then image
  else if suffix = ".bib" then bibliography
  else other

end Kind

/-- A command whose mandatory argument names files. Arguments are counted from zero, or
backwards from the last one, which is number minus one. -/
structure Rule where
  command : Text
  argument : Int := 0
  extensions : List Text := []
  splitCommas : Bool := false
deriving DecidableEq, Repr

/-- The rules for the standard commands. -/
def standardRules : List Rule :=
  [{ command := "input", extensions := [".tex"] },
    { command := "include", extensions := [".tex"] },
    { command := "subfile", extensions := [".tex"] },
    { command := "includegraphics", extensions := imageExtensions },
    { command := "bibliography", extensions := [".bib"], splitCommas := true },
    { command := "addbibresource", extensions := [".bib"], splitCommas := true },
    { command := "lstinputlisting" },
    { command := "inputminted", argument := 1 }]

/-- A place of a document that may refer to files. -/
inductive Mention where
  /-- A file that was included. -/
  | included (path : Text)
  /-- A command, with the files around it from the main file to its own. -/
  | use (invocation : Command) (ancestors : List FileId)

mutual

/-- The mentions under a node, from the inside out. -/
def mentions (ancestors : List FileId) : Node → List Mention
  | .leaf _ _ => []
  | .group _ _ _ children _ _ => mentionsAll ancestors children
  | .math _ _ _ children _ _ => mentionsAll ancestors children
  | .command invocation => mentionsOfCommand ancestors invocation
  | .environment _ _ opening body none _ _ =>
    mentionsOfCommand ancestors opening ++ mentionsAll ancestors body
  | .environment _ _ opening body (some ending) _ _ =>
    mentionsOfCommand ancestors opening ++ mentionsAll ancestors body ++
      mentionsOfCommand ancestors ending
  | .inclusion _ _ fileId path ⟨_, _, _, root, _, _⟩ _ =>
    .included path :: mentions (ancestors ++ [fileId]) root

/-- The mentions in the arguments of a command, and the command itself. -/
def mentionsOfCommand (ancestors : List FileId) : Command → List Mention
  | ⟨id, name, head, star, arguments, span⟩ =>
    mentionsOfArguments ancestors arguments ++
      [.use ⟨id, name, head, star, arguments, span⟩ ancestors]

/-- What a sequence of nodes mentions. -/
def mentionsAll (ancestors : List FileId) : List Node → List Mention
  | [] => []
  | node :: rest => mentions ancestors node ++ mentionsAll ancestors rest

/-- What arguments mention. -/
def mentionsOfArguments (ancestors : List FileId) : List Argument → List Mention
  | [] => []
  | ⟨_, leading, content⟩ :: rest =>
    mentionsAll ancestors leading ++ mentions ancestors content ++
      mentionsOfArguments ancestors rest

end

/-- The rule for a command. Of several rules the last one counts. -/
def ruleFor? (rules : List Rule) (command : Text) : Option Rule :=
  rules.reverse.find? fun rule => rule.command = command

/-- Why dependencies could not be collected. -/
inductive CollectError where
  | file (error : FileError)
  /-- A rule counts backwards beyond the first argument. -/
  | noSuchArgument
deriving DecidableEq, Repr

/-- The argument that a rule names, if there are that many. -/
def ruleArgument (rule : Rule) (arguments : List Node) : Except CollectError (Option Node) :=
  match rule.argument with
  | .ofNat index => .ok arguments[index]?
  | .negSucc index =>
    match arguments.reverse[index]? with
    | some argument => .ok (some argument)
    | none => .error .noSuchArgument

/-- The names in an argument, which are separated by commas where a rule says so. -/
def namesIn (rule : Rule) (argument : Node) : List Text :=
  let text := argument.innerText.strip
  let names := if rule.splitCommas then text.splitAtEach (.char ',') else [text]
  (names.map Text.strip).filter (· ≠ [])

/-- The paths found so far and the reports on names that lead to no file. -/
structure Collection where
  paths : Array Path
  diagnostics : Array Diagnostic

namespace Collection

/-- Adds a path to a collection, unless it is there. -/
def addPath (collection : Collection) (path : Path) : Collection :=
  if collection.paths.contains path then collection
  else { collection with paths := collection.paths.push path }

/-- Adds the files that names in a use of a command stand for. -/
def addNames (files : FileSystem) (table : FileTable) (rule : Rule) (invocation : Command)
    (ancestors : List FileId) (collection : Collection) :
    List Text → Except CollectError Collection
  | [] => .ok collection
  | name :: rest => do
    let path ← (table.resolve files name ancestors rule.extensions).mapError CollectError.file
    let extended :=
      match path with
      | some path => collection.addPath (files.canonical path)
      | none =>
        { collection with
          diagnostics := collection.diagnostics.push <|
            (Problem.dependencyNotFound invocation.name name).reportAt invocation.span
              invocation.id }
    addNames files table rule invocation ancestors extended rest

/-- Adds the files of a mention to a collection, and a report of each name without a file. -/
def addMention (files : FileSystem) (table : FileTable) (rules : List Rule)
    (collection : Collection) : Mention → Except CollectError Collection
  | .included path =>
    .ok (collection.addPath (files.canonical (Path.ofText path)))
  | .use invocation ancestors =>
    match ruleFor? rules invocation.name with
    | none => .ok collection
    | some rule => do
      let mandatory := invocation.arguments.filter fun argument => argument.kind = .mandatory
      match ← ruleArgument rule (mandatory.map Argument.content) with
      | none => return collection
      | some argument =>
        addNames files table rule invocation ancestors collection (namesIn rule argument)

end Collection

/-- The files that a document refers to, in the order of their first mention, with the
reports on names that lead to no file. -/
def collect (files : FileSystem) (table : FileTable) (rules : List Rule) (document : Document) :
    Except CollectError (List Path × List Diagnostic) := do
  let collection ← (mentions [document.fileId] document.root).foldlM
    (Collection.addMention files table rules) ⟨#[], #[]⟩
  return (collection.paths.toList, collection.diagnostics.toList)

end Dependency

end TexSource
