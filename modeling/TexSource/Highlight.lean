import TexSource.Document.Traversal

/-!
# Highlighting

Every byte of a document's own file gets a category. The tree marks the tokens of the
file with categories, and `highlight` turns the marks into spans that cover the file
without gaps or overlaps, with text between the marks.
-/

namespace TexSource

namespace Highlight

/-- What a stretch of source text is to its reader. -/
inductive Category where
  | comment
  | commandName
  | environmentName
  | argument
  | text
  | math
  | error
deriving DecidableEq, Repr, Inhabited

namespace Category

/-- All categories. -/
def all : List Category :=
  [comment, commandName, environmentName, argument, text, math, error]

/-- The name of a category. -/
def name : Category → String
  | comment => "comment"
  | commandName => "command"
  | environmentName => "environment"
  | argument => "argument"
  | text => "text"
  | math => "math"
  | error => "error"

/-- The category with a name. -/
def ofName? (name : Text) : Option Category :=
  all.find? fun category => Text.ofString category.name = name

/-- The strength of a category. The names of commands and of environments are equally
strong. -/
def rank : Category → Nat
  | text => 0
  | argument => 1
  | commandName => 2
  | environmentName => 2
  | math => 3
  | comment => 4
  | error => 5

/-- The stronger of two categories, and the first of two that are equally strong. -/
def stronger (first second : Category) : Category :=
  if first.rank < second.rank then second else first

end Category

/-- A token with its category. -/
structure Mark where
  token : Token
  category : Category

section

variable (fileId : FileId) (failed : List NodeId)

/-- The mark of a token in a context, if the token was read from the document's own
file. -/
def mark (category context : Category) (token : Token) : List Mark :=
  if token.expanded || token.raw = [] || token.span.fileId ≠ fileId then []
  else
    let isInvalid := match token.kind with
      | .character _ .invalid => true
      | _ => false
    [⟨token, context.stronger (if isInvalid then .error else category)⟩]

/-- The marks of a delimiter that may be missing. -/
def markDelimiter (category context : Category) (delimiter : Option Placed) : List Mark :=
  delimiter.toList.flatMap fun placed => mark fileId category context placed.token

/-- The category that a token has by itself. -/
def leafCategory (token : Token) : Category :=
  if token.isComment then .comment else .text

/-- The context inside a node: an error where the node was reported. -/
def contextAt (id : NodeId) (context : Category) : Category :=
  if failed.contains id then .error else context

/-- The marks of the tokens in the name of an environment. -/
def markName (context : Category) (children : List Node) : List Mark :=
  (placedAll children).flatMap fun placed =>
    mark fileId (context.stronger .environmentName) context placed.token

mutual

/-- The marks of the tokens under a node, in the context of the nodes above it. -/
def markNode (outer : Category) : Node → List Mark
  | .leaf id placed =>
    mark fileId (leafCategory placed.token) (contextAt failed id outer) placed.token
  | .group id _ opener children closer _ =>
    let context := contextAt failed id outer
    markDelimiter fileId context context opener ++ markNodes context children ++
      markDelimiter fileId context context closer
  | .math id _ opener children closer _ =>
    let context := (contextAt failed id outer).stronger .math
    mark fileId context context opener.token ++ markNodes context children ++
      markDelimiter fileId context context closer
  | .command invocation => markCommand outer invocation
  | .environment id _ opening body none _ _ =>
    let context := contextAt failed id outer
    markEnvironmentCommand context opening ++ markNodes context body
  | .environment id _ opening body (some ending) _ _ =>
    let context := contextAt failed id outer
    markEnvironmentCommand context opening ++ markNodes context body ++
      markEnvironmentCommand context ending
  | .inclusion id directive _ _ _ _ => markCommand (contextAt failed id outer) directive

/-- The marks of a control sequence, its star and its arguments. -/
def markCommand (outer : Category) : Command → List Mark
  | ⟨id, _, head, star, arguments, _⟩ =>
    let context := contextAt failed id outer
    mark fileId .commandName context head.token ++
      markDelimiter fileId .commandName context star ++ markArguments context arguments

/-- The marks of a `\begin` or an `\end`, whose first argument is a name. -/
def markEnvironmentCommand (outer : Category) : Command → List Mark
  | ⟨id, _, head, star, [], _⟩ =>
    let context := contextAt failed id outer
    mark fileId .commandName context head.token ++ markDelimiter fileId .commandName context star
  | ⟨id, _, head, _, ⟨_, leading, .group nameId _ opener children closer _⟩ :: rest, _⟩ =>
    let context := contextAt failed id outer
    let inner := contextAt failed nameId context
    mark fileId .commandName context head.token ++ markNodes context leading ++
      markDelimiter fileId .argument inner opener ++ markName fileId inner children ++
      markDelimiter fileId .argument inner closer ++ markArguments context rest
  | ⟨id, _, head, _, ⟨_, leading, content⟩ :: rest, _⟩ =>
    let context := contextAt failed id outer
    mark fileId .commandName context head.token ++ markNodes context leading ++
      markNode (context.stronger .environmentName) content ++ markArguments context rest

/-- The marks of the tokens under a sequence of nodes. -/
def markNodes (context : Category) : List Node → List Mark
  | [] => []
  | node :: rest => markNode context node ++ markNodes context rest

/-- The marks of the tokens under a sequence of arguments. -/
def markArguments (context : Category) : List Argument → List Mark
  | [] => []
  | ⟨_, leading, content⟩ :: rest =>
    markNodes context leading ++ markNode (context.stronger .argument) content ++
      markArguments context rest

end

end

/-- A stretch of the file with its category. -/
structure Stretch where
  span : Span
  category : Category
deriving DecidableEq, Repr

/-- Adds a stretch behind others (the latest first). A stretch without extent is left
out, and one that goes on with the category of the stretch before it extends it. -/
def extend (fileId : FileId) (stretches : List Stretch) (start stop : Position)
    (category : Category) : List Stretch :=
  if stop.offset ≤ start.offset then stretches
  else
    match stretches with
    | last :: others =>
      if last.category = category && last.span.stop.offset = start.offset then
        ⟨⟨last.span.start, stop, fileId⟩, category⟩ :: others
      else
        ⟨⟨start, stop, fileId⟩, category⟩ :: stretches
    | [] => [⟨⟨start, stop, fileId⟩, category⟩]

/-- Adds the stretches of marks in the order of the file, and returns them (the latest
first) with the position reached. A mark before that position was covered already. -/
def cover (fileId : FileId) (stretches : List Stretch) (reached : Position) :
    List Mark → List Stretch × Position
  | [] => (stretches, reached)
  | mark :: rest =>
    let span := mark.token.span
    if span.start.offset < reached.offset then
      cover fileId stretches reached rest
    else
      let filled := extend fileId stretches reached span.start .text
      cover fileId (extend fileId filled span.start span.stop mark.category) span.stop rest

end Highlight

namespace Document

/-- The marks of a document in the order of its file. -/
def marks (document : Document) : List Highlight.Mark :=
  let failed := document.diagnostics.filterMap (·.node)
  (Highlight.markNode document.fileId failed .text document.root).mergeSort fun first second =>
    first.token.span.start.offset ≤ second.token.span.start.offset

/-- The stretches of a document's own file with their categories. -/
def highlight (document : Document) : List Highlight.Stretch :=
  let (stretches, reached) := Highlight.cover document.fileId [] Position.start document.marks
  let complete :=
    if reached.offset < document.size then
      Highlight.extend document.fileId stretches reached document.endOfInput.span.stop .text
    else stretches
  complete.reverse

end Document

end TexSource
