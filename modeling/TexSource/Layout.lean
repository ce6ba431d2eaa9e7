import TexSource.Document.Traversal
import TexSource.Text.Blank

/-!
# Layout

The canonical layout of a document. Only white space changes: lines are indented by
the depth of groups and environments, runs of blank lines become one, major commands
get a blank line on either side, and the bodies of verbatim environments stay as they
are.
-/

namespace TexSource

namespace Layout

/-- The choices that a layout leaves open. -/
structure Options where
  indent : Text
  majorCommands : List Text
  unindentedEnvironments : List Text
  verbatimEnvironments : List Text

/-- The commands that are set off by blank lines. -/
def standardMajorCommands : List Text :=
  ["documentclass", "usepackage", "RequirePackage", "begin\x7bdocument\x7d",
    "end\x7bdocument\x7d", "part", "chapter", "section"]

/-- The choices that are made where none is stated. -/
def Options.standard : Options where
  indent := "  "
  majorCommands := standardMajorCommands
  unindentedEnvironments := ["document"]
  verbatimEnvironments := CommandTable.standardVerbatim

/-- A token with its place in the layout: its depth, the major command that starts with
it, and the major command that it belongs to. -/
structure Item where
  token : Token
  depth : Nat
  verbatim : Bool := false
  key : Option Text := none
  block : Option Text := none

section

variable (options : Options)

/-- A name as the key of a major command. -/
def majorKey? (name : Text) : Option Text :=
  if name ≠ [] && options.majorCommands.contains name then some name else none

/-- The items of a delimiter that may be missing. -/
def delimiterItems (depth : Nat) (block : Option Text) (delimiter : Option Placed) : List Item :=
  delimiter.toList.map fun placed => { token := placed.token, depth, block }

/-- The depth of the body of an environment at a depth. -/
def bodyDepth (depth : Nat) (name : Text) : Nat :=
  if options.unindentedEnvironments.contains name then depth else depth + 1

/-- The items of the body of a verbatim environment. -/
def verbatimItems (depth : Nat) (body : List Node) : List Item :=
  (placedAll body).map fun placed => { token := placed.token, depth, verbatim := true }

mutual

/-- The items of the tokens under a node, with those of included documents. -/
def nodeItems (depth : Nat) (block : Option Text) : Node → List Item
  | .leaf _ placed => [{ token := placed.token, depth, block }]
  | .group _ _ none children closer _ =>
    nodesItems depth block children ++ delimiterItems depth block closer
  | .group _ _ (some opener) children closer _ =>
    { token := opener.token, depth, block } :: nodesItems (depth + 1) block children ++
      delimiterItems depth block closer
  | .math _ _ opener children closer _ =>
    { token := opener.token, depth, block } :: nodesItems (depth + 1) block children ++
      delimiterItems depth block closer
  | .command invocation =>
    commandItems depth block (majorKey? options invocation.name) invocation
  | .environment _ name opening body none _ _ =>
    commandItems depth block (majorKey? options ("begin" ++ Problem.braced name)) opening ++
      (if options.verbatimEnvironments.contains name then
        verbatimItems (bodyDepth options depth name) body
      else nodesItems (bodyDepth options depth name) block body)
  | .environment _ name opening body (some ending) _ _ =>
    commandItems depth block (majorKey? options ("begin" ++ Problem.braced name)) opening ++
      (if options.verbatimEnvironments.contains name then
        verbatimItems (bodyDepth options depth name) body
      else nodesItems (bodyDepth options depth name) block body) ++
      commandItems depth block (majorKey? options ("end" ++ Problem.braced name)) ending
  | .inclusion _ _ _ _ ⟨_, _, _, root, _, _⟩ _ => nodeItems depth block root

/-- The items of a command that has a key. -/
def commandItems (depth : Nat) (block key : Option Text) : Command → List Item
  | ⟨_, _, head, star, arguments, _⟩ =>
    let inside := key <|> block
    { token := head.token, depth, key, block := inside } :: delimiterItems depth inside star ++
      argumentsItems depth inside arguments

/-- The items of a sequence of nodes. -/
def nodesItems (depth : Nat) (block : Option Text) : List Node → List Item
  | [] => []
  | node :: rest => nodeItems depth block node ++ nodesItems depth block rest

/-- The items of arguments, with what is skipped before them. -/
def argumentsItems (depth : Nat) (block : Option Text) : List Argument → List Item
  | [] => []
  | ⟨_, leading, content⟩ :: rest =>
    nodesItems depth block leading ++ nodeItems depth block content ++
      argumentsItems depth block rest

end

end

/-- The items of a line and the line end behind them, which the last line lacks. -/
structure Line where
  items : List Item
  lineEnd : Option Item

/-- The lines of a sequence of items, where the items of the first line so far (the
latest first) are given. -/
def linesFrom (current : List Item) : List Item → List Line
  | [] => if current = [] then [] else [⟨current.reverse, none⟩]
  | item :: rest =>
    if item.token.isEndOfLine then ⟨current.reverse, some item⟩ :: linesFrom [] rest
    else linesFrom (item :: current) rest

/-- The lines of a document in the order of its text. -/
def lines (options : Options) (document : Document) : List Line :=
  linesFrom [] (nodeItems options 0 none document.root)

namespace Line

/-- The first item of a line that is no space. -/
def first? (line : Line) : Option Item :=
  line.items.find? fun item => !item.token.isSpace

/-- Whether a line belongs to the body of a verbatim environment. -/
def isRaw (line : Line) : Bool :=
  match line.first? with
  | some item => item.verbatim
  | none => line.items.any (·.verbatim) || line.lineEnd.any (·.verbatim)

/-- The raw text of a line without its line end. -/
def rawText (line : Line) : Text :=
  line.items.flatMap (·.token.raw)

/-- Whether nothing but spaces stands before the comment of a line. -/
def isCommentOnly (line : Line) : Bool :=
  match line.items.dropWhile (·.token.isSpace) with
  | [item] => item.token.isComment
  | _ => false

/-- Whether a line is written as code, with its indentation. -/
def isCode (line : Line) : Bool :=
  !line.isRaw && line.first?.isSome && !line.isCommentOnly

end Line

/-- Whether a line of a document is written as code. Without one, the indentation unit
does not count. -/
def hasCode (options : Options) (document : Document) : Bool :=
  (lines options document).any Line.isCode

/-- Items without the spaces at their end. -/
def trimEnd (items : List Item) : List Item :=
  (items.reverse.dropWhile (·.token.isSpace)).reverse

/-- The text of items. The blanks that belong to a control word at the end are left
out. -/
def textOf (items : List Item) : Text :=
  match items.getLast? with
  | some last => items.dropLast.flatMap (·.token.raw) ++ last.token.controlText
  | none => []

/-- Whether blanks stand at the end of items, as spaces or in a control word. -/
def endsInBlanks (items : List Item) : Bool :=
  match items.getLast? with
  | some last => last.token.isSpace || last.token.raw ≠ last.token.controlText
  | none => false

/-- The text between code and a comment: spaces up to the column where the comment
stood, and at least one, if blanks stood there at all. -/
def commentGap (code : Text) (items : List Item) (comment : Token) : Text :=
  if endsInBlanks items then
    List.replicate (max (comment.span.start.column - 1 - code.length) 1) (.char ' ')
  else []

/-- The margin of a depth. -/
def margin (indent : Text) (depth : Nat) : Text :=
  (List.replicate depth indent).flatten

/-- A line of code behind its margin, without blanks at its ends; a comment at its end keeps its
column, if there is room. -/
def codeLine (indent : Text) (line : Line) : Text :=
  let items := trimEnd (line.items.dropWhile (·.token.isSpace))
  match items, items.getLast? with
  | first :: _ :: _, some last =>
    if last.token.isComment then
      let before := items.dropLast
      let code := margin indent first.depth ++ textOf (trimEnd before)
      code ++ commentGap code before last.token ++ last.token.raw.stripEnd
    else
      margin indent first.depth ++ textOf items
  | first :: _, _ => margin indent first.depth ++ textOf items
  | [], _ => []

/-- The lines written so far (the latest first), whether a blank line is to be written
before the next one, and the key of the last code line. -/
structure Page where
  written : List Text
  pendingBlank : Bool
  lastKey : Option Text

namespace Page

/-- Writes a line, behind a blank one if that is called for. -/
def write (page : Page) (blank : Bool) (line : Text) (key : Option Text) : Page :=
  ⟨if blank then line :: [] :: page.written else line :: page.written, false, key⟩

/-- Writes a line on a page. Blank lines are not written, but call for one before the next line, as
a change of the major command does. -/
def add (options : Options) (page : Page) (line : Line) : Page :=
  if line.isRaw then
    page.write page.pendingBlank line.rawText none
  else
    match line.first? with
    | none => { page with pendingBlank := page.written ≠ [] }
    | some first =>
      if line.isCommentOnly then
        page.write page.pendingBlank line.rawText.stripEnd page.lastKey
      else
        let key := first.key <|> first.block
        let blank := page.written ≠ [] && (page.pendingBlank || key ≠ page.lastKey)
        page.write blank (codeLine options.indent line) key

end Page

end Layout

/-- A document in canonical layout, with the documents it includes written out. -/
def Document.format (options : Layout.Options) (document : Document) : Text :=
  let page := (Layout.lines options document).foldl (Layout.Page.add options) ⟨[], false, none⟩
  page.written.reverse.flatMap fun line => line ++ [.char '
']

end TexSource
