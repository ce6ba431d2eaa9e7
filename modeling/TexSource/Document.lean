import TexSource.Diagnostic
import TexSource.Signature
import TexSource.Token

/-!
# Documents

The tree of a document. Every token of the document stands at one place of the
tree, and every node carries the number under which it was created; a node is
created after all nodes below it.
-/

namespace TexSource

/-- A token with its index among the tokens of its document. -/
structure Placed where
  index : Nat
  token : Token
deriving DecidableEq, Repr, Inhabited

/-- What encloses the content of a group. -/
inductive Delimiter where
  /-- Nothing: the group is the root of a document. -/
  | root
  | brace
  | bracket
deriving DecidableEq, Repr, Inhabited

/-- The text that opens a group. -/
def Delimiter.text : Delimiter → Text
  | root => []
  | brace => [.char '\x7b']
  | bracket => [.char '[']

mutual

/-- A node of the tree. -/
inductive Node where
  /-- A single token. -/
  | leaf (id : NodeId) (token : Placed)
  /-- Content in braces or brackets, or the whole document. -/
  | group (id : NodeId) (delimiter : Delimiter) (opener : Option Placed) (children : List Node)
      (closer : Option Placed) (span : Span)
  /-- A formula. -/
  | math (id : NodeId) (display : Bool) (opener : Placed) (children : List Node)
      (closer : Option Placed) (span : Span)
  /-- A control sequence with its arguments. -/
  | command (invocation : Command)
  /-- A region from `\begin` to `\end`. -/
  | environment (id : NodeId) (name : Text) (opening : Command) (body : List Node)
      (ending : Option Command) (matched : Bool) (span : Span)
  /-- An inclusion directive together with the document it includes. -/
  | inclusion (id : NodeId) (directive : Command) (fileId : FileId) (path : Text)
      (document : Document) (span : Span)

/-- A control sequence with the star and the arguments that belong to it. -/
structure Command where
  id : NodeId
  name : Text
  head : Placed
  star : Option Placed
  arguments : List Argument
  span : Span

/-- An argument, with the blanks and comments skipped before it. -/
structure Argument where
  kind : ArgumentKind
  leading : List Node
  content : Node

/-- A source file as a list of tokens and as a tree. -/
structure Document where
  fileId : FileId
  source : Text
  tokens : List Token
  root : Node
  diagnostics : List Diagnostic
  size : Nat

end

namespace Node

/-- The number of a node. -/
def id : Node → NodeId
  | leaf id _ => id
  | group id _ _ _ _ _ => id
  | math id _ _ _ _ _ => id
  | command invocation => invocation.id
  | environment id _ _ _ _ _ _ => id
  | inclusion id _ _ _ _ _ => id

/-- The part of the source that a node covers. -/
def span : Node → Span
  | leaf _ placed => placed.token.span
  | group _ _ _ _ _ span => span
  | math _ _ _ _ _ span => span
  | command invocation => invocation.span
  | environment _ _ _ _ _ _ span => span
  | inclusion _ _ _ _ _ span => span

/-- The nodes directly below a node, in the order of the text. Below an inclusion
stands the directive; the included document has nodes of its own. -/
def children : Node → List Node
  | leaf _ _ => []
  | group _ _ _ children _ _ => children
  | math _ _ _ children _ _ => children
  | command invocation => invocation.arguments.flatMap fun argument =>
      argument.leading ++ [argument.content]
  | environment _ _ opening body ending _ _ =>
      .command opening :: body ++ (ending.map Node.command).toList
  | inclusion _ directive _ _ _ _ => [.command directive]

/-- Whether a node has the delimiter that closes it. Only groups and formulas can
lack one; the root of a document needs none. -/
def isClosed : Node → Bool
  | group _ .root _ _ _ _ => true
  | group _ _ _ _ closer _ => closer.isSome
  | math _ _ _ _ closer _ => closer.isSome
  | _ => true

end Node

instance : Inhabited Node := ⟨.leaf default default⟩

namespace Document

/-- The token at the end of a document. -/
def endOfInput (document : Document) : Token :=
  (document.tokens.getLast?).getD default

end Document

end TexSource
