import TexSource.Document

/-!
# Walks over the tree

The tokens under a node, the nodes under it from the outside in, and the text of
a document with the documents it includes.
-/

namespace TexSource

mutual

/-- The tokens under a node in the order of the text, without those of included
documents. -/
def Node.placed : Node → List Placed
  | .leaf _ token => [token]
  | .group _ _ opener children closer _ =>
    opener.toList ++ placedAll children ++ closer.toList
  | .math _ _ opener children closer _ => opener :: placedAll children ++ closer.toList
  | .command invocation => invocation.placed
  | .environment _ _ opening body none _ _ => opening.placed ++ placedAll body
  | .environment _ _ opening body (some ending) _ _ =>
    opening.placed ++ placedAll body ++ ending.placed
  | .inclusion _ directive _ _ _ _ => directive.placed

/-- The tokens of a command with those of its arguments. -/
def Command.placed : Command → List Placed
  | ⟨_, _, head, star, arguments, _⟩ => head :: star.toList ++ placedArguments arguments

/-- The tokens under a sequence of nodes. -/
def placedAll : List Node → List Placed
  | [] => []
  | node :: rest => node.placed ++ placedAll rest

/-- The tokens of arguments, with what is skipped before them. -/
def placedArguments : List Argument → List Placed
  | [] => []
  | ⟨_, leading, content⟩ :: rest =>
    placedAll leading ++ content.placed ++ placedArguments rest

end

namespace Node

/-- The tokens under a node in the order of the text. -/
def tokens (node : Node) : List Token :=
  node.placed.map Placed.token

/-- The source text of a node. -/
def text (node : Node) : Text :=
  Token.rawText node.tokens

/-- The source text of a node, for a group without its delimiters. -/
def innerText : Node → Text
  | group _ _ _ children _ _ => Token.rawText ((placedAll children).map Placed.token)
  | node => node.text

end Node

mutual

/-- A node and the nodes below it, every node before those below it. -/
def Node.walk : Node → List Node
  | .leaf id token => [.leaf id token]
  | .group id delimiter opener children closer span =>
    .group id delimiter opener children closer span :: walkAll children
  | .math id display opener children closer span =>
    .math id display opener children closer span :: walkAll children
  | .command invocation => invocation.walk
  | .environment id name opening body none matched span =>
    .environment id name opening body none matched span :: opening.walk ++ walkAll body
  | .environment id name opening body (some ending) matched span =>
    .environment id name opening body (some ending) matched span ::
      opening.walk ++ walkAll body ++ ending.walk
  | .inclusion id directive fileId path document span =>
    .inclusion id directive fileId path document span :: directive.walk

/-- A command and the nodes in its arguments. -/
def Command.walk : Command → List Node
  | ⟨id, name, head, star, arguments, span⟩ =>
    .command ⟨id, name, head, star, arguments, span⟩ :: walkArguments arguments

/-- A sequence of nodes, each followed by the nodes below it. -/
def walkAll : List Node → List Node
  | [] => []
  | node :: rest => node.walk ++ walkAll rest

/-- The nodes in arguments, and those that are skipped before them. -/
def walkArguments : List Argument → List Node
  | [] => []
  | ⟨_, leading, content⟩ :: rest => walkAll leading ++ content.walk ++ walkArguments rest

end

mutual

/-- The text of a node, with included documents in the place of their directives. -/
def Node.sourceText : Node → Text
  | .leaf _ placed => placed.token.raw
  | .group _ _ opener children closer _ =>
    opener.toList.flatMap (·.token.raw) ++ sourceTextAll children ++
      closer.toList.flatMap (·.token.raw)
  | .math _ _ opener children closer _ =>
    opener.token.raw ++ sourceTextAll children ++ closer.toList.flatMap (·.token.raw)
  | .command invocation => invocation.sourceText
  | .environment _ _ opening body none _ _ => opening.sourceText ++ sourceTextAll body
  | .environment _ _ opening body (some ending) _ _ =>
    opening.sourceText ++ sourceTextAll body ++ ending.sourceText
  | .inclusion _ _ _ _ document _ => document.sourceText

/-- The text of a command, with the documents that are included in its arguments. -/
def Command.sourceText : Command → Text
  | ⟨_, _, head, star, arguments, _⟩ =>
    head.token.raw ++ star.toList.flatMap (·.token.raw) ++ sourceTextArguments arguments

/-- The text of a sequence of nodes, with the documents that they include. -/
def sourceTextAll : List Node → Text
  | [] => []
  | node :: rest => node.sourceText ++ sourceTextAll rest

/-- The text of arguments, with the documents that they include. -/
def sourceTextArguments : List Argument → Text
  | [] => []
  | ⟨_, leading, content⟩ :: rest =>
    sourceTextAll leading ++ content.sourceText ++ sourceTextArguments rest

/-- The text of a document, with included documents in the place of their
directives. -/
def Document.sourceText : Document → Text
  | ⟨_, _, _, root, _, _⟩ => root.sourceText

end

namespace Document

/-- The nodes of a document, every node before those below it. -/
def walk (document : Document) : List Node :=
  document.root.walk

/-- The nodes of a document in the order in which they were created. -/
def nodes (document : Document) : List Node :=
  document.walk.mergeSort fun first second => first.id ≤ second.id

/-- The source text of a document, without included documents. -/
def text (document : Document) : Text :=
  document.root.text

end Document

end TexSource
