import TexSource.Document.Traversal

/-!
# Splicing inclusions into a tree

After an expansion, the directives that were followed carry tickets. Splicing puts
an inclusion node in the place of each such directive; the directive itself becomes
a new node below the inclusion.
-/

namespace TexSource

namespace Expansion

/-- A file that was included, with its document as expanded. -/
structure Inclusion where
  fileId : FileId
  path : Text
  document : Document

mutual

/-- A node with the directives below it replaced. The state is the number of the next
new node. -/
def spliceNode (inclusions : Array Inclusion) : Node → StateM NodeId Node
  | .leaf id token => return .leaf id token
  | .group id delimiter opener children closer span => do
    return .group id delimiter opener (← spliceNodes inclusions children) closer span
  | .math id display opener children closer span => do
    return .math id display opener (← spliceNodes inclusions children) closer span
  | .command invocation => do
    let spliced ← spliceCommand inclusions invocation
    match spliced.head.token.ticket.bind (inclusions[·]?) with
    | none => return .command spliced
    | some included =>
      let fresh ← modifyGet fun created => (created, created + 1)
      return .inclusion spliced.id { spliced with id := fresh } included.fileId included.path
        included.document spliced.span
  | .environment id name opening body none matched span => do
    let opening ← spliceCommand inclusions opening
    let body ← spliceNodes inclusions body
    return .environment id name opening body none matched span
  | .environment id name opening body (some ending) matched span => do
    let opening ← spliceCommand inclusions opening
    let body ← spliceNodes inclusions body
    let ending ← spliceCommand inclusions ending
    return .environment id name opening body (some ending) matched span
  | .inclusion id directive fileId path document span =>
    return .inclusion id directive fileId path document span

/-- A command with the directives in its arguments replaced. -/
def spliceCommand (inclusions : Array Inclusion) : Command → StateM NodeId Command
  | ⟨id, name, head, star, arguments, span⟩ => do
    return ⟨id, name, head, star, ← spliceArguments inclusions arguments, span⟩

/-- A sequence of nodes with the directives below them replaced. -/
def spliceNodes (inclusions : Array Inclusion) : List Node → StateM NodeId (List Node)
  | [] => return []
  | node :: rest => do
    let first ← spliceNode inclusions node
    return first :: (← spliceNodes inclusions rest)

/-- A sequence of arguments with the directives in them replaced. -/
def spliceArguments (inclusions : Array Inclusion) :
    List Argument → StateM NodeId (List Argument)
  | [] => return []
  | ⟨kind, leading, content⟩ :: rest => do
    let leading ← spliceNodes inclusions leading
    let content ← spliceNode inclusions content
    return ⟨kind, leading, content⟩ :: (← spliceArguments inclusions rest)

end

/-- A document with the directives that carry tickets replaced by inclusions. New
nodes are numbered behind the root. -/
def splice (inclusions : Array Inclusion) (document : Document) : Document :=
  { document with root := (spliceNode inclusions document.root (document.root.id + 1)).1 }

end Expansion

end TexSource
