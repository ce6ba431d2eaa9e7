import TexSource.Dependency
import TexSource.Expansion.Splice
import TexSource.Proofs.Relabeling.Tokens

/-!
# Trees with new numbers for files

What is made of a tree does not depend on the numbers of files: its text, what splicing makes of it,
and the files it mentions.
-/

namespace TexSource

section

variable (relabeling : Relabeling)

/-- A placed token with its file id renamed. -/
def Placed.relabel (placed : Placed) : Placed :=
  { placed with token := placed.token.relabel relabeling }

mutual

/-- A node with the file ids under it renamed. -/
def Node.relabel : Node → Node
  | .leaf id placed => .leaf id (placed.relabel relabeling)
  | .group id delimiter opener children closer span =>
    .group id delimiter (opener.map (Placed.relabel relabeling)) (relabelAll children)
      (closer.map (Placed.relabel relabeling)) (span.relabel relabeling)
  | .math id display opener children closer span =>
    .math id display (opener.relabel relabeling) (relabelAll children)
      (closer.map (Placed.relabel relabeling)) (span.relabel relabeling)
  | .command invocation => .command invocation.relabel
  | .environment id name opening body none matched span =>
    .environment id name opening.relabel (relabelAll body) none matched (span.relabel relabeling)
  | .environment id name opening body (some ending) matched span =>
    .environment id name opening.relabel (relabelAll body) (some ending.relabel) matched
      (span.relabel relabeling)
  | .inclusion id directive fileId path document span =>
    .inclusion id directive.relabel (relabeling.file fileId) path document.relabel
      (span.relabel relabeling)

/-- A command with the file ids under it renamed. -/
def Command.relabel : Command → Command
  | ⟨id, name, head, star, arguments, span⟩ =>
    ⟨id, name, head.relabel relabeling, star.map (Placed.relabel relabeling),
      relabelArguments arguments, span.relabel relabeling⟩

/-- Nodes with their file ids renamed. -/
def relabelAll : List Node → List Node
  | [] => []
  | node :: rest => node.relabel :: relabelAll rest

/-- Arguments with their file ids renamed. -/
def relabelArguments : List Argument → List Argument
  | [] => []
  | ⟨kind, leading, content⟩ :: rest =>
    ⟨kind, relabelAll leading, content.relabel⟩ :: relabelArguments rest

/-- A document with its file ids renamed. -/
def Document.relabel : Document → Document
  | ⟨fileId, source, tokens, root, diagnostics, size⟩ =>
    ⟨relabeling.file fileId, source, tokens.map (Token.relabel relabeling), root.relabel,
      diagnostics.map (Diagnostic.relabel relabeling), size⟩

end

/-- An argument with its file ids renamed. -/
def Argument.relabel (argument : Argument) : Argument :=
  ⟨argument.kind, relabelAll relabeling argument.leading, argument.content.relabel relabeling⟩

end

variable {relabeling : Relabeling}

theorem relabelAll_eq_map (nodes : List Node) :
    relabelAll relabeling nodes = nodes.map (Node.relabel relabeling) := by
  induction nodes with
  | nil => rfl
  | cons node rest ih => rw [relabelAll, ih, List.map_cons]

theorem relabelArguments_eq_map (arguments : List Argument) :
    relabelArguments relabeling arguments = arguments.map (Argument.relabel relabeling) := by
  induction arguments with
  | nil => rfl
  | cons argument rest ih =>
    obtain ⟨kind, leading, content⟩ := argument
    rw [relabelArguments, ih, List.map_cons, Argument.relabel]

theorem Node.relabel_environment (id : NodeId) (name : Text) (opening : Command)
    (body : List Node) (ending : Option Command) (matched : Bool) (span : Span) :
    (Node.environment id name opening body ending matched span).relabel relabeling =
      .environment id name (opening.relabel relabeling) (relabelAll relabeling body)
        (ending.map (Command.relabel relabeling)) matched (span.relabel relabeling) := by
  cases ending <;> rw [Node.relabel] <;> rfl

namespace Document

variable (document : Document)

@[simp] theorem fileId_relabel :
    (document.relabel relabeling).fileId = relabeling.file document.fileId := by
  cases document; rfl

@[simp] theorem source_relabel : (document.relabel relabeling).source = document.source := by
  cases document; rfl

@[simp] theorem tokens_relabel :
    (document.relabel relabeling).tokens = document.tokens.map (Token.relabel relabeling) := by
  cases document; rfl

@[simp] theorem root_relabel :
    (document.relabel relabeling).root = document.root.relabel relabeling := by
  cases document; rfl

@[simp] theorem diagnostics_relabel : (document.relabel relabeling).diagnostics =
    document.diagnostics.map (Diagnostic.relabel relabeling) := by
  cases document; rfl

@[simp] theorem size_relabel : (document.relabel relabeling).size = document.size := by
  cases document; rfl

/-- Two documents are the same, save for the numbers of their own files. -/
def Twins (document twin : Document) : Prop :=
  ∀ relabeling other : Relabeling,
    relabeling.span document.fileId = other.span twin.fileId →
    relabeling.file document.fileId = other.file twin.fileId →
    document.relabel relabeling = twin.relabel other

end Document

@[simp] theorem Command.id_relabel (invocation : Command) :
    (invocation.relabel relabeling).id = invocation.id := by
  cases invocation; rfl

@[simp] theorem Command.name_relabel (invocation : Command) :
    (invocation.relabel relabeling).name = invocation.name := by
  cases invocation; rfl

@[simp] theorem Command.span_relabel (invocation : Command) :
    (invocation.relabel relabeling).span = invocation.span.relabel relabeling := by
  cases invocation; rfl

@[simp] theorem Node.id_relabel (node : Node) : (node.relabel relabeling).id = node.id := by
  cases node with
  | command invocation => exact invocation.id_relabel
  | environment => rw [Node.relabel_environment]; rfl
  | _ => rfl

mutual

/-- The tokens under a node are the same but for their files. -/
theorem Node.placed_relabel : (node : Node) →
    (node.relabel relabeling).placed = node.placed.map (Placed.relabel relabeling)
  | .leaf _ _ => rfl
  | .group _ _ _ children _ _ => by
    simp [Node.relabel, Node.placed, placedAll_relabelAll children, Option.toList_map]
  | .math _ _ _ children _ _ => by
    simp [Node.relabel, Node.placed, placedAll_relabelAll children, Option.toList_map]
  | .command invocation => invocation.placed_relabel
  | .environment _ _ opening body none _ _ => by
    simp [Node.relabel, Node.placed, opening.placed_relabel, placedAll_relabelAll body]
  | .environment _ _ opening body (some ending) _ _ => by
    simp [Node.relabel, Node.placed, opening.placed_relabel, placedAll_relabelAll body,
      ending.placed_relabel]
  | .inclusion _ directive _ _ _ _ => by
    simp [Node.relabel, Node.placed, directive.placed_relabel]

theorem Command.placed_relabel : (invocation : Command) →
    (invocation.relabel relabeling).placed = invocation.placed.map (Placed.relabel relabeling)
  | ⟨_, _, _, _, arguments, _⟩ => by
    simp [Command.relabel, Command.placed, placedArguments_relabel arguments, Option.toList_map]

theorem placedAll_relabelAll : (nodes : List Node) →
    placedAll (relabelAll relabeling nodes) = (placedAll nodes).map (Placed.relabel relabeling)
  | [] => rfl
  | node :: rest => by
    simp [relabelAll, placedAll, node.placed_relabel, placedAll_relabelAll rest]

theorem placedArguments_relabel : (arguments : List Argument) →
    placedArguments (relabelArguments relabeling arguments) =
      (placedArguments arguments).map (Placed.relabel relabeling)
  | [] => rfl
  | ⟨_, leading, content⟩ :: rest => by
    simp [relabelArguments, placedArguments, placedAll_relabelAll leading,
      content.placed_relabel, placedArguments_relabel rest]

end

@[simp] theorem Placed.token_relabel (placed : Placed) :
    (placed.relabel relabeling).token = placed.token.relabel relabeling := rfl

theorem map_token_relabel (tokens : List Placed) :
    (tokens.map (Placed.relabel relabeling)).map Placed.token =
      (tokens.map Placed.token).map (Token.relabel relabeling) := by
  simp

/-- The text of a node does not depend on the numbers of files. -/
@[simp] theorem Node.innerText_relabel (node : Node) :
    (node.relabel relabeling).innerText = node.innerText := by
  have whole : Token.rawText ((node.relabel relabeling).placed.map Placed.token) =
      Token.rawText (node.placed.map Placed.token) := by
    rw [node.placed_relabel, map_token_relabel, Token.rawText_relabel]
  cases node with
  | group _ _ _ children _ _ =>
    simp only [Node.relabel, Node.innerText, placedAll_relabelAll, map_token_relabel,
      Token.rawText_relabel]
  | environment id name opening body ending matched span =>
    rw [Node.relabel_environment] at whole ⊢
    exact whole
  | _ => exact whole

mutual

/-- The text of a node does not depend on files. -/
theorem Node.sourceText_relabel : (node : Node) →
    (node.relabel relabeling).sourceText = node.sourceText
  | .leaf _ _ => rfl
  | .group _ _ _ children _ _ => by
    simp [Node.relabel, Node.sourceText, sourceTextAll_relabelAll children, Option.toList_map,
      List.flatMap_map]
  | .math _ _ _ children _ _ => by
    simp [Node.relabel, Node.sourceText, sourceTextAll_relabelAll children, Option.toList_map,
      List.flatMap_map]
  | .command invocation => invocation.sourceText_relabel
  | .environment _ _ opening body none _ _ => by
    simp [Node.relabel, Node.sourceText, opening.sourceText_relabel, sourceTextAll_relabelAll body]
  | .environment _ _ opening body (some ending) _ _ => by
    simp [Node.relabel, Node.sourceText, opening.sourceText_relabel, sourceTextAll_relabelAll body,
      ending.sourceText_relabel]
  | .inclusion _ _ _ _ document _ => document.sourceText_relabel

theorem Command.sourceText_relabel : (invocation : Command) →
    (invocation.relabel relabeling).sourceText = invocation.sourceText
  | ⟨_, _, _, _, arguments, _⟩ => by
    simp [Command.relabel, Command.sourceText, sourceTextArguments_relabel arguments,
      Option.toList_map, List.flatMap_map]

theorem sourceTextAll_relabelAll : (nodes : List Node) →
    sourceTextAll (relabelAll relabeling nodes) = sourceTextAll nodes
  | [] => rfl
  | node :: rest => by
    simp [relabelAll, sourceTextAll, node.sourceText_relabel, sourceTextAll_relabelAll rest]

theorem sourceTextArguments_relabel : (arguments : List Argument) →
    sourceTextArguments (relabelArguments relabeling arguments) = sourceTextArguments arguments
  | [] => rfl
  | ⟨_, leading, content⟩ :: rest => by
    simp [relabelArguments, sourceTextArguments, sourceTextAll_relabelAll leading,
      content.sourceText_relabel, sourceTextArguments_relabel rest]

/-- **The text of a document does not depend on the numbers of files.** -/
theorem Document.sourceText_relabel : (document : Document) →
    (document.relabel relabeling).sourceText = document.sourceText
  | ⟨_, _, _, root, _, _⟩ => root.sourceText_relabel

end

namespace Expansion

/-- An inclusion with its file ids renamed. -/
def Inclusion.relabel (relabeling : Relabeling) (inclusion : Inclusion) : Inclusion :=
  ⟨relabeling.file inclusion.fileId, inclusion.path, inclusion.document.relabel relabeling⟩

variable (inclusions : Array Inclusion)

/-- A ticket stands for the same inclusion. -/
theorem ticketed_relabel (ticket : Option Nat) :
    ticket.bind ((inclusions.map (Inclusion.relabel relabeling))[·]?) =
      (ticket.bind (inclusions[·]?)).map (Inclusion.relabel relabeling) := by
  cases ticket <;> simp

mutual

/-- Inclusions are put in place of the same tokens. -/
theorem spliceNode_relabel : (node : Node) → (created : NodeId) →
    spliceNode (inclusions.map (Inclusion.relabel relabeling)) (node.relabel relabeling) created =
      ((spliceNode inclusions node created).1.relabel relabeling,
        (spliceNode inclusions node created).2)
  | .leaf _ _, _ => rfl
  | .group _ _ _ children _ _, created => by
    have inside := spliceNodes_relabel children created
    simp only [Node.relabel, spliceNode, bind, StateT.bind, pure, inside]
    rfl
  | .math _ _ _ children _ _, created => by
    have inside := spliceNodes_relabel children created
    simp only [Node.relabel, spliceNode, bind, StateT.bind, pure, inside]
    rfl
  | .command invocation, created => by
    have inside := spliceCommand_relabel invocation created
    simp only [Node.relabel, spliceNode, bind, StateT.bind, inside]
    generalize spliceCommand inclusions invocation created = spliced
    obtain ⟨⟨id, name, head, star, arguments, span⟩, later⟩ := spliced
    simp only [Command.relabel, Placed.token_relabel, Token.ticket_relabel, ticketed_relabel]
    cases head.token.ticket.bind (inclusions[·]?) <;> rfl
  | .environment _ _ opening body none _ _, created => by
    have head := spliceCommand_relabel opening created
    have inside := spliceNodes_relabel body (spliceCommand inclusions opening created).2
    simp only [Node.relabel, spliceNode, bind, StateT.bind, pure, head, inside]
    rfl
  | .environment _ _ opening body (some ending) _ _, created => by
    have head := spliceCommand_relabel opening created
    have inside := spliceNodes_relabel body (spliceCommand inclusions opening created).2
    have last := spliceCommand_relabel ending
      (spliceNodes inclusions body (spliceCommand inclusions opening created).2).2
    simp only [Node.relabel, spliceNode, bind, StateT.bind, pure, head, inside, last]
    rfl
  | .inclusion _ _ _ _ _ _, _ => rfl

theorem spliceCommand_relabel : (invocation : Command) → (created : NodeId) →
    spliceCommand (inclusions.map (Inclusion.relabel relabeling)) (invocation.relabel relabeling)
        created =
      ((spliceCommand inclusions invocation created).1.relabel relabeling,
        (spliceCommand inclusions invocation created).2)
  | ⟨_, _, _, _, arguments, _⟩, created => by
    have inside := spliceArguments_relabel arguments created
    simp only [Command.relabel, spliceCommand, bind, StateT.bind, pure, inside]
    rfl

theorem spliceNodes_relabel : (nodes : List Node) → (created : NodeId) →
    spliceNodes (inclusions.map (Inclusion.relabel relabeling)) (relabelAll relabeling nodes)
        created =
      (relabelAll relabeling (spliceNodes inclusions nodes created).1,
        (spliceNodes inclusions nodes created).2)
  | [], _ => rfl
  | node :: rest, created => by
    have first := spliceNode_relabel node created
    have later := spliceNodes_relabel rest (spliceNode inclusions node created).2
    simp only [relabelAll, spliceNodes, bind, StateT.bind, pure, first, later]
    rfl

theorem spliceArguments_relabel : (arguments : List Argument) → (created : NodeId) →
    spliceArguments (inclusions.map (Inclusion.relabel relabeling))
        (relabelArguments relabeling arguments) created =
      (relabelArguments relabeling (spliceArguments inclusions arguments created).1,
        (spliceArguments inclusions arguments created).2)
  | [], _ => rfl
  | ⟨_, leading, content⟩ :: rest, created => by
    have before := spliceNodes_relabel leading created
    have inside := spliceNode_relabel content (spliceNodes inclusions leading created).2
    have later := spliceArguments_relabel rest
      (spliceNode inclusions content (spliceNodes inclusions leading created).2).2
    simp only [relabelArguments, spliceArguments, bind, StateT.bind, pure, before,
      inside, later]
    rfl

end

/-- A document with its inclusions is the same but for its files. -/
theorem splice_relabel (document : Document) :
    splice (inclusions.map (Inclusion.relabel relabeling)) (document.relabel relabeling) =
      (splice inclusions document).relabel relabeling := by
  obtain ⟨fileId, source, tokens, root, diagnostics, size⟩ := document
  simp only [splice, Document.relabel, Node.id_relabel, spliceNode_relabel]

end Expansion

namespace Dependency

/-- A mention with its file ids renamed. -/
def Mention.relabel (relabeling : Relabeling) : Mention → Mention
  | .included path => .included path
  | .use invocation ancestors =>
    .use (invocation.relabel relabeling) (ancestors.map relabeling.file)

mutual

/-- In renamed files the same files are mentioned. -/
theorem mentions_relabel (ancestors : List FileId) : (node : Node) →
    mentions (ancestors.map relabeling.file) (node.relabel relabeling) =
      (mentions ancestors node).map (Mention.relabel relabeling)
  | .leaf _ _ => rfl
  | .group _ _ _ children _ _ => mentionsAll_relabel ancestors children
  | .math _ _ _ children _ _ => mentionsAll_relabel ancestors children
  | .command invocation => mentionsOfCommand_relabel ancestors invocation
  | .environment _ _ opening body none _ _ => by
    simp only [Node.relabel, mentions, mentionsOfCommand_relabel ancestors opening,
      mentionsAll_relabel ancestors body, List.map_append]
  | .environment _ _ opening body (some ending) _ _ => by
    simp only [Node.relabel, mentions, mentionsOfCommand_relabel ancestors opening,
      mentionsAll_relabel ancestors body, mentionsOfCommand_relabel ancestors ending,
      List.map_append]
  | .inclusion _ _ fileId _ ⟨_, _, _, root, _, _⟩ _ => by
    have inside := mentions_relabel (ancestors ++ [fileId]) root
    rw [List.map_append, List.map_singleton] at inside
    simp only [Node.relabel, Document.relabel, mentions, inside, List.map_cons, Mention.relabel]

theorem mentionsOfCommand_relabel (ancestors : List FileId) : (invocation : Command) →
    mentionsOfCommand (ancestors.map relabeling.file) (invocation.relabel relabeling) =
      (mentionsOfCommand ancestors invocation).map (Mention.relabel relabeling)
  | ⟨_, _, _, _, arguments, _⟩ => by
    simp only [Command.relabel, mentionsOfCommand, mentionsOfArguments_relabel ancestors arguments,
      List.map_append, List.map_cons, List.map_nil, Mention.relabel]

theorem mentionsAll_relabel (ancestors : List FileId) : (nodes : List Node) →
    mentionsAll (ancestors.map relabeling.file) (relabelAll relabeling nodes) =
      (mentionsAll ancestors nodes).map (Mention.relabel relabeling)
  | [] => rfl
  | node :: rest => by
    simp only [relabelAll, mentionsAll, mentions_relabel ancestors node,
      mentionsAll_relabel ancestors rest, List.map_append]

theorem mentionsOfArguments_relabel (ancestors : List FileId) : (arguments : List Argument) →
    mentionsOfArguments (ancestors.map relabeling.file) (relabelArguments relabeling arguments) =
      (mentionsOfArguments ancestors arguments).map (Mention.relabel relabeling)
  | [] => rfl
  | ⟨_, leading, content⟩ :: rest => by
    simp only [relabelArguments, mentionsOfArguments, mentionsAll_relabel ancestors leading,
      mentions_relabel ancestors content, mentionsOfArguments_relabel ancestors rest,
      List.map_append]

end

end Dependency

end TexSource
