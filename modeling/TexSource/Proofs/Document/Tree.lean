import TexSource.Document.Traversal

/-!
# Walks over the tree, node by node

A walk over a node is the node followed by the walks over the nodes directly below it
(`Node.walk_eq_cons`). A document is printed as the text of its tokens, where those of an
included document stand in the place of its directive (`Document.sourceText_eq_rawText`);
without included documents these are the tokens under the root (`Node.inlined_eq_placed`).
-/

namespace TexSource

@[simp] theorem placedAll_nil : placedAll [] = [] := rfl

@[simp] theorem placedAll_cons (node : Node) (rest : List Node) :
    placedAll (node :: rest) = node.placed ++ placedAll rest := rfl

/-- The tokens under nodes are those of the parts. -/
@[simp] theorem placedAll_append (nodes others : List Node) :
    placedAll (nodes ++ others) = placedAll nodes ++ placedAll others := by
  induction nodes with
  | nil => rfl
  | cons node rest ih => simp [ih]

/-- The walk of nodes is that of each one. -/
theorem walkAll_eq_flatMap (nodes : List Node) : walkAll nodes = nodes.flatMap Node.walk := by
  induction nodes with
  | nil => rfl
  | cons node rest ih => rw [walkAll, ih, List.flatMap_cons]

@[simp] theorem walkAll_nil : walkAll [] = [] := rfl

@[simp] theorem walkAll_cons (node : Node) (rest : List Node) :
    walkAll (node :: rest) = node.walk ++ walkAll rest := rfl

@[simp] theorem walkAll_append (nodes others : List Node) :
    walkAll (nodes ++ others) = walkAll nodes ++ walkAll others := by
  simp only [walkAll_eq_flatMap, List.flatMap_append]

/-- The walk of arguments is that of what stands before them and in them. -/
theorem walkArguments_eq_flatMap (arguments : List Argument) :
    walkArguments arguments =
      (arguments.flatMap fun argument => argument.leading ++ [argument.content]).flatMap
        Node.walk := by
  induction arguments with
  | nil => rfl
  | cons argument rest ih =>
    obtain ⟨kind, leading, content⟩ := argument
    simp [walkArguments, ih, walkAll_eq_flatMap]

namespace Node

/-- The walk over a command starts with the command. -/
theorem walk_command (invocation : Command) :
    invocation.walk = .command invocation :: walkArguments invocation.arguments := by
  cases invocation
  rfl

/-- A walk is the node itself and the walks over the nodes directly below it. -/
theorem walk_eq_cons (node : Node) : node.walk = node :: node.children.flatMap walk := by
  cases node with
  | leaf id token => rfl
  | group id delimiter opener children closer span =>
    rw [walk, walkAll_eq_flatMap, Node.children]
  | math id display opener children closer span =>
    rw [walk, walkAll_eq_flatMap, Node.children]
  | command invocation =>
    rw [walk, walk_command, walkArguments_eq_flatMap, Node.children]
  | environment id name opening body ending matched span =>
    cases ending with
    | none => simp [walk, Node.children, walkAll_eq_flatMap]
    | some ending => simp [walk, Node.children, walkAll_eq_flatMap]
  | inclusion id directive fileId path document span => simp [walk, Node.children]

/-- A node is in its own walk. -/
theorem mem_walk (node : Node) : node ∈ node.walk := by
  rw [walk_eq_cons]
  exact List.mem_cons_self

/-- Whether a node is an inclusion. -/
def isInclusion : Node → Bool
  | inclusion _ _ _ _ _ _ => true
  | _ => false

end Node

/-- When the numbers of the nodes are those below a bound, each given to one node, the
nodes by their numbers are all of them. -/
theorem Document.nodes_ids_eq_range {document : Document} {count : Nat}
    (ids : (document.walk.map Node.id).Perm (List.range count)) :
    document.nodes.map Node.id = List.range count := by
  have trans : ∀ first second third : Node, decide (first.id ≤ second.id) = true →
      decide (second.id ≤ third.id) = true → decide (first.id ≤ third.id) = true := by
    intro first second third
    simpa using Nat.le_trans
  have total : ∀ first second : Node,
      (decide (first.id ≤ second.id) || decide (second.id ≤ first.id)) = true := by
    intro first second
    simpa using Nat.le_total first.id second.id
  have sorted : (document.nodes.map Node.id).Pairwise (· ≤ ·) := by
    rw [List.pairwise_map]
    simpa [Document.nodes] using List.pairwise_mergeSort trans total document.walk
  have perm : (document.nodes.map Node.id).Perm (List.range count) :=
    ((List.mergeSort_perm document.walk _).map Node.id).trans ids
  exact perm.eq_of_pairwise (fun _ _ _ _ => Nat.le_antisymm) sorted List.pairwise_le_range

mutual

/-- The tokens of a node as they are printed: those of an included document stand in the
place of its directive. -/
def Node.inlined : Node → List Token
  | .leaf _ placed => [placed.token]
  | .group _ _ opener children closer _ =>
    opener.toList.map Placed.token ++ inlinedAll children ++ closer.toList.map Placed.token
  | .math _ _ opener children closer _ =>
    opener.token :: inlinedAll children ++ closer.toList.map Placed.token
  | .command invocation => invocation.inlined
  | .environment _ _ opening body none _ _ => opening.inlined ++ inlinedAll body
  | .environment _ _ opening body (some ending) _ _ =>
    opening.inlined ++ inlinedAll body ++ ending.inlined
  | .inclusion _ _ _ _ document _ => document.inlined

/-- The tokens of a command with those of inclusions in place. -/
def Command.inlined : Command → List Token
  | ⟨_, _, head, star, arguments, _⟩ =>
    head.token :: star.toList.map Placed.token ++ inlinedArguments arguments

/-- The tokens of nodes with those of inclusions in place. -/
def inlinedAll : List Node → List Token
  | [] => []
  | node :: rest => node.inlined ++ inlinedAll rest

/-- The tokens of arguments with those of inclusions in place. -/
def inlinedArguments : List Argument → List Token
  | [] => []
  | ⟨_, leading, content⟩ :: rest =>
    inlinedAll leading ++ content.inlined ++ inlinedArguments rest

/-- The tokens of a document as they are printed, without its end of input. -/
def Document.inlined : Document → List Token
  | ⟨_, _, _, root, _, _⟩ => root.inlined

end

theorem Document.inlined_eq (document : Document) : document.inlined = document.root.inlined := by
  cases document
  rfl

mutual

/-- Without included documents, the tokens that are printed are those under the node. -/
theorem Node.inlined_eq_placed : (node : Node) →
    (∀ below ∈ node.walk, below.isInclusion = false) →
      node.inlined = node.placed.map Placed.token
  | .leaf _ token, _ => rfl
  | .group _ _ opener children closer _, own => by
    have inside := inlinedAll_eq_placed children fun below member =>
      own below (List.mem_cons_of_mem _ member)
    simp [Node.inlined, Node.placed, inside]
  | .math _ _ opener children closer _, own => by
    have inside := inlinedAll_eq_placed children fun below member =>
      own below (List.mem_cons_of_mem _ member)
    simp [Node.inlined, Node.placed, inside]
  | .command invocation, own => Command.inlined_eq_placed invocation own
  | .environment _ _ opening body none _ _, own => by
    have head := Command.inlined_eq_placed opening fun below member =>
      own below (by simp [Node.walk, member])
    have inside := inlinedAll_eq_placed body fun below member =>
      own below (by simp [Node.walk, member])
    simp [Node.inlined, Node.placed, head, inside]
  | .environment _ _ opening body (some ending) _ _, own => by
    have head := Command.inlined_eq_placed opening fun below member =>
      own below (by simp [Node.walk, member])
    have inside := inlinedAll_eq_placed body fun below member =>
      own below (by simp [Node.walk, member])
    have last := Command.inlined_eq_placed ending fun below member =>
      own below (by simp [Node.walk, member])
    simp [Node.inlined, Node.placed, head, inside, last]
  | .inclusion _ _ _ _ _ _, own => by
    have := own _ List.mem_cons_self
    cases this

/-- Without inclusions these are the tokens under the command. -/
theorem Command.inlined_eq_placed : (invocation : Command) →
    (∀ below ∈ invocation.walk, below.isInclusion = false) →
      invocation.inlined = invocation.placed.map Placed.token
  | ⟨_, _, head, star, arguments, _⟩, own => by
    have inside := inlinedArguments_eq_placed arguments fun below member =>
      own below (List.mem_cons_of_mem _ member)
    simp [Command.inlined, Command.placed, inside]

/-- Without inclusions these are the tokens under the nodes. -/
theorem inlinedAll_eq_placed : (nodes : List Node) →
    (∀ below ∈ walkAll nodes, below.isInclusion = false) →
      inlinedAll nodes = (placedAll nodes).map Placed.token
  | [], _ => rfl
  | node :: rest, own => by
    have first := Node.inlined_eq_placed node fun below member =>
      own below (List.mem_append_left _ member)
    have later := inlinedAll_eq_placed rest fun below member =>
      own below (List.mem_append_right _ member)
    simp [inlinedAll, first, later]

theorem inlinedArguments_eq_placed : (arguments : List Argument) →
    (∀ below ∈ walkArguments arguments, below.isInclusion = false) →
      inlinedArguments arguments = (placedArguments arguments).map Placed.token
  | [], _ => rfl
  | ⟨_, leading, content⟩ :: rest, own => by
    have before := inlinedAll_eq_placed leading fun below member =>
      own below (by simp [walkArguments, member])
    have inside := Node.inlined_eq_placed content fun below member =>
      own below (by simp [walkArguments, member])
    have later := inlinedArguments_eq_placed rest fun below member =>
      own below (by simp [walkArguments, member])
    simp [inlinedArguments, placedArguments, before, inside, later]

end

/-- The text of tokens with their indices. -/
theorem flatMap_raw_eq_rawText (placed : List Placed) :
    placed.flatMap (·.token.raw) = Token.rawText (placed.map Placed.token) := by
  rw [Token.rawText, List.flatMap_map]

mutual

/-- The text of a node is that of the tokens that are printed for it. -/
theorem Node.sourceText_eq_rawText : (node : Node) →
    node.sourceText = Token.rawText node.inlined
  | .leaf _ token => by simp [Node.sourceText, Node.inlined]
  | .group _ _ opener children closer _ => by
    simp [Node.sourceText, Node.inlined, sourceTextAll_eq_rawText children,
      flatMap_raw_eq_rawText]
  | .math _ _ opener children closer _ => by
    simp [Node.sourceText, Node.inlined, sourceTextAll_eq_rawText children,
      flatMap_raw_eq_rawText]
  | .command invocation => Command.sourceText_eq_rawText invocation
  | .environment _ _ opening body none _ _ => by
    simp [Node.sourceText, Node.inlined, Command.sourceText_eq_rawText opening,
      sourceTextAll_eq_rawText body]
  | .environment _ _ opening body (some ending) _ _ => by
    simp [Node.sourceText, Node.inlined, Command.sourceText_eq_rawText opening,
      sourceTextAll_eq_rawText body, Command.sourceText_eq_rawText ending]
  | .inclusion _ _ _ _ document _ => Document.sourceText_eq_rawText document

/-- The text of a command is that of its tokens. -/
theorem Command.sourceText_eq_rawText : (invocation : Command) →
    invocation.sourceText = Token.rawText invocation.inlined
  | ⟨_, _, head, star, arguments, _⟩ => by
    simp [Command.sourceText, Command.inlined, sourceTextArguments_eq_rawText arguments,
      flatMap_raw_eq_rawText]

/-- The text of nodes is that of their tokens. -/
theorem sourceTextAll_eq_rawText : (nodes : List Node) →
    sourceTextAll nodes = Token.rawText (inlinedAll nodes)
  | [] => rfl
  | node :: rest => by
    simp [sourceTextAll, inlinedAll, Node.sourceText_eq_rawText node,
      sourceTextAll_eq_rawText rest]

theorem sourceTextArguments_eq_rawText : (arguments : List Argument) →
    sourceTextArguments arguments = Token.rawText (inlinedArguments arguments)
  | [] => rfl
  | ⟨_, leading, content⟩ :: rest => by
    simp [sourceTextArguments, inlinedArguments, sourceTextAll_eq_rawText leading,
      Node.sourceText_eq_rawText content, sourceTextArguments_eq_rawText rest]

/-- The text of a document is that of the tokens that are printed for it. -/
theorem Document.sourceText_eq_rawText : (document : Document) →
    document.sourceText = Token.rawText document.inlined
  | ⟨_, _, _, root, _, _⟩ => Node.sourceText_eq_rawText root

end

end TexSource
