import TexSource.Proofs.Document.Productions

/-!
# Segments of a document

The tokens of a document fall into its outermost verbatim environments and the tokens outside of
them (`Document.segments`). What is read of a document are the tokens ahead, up to math shifts that
are split (`Parser.Reads.splits`).
-/

namespace TexSource

/-- A verbatim environment, or a token outside of them. -/
inductive Segment where
  | token (placed : Placed)
  | passage (environment : Node)

namespace Segment

/-- The tokens of a segment. -/
def placed : Segment → List Placed
  | token placed => [placed]
  | passage environment => environment.placed

/-- The environment that a segment is, if it is one. -/
def passage? : Segment → Option Node
  | token _ => none
  | passage environment => some environment

/-- The tokens of segments that stand one behind the other. -/
def tokens (segments : List Segment) : List Token :=
  (segments.flatMap placed).map Placed.token

@[simp] theorem tokens_nil : tokens [] = [] := rfl

@[simp] theorem tokens_cons (segment : Segment) (rest : List Segment) :
    tokens (segment :: rest) = segment.placed.map Placed.token ++ tokens rest := by
  simp [tokens]

/-- The tokens of segments one behind another. -/
@[simp] theorem tokens_append (segments others : List Segment) :
    tokens (segments ++ others) = tokens segments ++ tokens others := by
  simp [tokens]

end Segment

section

variable (commands : CommandTable)

mutual

/-- The segments under a node: its outermost verbatim environments, and its other tokens. -/
def Node.segments : Node → List Segment
  | .leaf _ placed => [.token placed]
  | .group _ _ opener children closer _ =>
    opener.toList.map .token ++ segmentsAll children ++ closer.toList.map .token
  | .math _ _ opener children closer _ =>
    .token opener :: segmentsAll children ++ closer.toList.map .token
  | .command invocation => invocation.segments
  | .environment id name opening body none matched span =>
    if commands.isVerbatim name then
      [.passage (.environment id name opening body none matched span)]
    else opening.segments ++ segmentsAll body
  | .environment id name opening body (some ending) matched span =>
    if commands.isVerbatim name then
      [.passage (.environment id name opening body (some ending) matched span)]
    else opening.segments ++ segmentsAll body ++ ending.segments
  | .inclusion _ directive _ _ _ _ => directive.segments

/-- The segments of a command: its tokens, and those of its arguments. -/
def Command.segments : Command → List Segment
  | ⟨_, _, head, star, arguments, _⟩ =>
    .token head :: star.toList.map .token ++ segmentsArguments arguments

/-- The segments of a sequence of nodes. -/
def segmentsAll : List Node → List Segment
  | [] => []
  | node :: rest => node.segments ++ segmentsAll rest

/-- The segments of arguments, with what is skipped before them. -/
def segmentsArguments : List Argument → List Segment
  | [] => []
  | ⟨_, leading, content⟩ :: rest =>
    segmentsAll leading ++ content.segments ++ segmentsArguments rest

end

/-- The segments of a document. -/
def Document.segments (document : Document) : List Segment :=
  document.root.segments commands

/-- The verbatim environments of a document that lie in no other, in the order of the text. -/
def Document.passages (document : Document) : List Node :=
  (document.segments commands).filterMap Segment.passage?

variable {commands}

theorem flatMap_placed_token (tokens : List Placed) :
    (tokens.map Segment.token).flatMap Segment.placed = tokens := by
  induction tokens with
  | nil => rfl
  | cons token rest ih => simpa [Segment.placed] using ih

/-- A verbatim environment is a segment by itself; any other one has the segments of its parts. -/
theorem Node.segments_environment (id : NodeId) (name : Text) (opening : Command)
    (body : List Node) (ending : Option Command) (matched : Bool) (span : Span) :
    (Node.environment id name opening body ending matched span).segments commands =
      if commands.isVerbatim name then [.passage
        (.environment id name opening body ending matched span)]
      else opening.segments commands ++ segmentsAll commands body ++
        ending.toList.flatMap (·.segments commands) := by
  cases ending <;> simp [Node.segments]

/-- The tokens of an environment, with an end or without. -/
theorem Node.placed_environment (id : NodeId) (name : Text) (opening : Command)
    (body : List Node) (ending : Option Command) (matched : Bool) (span : Span) :
    (Node.environment id name opening body ending matched span).placed =
      opening.placed ++ placedAll body ++ ending.toList.flatMap Command.placed := by
  cases ending <;> simp [Node.placed]

/-- The nodes of an environment, with an end or without. -/
theorem Node.walk_environment (id : NodeId) (name : Text) (opening : Command)
    (body : List Node) (ending : Option Command) (matched : Bool) (span : Span) :
    (Node.environment id name opening body ending matched span).walk =
      .environment id name opening body ending matched span ::
        (opening.walk ++ walkAll body ++ ending.toList.flatMap Command.walk) := by
  cases ending <;> simp [Node.walk]

/-- The first segment of a command is its control sequence. -/
theorem Command.segments_eq (invocation : Command) :
    invocation.segments commands =
      .token invocation.head :: (invocation.segments commands).tail := by
  cases invocation
  rfl

mutual

/-- The segments of a node have the tokens of the node. -/
theorem Node.placed_segments : (node : Node) →
    (node.segments commands).flatMap Segment.placed = node.placed
  | .leaf _ _ => rfl
  | .group _ _ _ children _ _ => by
    simp only [Node.segments, List.flatMap_append, flatMap_placed_token,
      placed_segmentsAll children,
      Node.placed]
  | .math _ _ _ children _ _ => by
    simp only [Node.segments, List.flatMap_append, List.flatMap_cons, flatMap_placed_token,
      placed_segmentsAll children, Segment.placed, Node.placed, List.singleton_append]
  | .command invocation => invocation.placed_segments
  | .environment id name opening body none matched span => by
    rw [Node.segments_environment]
    split
    · simp [Segment.placed]
    · simp [opening.placed_segments, placed_segmentsAll body, Node.placed]
  | .environment id name opening body (some ending) matched span => by
    rw [Node.segments_environment]
    split
    · simp [Segment.placed]
    · simp [opening.placed_segments, placed_segmentsAll body, ending.placed_segments, Node.placed]
  | .inclusion _ directive _ _ _ _ => directive.placed_segments

/-- The segments of a command have its tokens. -/
theorem Command.placed_segments : (invocation : Command) →
    (invocation.segments commands).flatMap Segment.placed = invocation.placed
  | ⟨_, _, _, _, arguments, _⟩ => by
    simp only [Command.segments, List.flatMap_append, List.flatMap_cons, flatMap_placed_token,
      placed_segmentsArguments arguments, Segment.placed, Command.placed, List.singleton_append]

/-- The segments of nodes have their tokens. -/
theorem placed_segmentsAll : (nodes : List Node) →
    (segmentsAll commands nodes).flatMap Segment.placed = placedAll nodes
  | [] => rfl
  | node :: rest => by
    simp only [segmentsAll, List.flatMap_append, node.placed_segments, placed_segmentsAll rest,
      placedAll]

theorem placed_segmentsArguments : (arguments : List Argument) →
    (segmentsArguments commands arguments).flatMap Segment.placed = placedArguments arguments
  | [] => rfl
  | ⟨_, leading, content⟩ :: rest => by
    simp only [segmentsArguments, List.flatMap_append, placed_segmentsAll leading,
      content.placed_segments, placed_segmentsArguments rest, placedArguments]

end

/-- The tokens of the segments of a node are its tokens. -/
@[simp] theorem Node.tokens_segments (node : Node) :
    Segment.tokens (node.segments commands) = node.placed.map Placed.token := by
  rw [Segment.tokens, node.placed_segments]

@[simp] theorem Command.tokens_segments (invocation : Command) :
    Segment.tokens (invocation.segments commands) = invocation.placed.map Placed.token := by
  rw [Segment.tokens, invocation.placed_segments]

variable (commands) in
/-- The first token of a command is its head. -/
theorem Command.tokens_eq (invocation : Command) :
    invocation.placed.map Placed.token =
      invocation.head.token :: Segment.tokens (invocation.segments commands).tail := by
  rw [← @Command.tokens_segments commands]
  conv_lhs => rw [invocation.segments_eq]
  rfl

@[simp] theorem tokens_segmentsAll (nodes : List Node) :
    Segment.tokens (segmentsAll commands nodes) = (placedAll nodes).map Placed.token := by
  rw [Segment.tokens, placed_segmentsAll]

@[simp] theorem tokens_segmentsArguments (arguments : List Argument) :
    Segment.tokens (segmentsArguments commands arguments) =
      (placedArguments arguments).map Placed.token := by
  rw [Segment.tokens, placed_segmentsArguments]

variable (commands) in
/-- Whether a node is an environment whose body is read verbatim. -/
def Node.isVerbatim : Node → Bool
  | .environment _ name _ _ _ _ _ => commands.isVerbatim name
  | _ => false

variable (commands) in
/-- The verbatim environments in a segment, the segment itself among them. -/
def Segment.verbatims (segment : Segment) : List Node :=
  segment.passage?.toList.flatMap (·.walk.filter (Node.isVerbatim commands))

/-- Tokens by themselves are no verbatim environments. -/
theorem flatMap_verbatims_token (tokens : List Placed) :
    (tokens.map Segment.token).flatMap (Segment.verbatims commands) = [] := by
  simp [Segment.verbatims, Segment.passage?]

mutual

/-- Every verbatim environment is a segment or below one. -/
theorem Node.filter_walk : (node : Node) → node.walk.filter (Node.isVerbatim commands) =
    (node.segments commands).flatMap (Segment.verbatims commands)
  | .leaf _ _ => rfl
  | .group _ _ _ children _ _ => by
    simp [Node.walk, Node.segments, Node.isVerbatim, flatMap_verbatims_token,
      filter_walkAll children]
  | .math _ _ _ children _ _ => by
    simp [Node.walk, Node.segments, Node.isVerbatim, flatMap_verbatims_token, Segment.verbatims,
      Segment.passage?, filter_walkAll children]
  | .command invocation => invocation.filter_walk
  | .environment id name opening body none matched span => by
    rw [Node.segments_environment]
    split
    · simp [Segment.verbatims, Segment.passage?]
    · rename_i text
      simp [Node.walk, Node.isVerbatim, text, opening.filter_walk, filter_walkAll body]
  | .environment id name opening body (some ending) matched span => by
    rw [Node.segments_environment]
    split
    · simp [Segment.verbatims, Segment.passage?]
    · rename_i text
      simp [Node.walk, Node.isVerbatim, text, opening.filter_walk, filter_walkAll body,
        ending.filter_walk]
  | .inclusion _ directive _ _ _ _ => by
    simp [Node.walk, Node.segments, Node.isVerbatim, directive.filter_walk]

/-- The verbatim environments in a command are those of its segments. -/
theorem Command.filter_walk : (invocation : Command) →
    invocation.walk.filter (Node.isVerbatim commands) =
      (invocation.segments commands).flatMap (Segment.verbatims commands)
  | ⟨_, _, _, _, arguments, _⟩ => by
    simp [Command.walk, Command.segments, Node.isVerbatim, flatMap_verbatims_token,
      Segment.verbatims, Segment.passage?, filter_walkArguments arguments]

/-- The verbatim environments under nodes are those of their segments. -/
theorem filter_walkAll : (nodes : List Node) →
    (walkAll nodes).filter (Node.isVerbatim commands) =
      (segmentsAll commands nodes).flatMap (Segment.verbatims commands)
  | [] => rfl
  | node :: rest => by simp [segmentsAll, node.filter_walk, filter_walkAll rest]

theorem filter_walkArguments : (arguments : List Argument) →
    (walkArguments arguments).filter (Node.isVerbatim commands) =
      (segmentsArguments commands arguments).flatMap (Segment.verbatims commands)
  | [] => rfl
  | ⟨_, leading, content⟩ :: rest => by
    simp [walkArguments, segmentsArguments, filter_walkAll leading, content.filter_walk,
      filter_walkArguments rest]

end

variable (commands) in
/-- **The verbatim environments of a document** are its passages and those in their heads. -/
theorem Document.filter_walk (document : Document) :
    document.walk.filter (Node.isVerbatim commands) =
      (document.passages commands).flatMap (·.walk.filter (Node.isVerbatim commands)) := by
  rw [Document.walk, Node.filter_walk, Document.passages, List.filterMap_eq_flatMap_toList,
    List.flatMap_assoc]
  rfl

end

mutual

/-- The number of levels that a node opens inside each other. A `\begin` opens one, also where it
has found no room to. -/
def Node.depth : Node → Nat
  | .leaf _ _ => 0
  | .group _ .root _ children _ _ => depthAll children
  | .group _ _ _ children _ _ => depthAll children + 1
  | .math _ _ _ children _ _ => depthAll children + 1
  | .command invocation => invocation.depth
  | .environment _ _ opening body none _ _ => max opening.depth (depthAll body + 1)
  | .environment _ _ opening body (some ending) _ _ =>
    max (max opening.depth (depthAll body + 1)) ending.depth
  | .inclusion _ directive _ _ _ _ => directive.depth

/-- The depth to which levels are nested in a command. -/
def Command.depth : Command → Nat
  | ⟨_, name, _, _, arguments, _⟩ =>
    max (if name = "begin" then 1 else 0) (depthArguments arguments)

/-- The depth to which levels are nested under nodes. -/
def depthAll : List Node → Nat
  | [] => 0
  | node :: rest => max node.depth (depthAll rest)

/-- The depth to which levels are nested in arguments. -/
def depthArguments : List Argument → Nat
  | [] => 0
  | ⟨_, leading, content⟩ :: rest =>
    max (max (depthAll leading) content.depth) (depthArguments rest)

end

/-- A `\begin` opens a level. -/
theorem Command.depth_of_begin (invocation : Command) (begins : invocation.name = "begin") :
    1 ≤ invocation.depth := by
  obtain ⟨id, name, head, star, arguments, span⟩ := invocation
  have same : name = "begin" := begins
  rw [Command.depth, if_pos same]
  exact Nat.le_max_left ..

theorem Node.depth_environment (id : NodeId) (name : Text) (opening : Command)
    (body : List Node) (ending : Option Command) (matched : Bool) (span : Span) :
    (Node.environment id name opening body ending matched span).depth =
      max (max opening.depth (depthAll body + 1)) ((ending.map Command.depth).getD 0) := by
  cases ending <;> simp [Node.depth]

namespace Parser

namespace Piece

/-- The tokens of a piece. -/
@[simp] def placed : Piece → List Placed
  | .sequence _ nodes => placedAll nodes
  | .node content => content.placed
  | .bracket content => content.placed
  | .command invocation => invocation.placed
  | .arguments _ _ _ found => placedArguments found
  | .opening invocation _ => invocation.placed
  | .ending invocation _ => invocation.placed
  | .body _ nodes => placedAll nodes
  | .behindBody found => found.toList.flatMap fun found => found.1.placed

/-- The nodes of a piece. -/
@[simp] def walk : Piece → List Node
  | .sequence _ nodes => walkAll nodes
  | .node content => content.walk
  | .bracket content => content.walk
  | .command invocation => invocation.walk
  | .arguments _ _ _ found => walkArguments found
  | .opening invocation _ => invocation.walk
  | .ending invocation _ => invocation.walk
  | .body _ nodes => walkAll nodes
  | .behindBody found => found.toList.flatMap fun found => found.1.walk

/-- The depth to which levels are nested in a piece. -/
@[simp] def depth : Piece → Nat
  | .sequence _ nodes => depthAll nodes
  | .node content => content.depth
  | .bracket content => content.depth
  | .command invocation => invocation.depth
  | .arguments _ _ _ found => depthArguments found
  | .opening invocation _ => invocation.depth
  | .ending invocation _ => invocation.depth
  | .body _ nodes => depthAll nodes + 1
  | .behindBody found => (found.map fun found => found.1.depth).getD 0

end Piece

variable {commands : CommandTable} {level : Nat} {mode : Mode} {ahead after : List Token}
  {piece : Piece} {reports : List Report}

/-- Leaves have the tokens that they were built out of. -/
theorem tokens_leaves {tokens : List Token} {nodes : List Node} (leaves : Leaves tokens nodes) :
    (placedAll nodes).map Placed.token = tokens := by
  induction leaves with
  | nil => rfl
  | cons id placed _ ih => rw [placedAll, List.map_append, ih, Node.placed]; rfl

theorem segmentsAll_leaves {tokens : List Token} {nodes : List Node}
    (leaves : Leaves tokens nodes) :
    segmentsAll commands nodes = (placedAll nodes).map .token := by
  induction leaves with
  | nil => rfl
  | cons id placed _ ih => rw [segmentsAll, placedAll, List.map_append, ih, Node.segments]; rfl

/-- A token that is taken stood in front. -/
theorem Takes.tokens_eq {test : Token → Bool} {taken : Option Placed}
    (takes : Takes test ahead taken after) :
    ahead = taken.toList.map Placed.token ++ after := by
  cases takes <;> rfl

/-- A token that is taken for a test passes it. -/
theorem Takes.forall_mem {test : Token → Bool} {taken : Option Placed} {tokens others : List Token}
    (takes : Takes test tokens taken others) : ∀ placed ∈ taken, test placed.token = true := by
  cases takes with
  | taken passes => simpa using passes
  | left => exact nofun

/-- Where a math shift closes a formula, it is split or left as it is. -/
theorem Closing.splits_ahead (closing : Closing) (tokens : List Token) :
    Splits tokens (closing.ahead tokens) := by
  unfold Closing.ahead
  split
  · exact .splitFront tokens
  · exact .refl tokens

/-- **What is read is what was ahead.** Only math shifts are split on the way. -/
theorem Reads.splits (read : Reads commands level mode ahead piece after reports) :
    Splits ahead (piece.placed.map Placed.token ++ after) := by
  induction read with
  | stop => exact .refl _
  | next _ _ _ first later =>
    rw [Piece.placed, placedAll, List.map_append, List.append_assoc]
    exact first.trans ((Splits.refl _).append later)
  | unopened _ _ _ ih => exact ih
  | group _ _ _ closes ih =>
    rw [closes.tokens_eq] at ih
    simpa [Node.placed] using ih.keep _
  | @flatGroup _ _ _ _ _ _ _ rest _ _ _ leaves closes =>
    have whole := List.take_append_drop (flatLength 0 rest) rest
    rw [closes.tokens_eq] at whole
    simpa [Node.placed, tokens_leaves leaves, whole] using Splits.refl _
  | strayEnding _ _ ih => exact ih
  | @math _ _ _ _ closing _ _ _ _ middle _ _ _ _ _ _ _ closes ih =>
    have inner := ih.trans ((Splits.refl _).append (closing.splits_ahead middle))
    rw [closes.tokens_eq] at inner
    simpa [Node.placed] using inner.keep _
  | environment _ _ _ _ opened content ended =>
    have whole := opened.trans
      ((Splits.refl _).append (content.trans ((Splits.refl _).append ended)))
    simpa [Node.placed_environment, Option.toList_map, List.flatMap_map] using whole
  | nameless _ _ _ _ ih => exact ih
  | plainCommand _ _ ih => exact ih
  | command _ _ _ starred _ ih =>
    rw [starred.tokens_eq]
    simpa [Command.placed] using ((Splits.refl _).append ih).keep _
  | omitted _ _ ih => exact ih
  | optional _ leading _ _ first later =>
    have whole := (first.trans ((Splits.refl _).append later)).after_take
    simpa [placedArguments, tokens_leaves leading] using whole
  | bracket _ _ _ closes ih =>
    rw [closes.tokens_eq] at ih
    simpa [Node.placed] using ih.keep _
  | braced leading _ _ _ first later =>
    have whole := (first.trans ((Splits.refl _).append later)).after_take
    simpa [placedArguments, tokens_leaves leading] using whole
  | @single _ _ _ _ _ _ _ _ placed _ _ _ _ leading stands _ _ _ ih =>
    have whole := ih.keep placed.token
    rw [← stands] at whole
    simpa [placedArguments, Node.placed, tokens_leaves leading] using whole.after_take
  | opening _ _ _ leading _ _ _ _ first later =>
    have whole := (first.trans ((Splits.refl _).append later)).after_take
    simpa [Command.placed, placedArguments, tokens_leaves leading] using whole.keep _
  | namedEnding _ _ _ leading _ _ ih =>
    simpa [Command.placed, placedArguments, tokens_leaves leading] using ih.after_take.keep _
  | verbatimBody _ leaves => simpa [tokens_leaves leaves] using Splits.refl _
  | textBody _ _ _ ih => exact ih
  | ended _ ih => simpa using ih
  | _ => exact .refl _

end Parser

end TexSource
