import Mathlib.Data.List.Chain
import TexSource.Proofs.Document.Roles

/-!
# Ways down the tree

A way down the tree goes from a node to a node directly below it, and so on (`Node.IsWay`). No way
from a node is longer than the node is high (`Node.IsWay.length_le`), and of what the parser reads
at a nesting level, a node adds at most three to the height of what is read one level deeper
(`Parser.Reads.low`).
-/

namespace TexSource

/-- A way down the tree: every node stands directly below the one before it. -/
def Node.IsWay (way : List Node) : Prop :=
  way.IsChain fun node below => below ∈ node.children

mutual

/-- The number of nodes on the longest way down from a node. -/
def Node.height : Node → Nat
  | .leaf _ _ => 1
  | .group _ _ _ children _ _ => heightAll children + 1
  | .math _ _ _ children _ _ => heightAll children + 1
  | .command invocation => invocation.height
  | .environment _ _ opening body none _ _ => max opening.height (heightAll body) + 1
  | .environment _ _ opening body (some ending) _ _ =>
    max (max opening.height (heightAll body)) ending.height + 1
  | .inclusion _ directive _ _ _ _ => directive.height + 1

def Command.height : Command → Nat
  | ⟨_, _, _, _, arguments, _⟩ => heightArguments arguments + 1

def heightAll : List Node → Nat
  | [] => 0
  | node :: rest => max node.height (heightAll rest)

def heightArguments : List Argument → Nat
  | [] => 0
  | ⟨_, leading, content⟩ :: rest =>
    max (max (heightAll leading) content.height) (heightArguments rest)

end

@[simp] theorem heightAll_nil : heightAll [] = 0 := rfl

@[simp] theorem heightAll_cons (node : Node) (rest : List Node) :
    heightAll (node :: rest) = max node.height (heightAll rest) := rfl

@[simp] theorem heightArguments_nil : heightArguments [] = 0 := rfl

@[simp] theorem heightArguments_cons (kind : ArgumentKind) (leading : List Node) (content : Node)
    (rest : List Argument) :
    heightArguments (⟨kind, leading, content⟩ :: rest) =
      max (max (heightAll leading) content.height) (heightArguments rest) := rfl

theorem Command.height_eq (invocation : Command) :
    invocation.height = heightArguments invocation.arguments + 1 := by
  cases invocation
  rfl

theorem height_le_heightAll {node : Node} {nodes : List Node} (member : node ∈ nodes) :
    node.height ≤ heightAll nodes := by
  induction nodes with
  | nil => cases member
  | cons first rest ih =>
    rw [heightAll_cons]
    rcases List.mem_cons.mp member with rfl | member
    · exact Nat.le_max_left ..
    · exact Nat.le_trans (ih member) (Nat.le_max_right ..)

theorem height_le_heightArguments {argument : Argument} {arguments : List Argument} {node : Node}
    (member : argument ∈ arguments) (inside : node ∈ argument.leading ++ [argument.content]) :
    node.height ≤ heightArguments arguments := by
  induction arguments with
  | nil => cases member
  | cons first rest ih =>
    obtain ⟨kind, leading, content⟩ := first
    rw [heightArguments_cons]
    rcases List.mem_cons.mp member with rfl | member
    · rcases List.mem_append.mp inside with blank | last
      · have lower : node.height ≤ heightAll leading := height_le_heightAll blank
        omega
      · obtain rfl := List.mem_singleton.mp last
        omega
    · have := ih member
      omega

namespace Node

/-- A node is higher than the nodes directly below it. -/
theorem height_lt_of_mem_children {node below : Node} (member : below ∈ node.children) :
    below.height < node.height := by
  cases node with
  | leaf => cases member
  | group id delimiter opener children closer span =>
    exact Nat.lt_succ_of_le (height_le_heightAll member)
  | math id display opener children closer span =>
    exact Nat.lt_succ_of_le (height_le_heightAll member)
  | command invocation =>
    obtain ⟨argument, listed, inside⟩ := List.mem_flatMap.mp member
    rw [height, invocation.height_eq]
    exact Nat.lt_succ_of_le (height_le_heightArguments listed inside)
  | environment id name opening body ending matched span =>
    have within : below ∈ body → below.height ≤ heightAll body := height_le_heightAll
    rw [Node.children, List.mem_append, List.mem_cons] at member
    cases ending with
    | none =>
      rw [height]
      rcases member with (rfl | member) | member
      · rw [height]
        omega
      · have := within member
        omega
      · cases member
    | some ending =>
      rw [height]
      rcases member with (rfl | member) | member
      · rw [height]
        omega
      · have := within member
        omega
      · obtain rfl := List.mem_singleton.mp member
        rw [height]
        omega
  | inclusion id directive fileId path document span =>
    obtain rfl := List.mem_singleton.mp member
    exact Nat.lt_succ_self _

/-- What holds of a node, and below every node of which it holds, holds of its walk. -/
theorem walk_induction {motive : Node → Prop} {root : Node} (top : motive root)
    (down : ∀ node, motive node → ∀ below ∈ node.children, motive below) :
    ∀ node ∈ root.walk, motive node := by
  induction size : root.height using Nat.strongRecOn generalizing root with
  | ind height ih =>
    subst size
    rw [walk_eq_cons]
    refine List.forall_mem_cons.mpr ⟨top, fun node member => ?_⟩
    obtain ⟨below, listed, inside⟩ := List.mem_flatMap.mp member
    exact ih below.height (height_lt_of_mem_children listed) (down root top below listed) rfl node
      inside

/-- The walk over a node of a walk is a part of it. -/
theorem walk_subset_of_mem_walk {root node : Node} (member : node ∈ root.walk) :
    node.walk ⊆ root.walk := by
  refine walk_induction (motive := fun node => node.walk ⊆ root.walk) (List.Subset.refl _) ?_ node
    member
  intro node inside below listed other member
  apply inside
  rw [walk_eq_cons]
  exact List.mem_cons_of_mem _ (List.mem_flatMap.mpr ⟨below, listed, member⟩)

/-- What stands directly below a node of a walk is a node of the walk. -/
theorem mem_walk_of_mem_children {root node below : Node} (member : node ∈ root.walk)
    (child : below ∈ node.children) : below ∈ root.walk := by
  apply walk_subset_of_mem_walk member
  rw [walk_eq_cons]
  exact List.mem_cons_of_mem _ (List.mem_flatMap.mpr ⟨below, child, below.mem_walk⟩)

theorem placed_infix_placedAll {node : Node} {nodes : List Node} (member : node ∈ nodes) :
    node.placed <:+: placedAll nodes := by
  obtain ⟨before, after, rfl⟩ := List.append_of_mem member
  exact ⟨placedAll before, placedAll after, by simp⟩

theorem placedArguments_eq_placedAll (arguments : List Argument) :
    placedArguments arguments =
      placedAll (arguments.flatMap fun argument => argument.leading ++ [argument.content]) := by
  induction arguments with
  | nil => rfl
  | cons argument rest ih =>
    obtain ⟨kind, leading, content⟩ := argument
    simp [placedArguments, ih]

/-- The tokens of the nodes below a node stand together among its own. -/
theorem placedAll_children_infix (node : Node) : placedAll node.children <:+: node.placed := by
  cases node with
  | leaf id placed => exact (List.nil_prefix).isInfix
  | group id delimiter opener children closer span => exact ⟨opener.toList, closer.toList, rfl⟩
  | math id display opener children closer span => exact ⟨[opener], closer.toList, rfl⟩
  | command invocation =>
    obtain ⟨id, name, head, star, arguments, span⟩ := invocation
    refine ⟨head :: star.toList, [], ?_⟩
    simp [placed, Command.placed, children, placedArguments_eq_placedAll]
  | environment id name opening body ending matched span =>
    cases ending with
    | none => exact ⟨[], [], by simp [placed, children]⟩
    | some ending => exact ⟨[], [], by simp [placed, children]⟩
  | inclusion id directive fileId path document span =>
    exact ⟨[], [], by simp [placed, children]⟩

/-- The tokens of a node of a walk stand together among those of the first. -/
theorem placed_infix_of_mem_walk {root node : Node} (member : node ∈ root.walk) :
    node.placed <:+: root.placed := by
  refine walk_induction (motive := fun node => node.placed <:+: root.placed) List.infix_rfl ?_ node
    member
  intro node inside below listed
  exact ((placed_infix_placedAll listed).trans node.placedAll_children_infix).trans inside

/-- No way down from a node has more nodes than the node is high. -/
theorem IsWay.length_le {way : List Node} (descends : IsWay way) {node : Node}
    (starts : way.head? = some node) : way.length ≤ node.height := by
  induction way generalizing node with
  | nil => cases starts
  | cons first rest ih =>
    obtain rfl : first = node := by simpa using starts
    cases rest with
    | nil =>
      have positive : 0 < first.height := by
        cases first with
        | environment _ _ _ _ ending _ _ => cases ending <;> exact Nat.succ_pos _
        | command invocation =>
          rw [height, invocation.height_eq]
          exact Nat.succ_pos _
        | _ => exact Nat.succ_pos _
      exact positive
    | cons second later =>
      obtain ⟨below, descends⟩ := List.isChain_cons_cons.mp descends
      have shorter := ih descends rfl
      have lower := height_lt_of_mem_children below
      rw [List.length_cons]
      omega

end Node

namespace Parser

variable {commands : CommandTable} {level : Nat} {mode : Mode} {ahead after : List Token}
  {piece : Piece} {reports : List Report}

theorem heightAll_leaves {tokens : List Token} {nodes : List Node} (leaves : Leaves tokens nodes) :
    heightAll nodes ≤ 1 := by
  induction leaves with
  | nil => exact Nat.zero_le 1
  | cons id placed _ ih =>
    rw [heightAll_cons]
    exact Nat.max_le.mpr ⟨Nat.le_refl 1, ih⟩

/-- How high the arguments are that are read at a nesting level. At the deepest one they are at
most groups of leaves. -/
def argumentHeight (level : Nat) : Nat :=
  max 2 (3 * (maxNesting - level) + 1)

/-- What is read at a nesting level, given the tokens ahead, is no higher than there is room for.
A group is as low as an argument. -/
def Piece.Low (level : Nat) (ahead : List Token) : Piece → Prop
  | .sequence _ nodes => heightAll nodes ≤ 3 * (maxNesting - level) + 3
  | .node content => content.height ≤ 3 * (maxNesting - level) + 3 ∧
      (ahead.head?.any Token.isBeginGroup = true → content.height ≤ argumentHeight level)
  | .bracket content => content.height ≤ argumentHeight level
  | .command invocation => heightArguments invocation.arguments ≤ argumentHeight level
  | .arguments _ _ _ found => heightArguments found ≤ argumentHeight level
  | .opening invocation _ => heightArguments invocation.arguments ≤ argumentHeight level
  | .ending invocation _ => heightArguments invocation.arguments ≤ argumentHeight level
  | .body _ nodes => heightAll nodes ≤ argumentHeight level
  | .behindBody found =>
    ∀ ending ∈ found, heightArguments ending.1.arguments ≤ argumentHeight level

/-- A command is one node higher than its arguments, and there is room for it. -/
theorem low_command {invocation : Command}
    (low : heightArguments invocation.arguments ≤ argumentHeight level)
    (other : ahead.head?.any Token.isBeginGroup = false) :
    (Piece.node (.command invocation)).Low level ahead := by
  have height : (Node.command invocation).height = heightArguments invocation.arguments + 1 :=
    invocation.height_eq
  constructor
  · unfold argumentHeight at low
    omega
  · simp [other]

theorem low_argument (kind : ArgumentKind) {tokens : List Token} {leading : List Node}
    {content : Node} {found : List Argument} (leaves : Leaves tokens leading)
    (first : content.height ≤ argumentHeight level)
    (later : heightArguments found ≤ argumentHeight level) :
    heightArguments (⟨kind, leading, content⟩ :: found) ≤ argumentHeight level := by
  have blanks := heightAll_leaves leaves
  have least : 2 ≤ argumentHeight level := Nat.le_max_left ..
  rw [heightArguments_cons]
  omega

theorem isBeginGroup_of_isControlWord {token : Token} {name : Text}
    (word : token.isControlWord name = true) : token.isBeginGroup = false :=
  (Token.isBrace_eq_false_iff.mp
    (isBrace_of_isControlSequence (isControlSequence_of_isControlWord word))).1

/-- No brace stands before an `\end`. -/
theorem Reads.unbraced_ending {invocation : Command} {name : Text}
    (read : Reads commands level mode ahead (.ending invocation name) after reports) :
    ahead.head?.any Token.isBeginGroup = false := by
  cases read with
  | namedEnding _ _ word => exact isBeginGroup_of_isControlWord word
  | namelessEnding _ _ word => exact isBeginGroup_of_isControlWord word

/-- No brace stands before a `\begin`. -/
theorem Reads.unbraced_opening {invocation : Command} {name : Text}
    (read : Reads commands level mode ahead (.opening invocation name) after reports) :
    ahead.head?.any Token.isBeginGroup = false := by
  cases read with
  | opening _ _ word => exact isBeginGroup_of_isControlWord word

/-- **Heights of what is read.** -/
theorem Reads.low (read : Reads commands level mode ahead piece after reports) :
    piece.Low level ahead := by
  have least (level : Nat) : 2 ≤ argumentHeight level := Nat.le_max_left ..
  induction read with
  | stop => exact Nat.zero_le _
  | next _ _ _ first later => exact Nat.max_le.mpr ⟨first.1, later⟩
  | unopened _ _ _ ih => exact ih
  | @group level _ _ _ children _ _ _ _ _ _ room _ _ _ ih =>
    have inside : heightAll children ≤ 3 * (maxNesting - (level + 1)) + 3 := ih
    simp only [Piece.Low, Node.height, argumentHeight]
    omega
  | @flatGroup _ _ _ _ children _ _ _ _ _ _ leaves _ =>
    have inside := heightAll_leaves leaves
    simp only [Piece.Low, Node.height, argumentHeight]
    omega
  | strayGroupEnd =>
    simp only [Piece.Low, Node.height, argumentHeight]
    omega
  | strayEnding _ read ih => exact low_command ih read.unbraced_ending
  | @math level _ _ opener _ children _ _ _ _ _ _ room _ opens _ _ _ ih =>
    have inside : heightAll children ≤ 3 * (maxNesting - (level + 1)) + 3 := ih
    have other := (Token.isBrace_eq_false_iff.mp (isBrace_of_opensMath opens)).1
    refine ⟨?_, fun braced => absurd braced (by simp [other])⟩
    rw [Node.height]
    omega
  | @environment level _ _ _ opening body ending _ _ _ _ _ _ _ _ room opened _ _ head inside
      behind =>
    refine ⟨?_, fun braced => absurd braced (by simp [opened.unbraced_opening])⟩
    have head : opening.height ≤ argumentHeight level + 1 := by
      rw [opening.height_eq]
      exact Nat.succ_le_succ head
    have inside : heightAll body ≤ argumentHeight level := inside
    have deepest : argumentHeight level = 3 * (maxNesting - level) + 1 :=
      Nat.max_eq_right (by omega)
    cases ending with
    | none =>
      rw [Option.map_none, Node.height]
      omega
    | some ending =>
      have last : ending.1.height ≤ argumentHeight level + 1 := by
        rw [ending.1.height_eq]
        exact Nat.succ_le_succ (behind ending rfl)
      rw [Option.map_some, Node.height]
      omega
  | nameless _ word _ _ ih => exact low_command ih (isBeginGroup_of_isControlWord word)
  | plainCommand plain _ ih =>
    exact low_command ih (Token.isBrace_eq_false_iff.mp (isBrace_of_plain plain)).1
  | leaf =>
    simp only [Piece.Low, Node.height, argumentHeight]
    omega
  | command _ _ _ _ _ ih => exact ih
  | noArguments => exact Nat.zero_le _
  | omitted _ _ ih => exact ih
  | optional _ leading _ _ first later => exact low_argument .optional leading first later
  | @bracket level _ _ _ children _ _ _ _ _ _ room _ _ _ ih =>
    have inside : heightAll children ≤ 3 * (maxNesting - (level + 1)) + 3 := ih
    simp only [Piece.Low, Node.height, argumentHeight]
    omega
  | missing => exact Nat.zero_le _
  | braced leading opens _ _ first later =>
    exact low_argument .mandatory leading (first.2 opens) later
  | single leading _ _ _ _ ih =>
    exact low_argument .mandatory leading (Nat.le_of_succ_le (least _)) ih
  | opening _ _ _ leading braced _ _ _ first later =>
    exact low_argument .mandatory leading (first.2 braced) later
  | namedEnding _ _ _ leading braced _ ih =>
    exact low_argument .mandatory leading (ih.2 braced) (Nat.zero_le _)
  | namelessEnding => exact Nat.zero_le _
  | verbatimBody _ leaves =>
    exact Nat.le_trans (heightAll_leaves leaves) (Nat.le_of_succ_le (least _))
  | @textBody level _ _ body _ _ _ room _ _ ih =>
    have inside : heightAll body ≤ 3 * (maxNesting - (level + 1)) + 3 := ih
    simp only [Piece.Low, argumentHeight]
    omega
  | unended => exact fun _ absent => absurd absent (Option.not_mem_none _)
  | ended _ ih =>
    intro ending present
    cases present
    exact ih

end Parser

end TexSource
