import Mathlib.Data.List.Forall2
import Mathlib.Data.List.Nodup
import TexSource.Layout
import TexSource.Proofs.Document.Productions
import TexSource.Proofs.Document.Ways
import TexSource.Proofs.Expansion.Provenance
import TexSource.Proofs.Spans

/-!
# Where tokens stand in a tree

How deep a token stands in a tree is the number of constructs around it that indent what is in them
(`Layout.depthOf`), and it is verbatim in the body of an environment of that kind
(`Layout.isVerbatim`). Both are said of the nodes of the tree, one by one; the items of a layout,
which are made on the way down the tree, say the same (`Layout.items_stand`), and so the lines of a
layout stand for those of the source (`Document.lines_stand`).
-/

namespace TexSource

namespace Layout

variable (options : Options)

/-- Whether a node indents a token that stands in it. -/
def indents (placed : Placed) : Node → Bool
  | .group _ _ (some _) children _ _ => (placedAll children).contains placed
  | .math _ _ _ children _ _ => (placedAll children).contains placed
  | .environment _ name _ body _ _ _ =>
    !options.unindentedEnvironments.contains name && (placedAll body).contains placed
  | _ => false

/-- Whether a node is a verbatim environment with a token in its body. -/
def keepsVerbatim (placed : Placed) : Node → Bool
  | .environment _ name _ body _ _ _ =>
    options.verbatimEnvironments.contains name && (placedAll body).contains placed
  | _ => false

/-- The depth of a token in the tree of a document. -/
def depthOf (document : Document) (placed : Placed) : Nat :=
  document.walk.countP (indents options placed)

/-- Whether a token belongs to the body of a verbatim environment. -/
def isVerbatim (document : Document) (placed : Placed) : Bool :=
  document.walk.any (keepsVerbatim options placed)

/-- A line of a source: its tokens, and the line end behind them, which the last line can lack. -/
structure SourceLine where
  content : List Placed
  lineEnd : Option Placed

/-- All tokens of a line. -/
def SourceLine.placed (line : SourceLine) : List Placed :=
  line.content ++ line.lineEnd.toList

/-- The lines of a sequence of tokens. -/
def sourceLines : List Placed → List SourceLine
  | [] => []
  | placed :: rest =>
    if placed.token.isEndOfLine then ⟨[], some placed⟩ :: sourceLines rest
    else
      match sourceLines rest with
      | [] => [⟨[placed], none⟩]
      | line :: later => ⟨placed :: line.content, line.lineEnd⟩ :: later

/-- An item stands for a token of a document. -/
structure Item.Stands (document : Document) (item : Item) (placed : Placed) : Prop where
  token : item.token = placed.token
  verbatim : item.verbatim = isVerbatim options document placed
  depth : item.verbatim = false → item.depth = depthOf options document placed

variable {options}

/-- A node indents only the tokens of its children. -/
theorem mem_children_of_indents {placed : Placed} {node : Node}
    (within : indents options placed node = true ∨ keepsVerbatim options placed node = true) :
    placed ∈ placedAll node.children := by
  cases node with
  | group id delimiter opener children closer span =>
    cases opener <;> simp_all [indents, keepsVerbatim, Node.children]
  | math id display opener children closer span =>
    simpa [indents, keepsVerbatim, Node.children] using within
  | environment id name opening body ending matched span =>
    have member : placed ∈ placedAll body := by
      rcases within with within | within <;>
        exact List.contains_iff_mem.mp (Bool.and_eq_true_iff.mp within).2
    simp [Node.children, member]
  | _ => simp [indents, keepsVerbatim] at within

/-- All nodes of a walk consist of given tokens. -/
def LiesIn (tokens : List Placed) (walk : List Node) : Prop :=
  ∀ node ∈ walk, node.placed ⊆ tokens

/-- The tokens that the nodes of a walk hold are under its root. -/
theorem liesIn_walk (node : Node) : LiesIn node.placed node.walk :=
  fun _ member => (Node.placed_infix_of_mem_walk member).subset

theorem liesIn_walkAll (nodes : List Node) : LiesIn (placedAll nodes) (walkAll nodes) := by
  intro node member
  rw [walkAll_eq_flatMap] at member
  obtain ⟨top, listed, inside⟩ := List.mem_flatMap.mp member
  exact List.Subset.trans (liesIn_walk top node inside) (Node.placed_infix_placedAll listed).subset

theorem liesIn_command (invocation : Command) : LiesIn invocation.placed invocation.walk :=
  liesIn_walk (.command invocation)

theorem liesIn_walkArguments (arguments : List Argument) :
    LiesIn (placedArguments arguments) (walkArguments arguments) := by
  rw [Node.placedArguments_eq_placedAll, walkArguments_eq_flatMap, ← walkAll_eq_flatMap]
  exact liesIn_walkAll _

theorem liesIn_nil (tokens : List Placed) : LiesIn tokens [] :=
  fun _ member => absurd member List.not_mem_nil

/-- Walks of both parts lie in the tokens of both. -/
theorem LiesIn.append {tokens others : List Placed} {walk later : List Node}
    (first : LiesIn tokens walk) (second : LiesIn others later) :
    LiesIn (tokens ++ others) (walk ++ later) := by
  intro node member
  rcases List.mem_append.mp member with member | member
  · exact List.Subset.trans (first node member) (List.subset_append_left ..)
  · exact List.Subset.trans (second node member) (List.subset_append_right ..)

/-- None of the nodes that a token is not under is around it. -/
theorem none_around {placed : Placed} {walk : List Node}
    (outside : ∀ node ∈ walk, placed ∉ placedAll node.children) :
    walk.countP (indents options placed) = 0 ∧ walk.any (keepsVerbatim options placed) = false := by
  constructor
  · exact List.countP_eq_zero.mpr fun node member within =>
      outside node member (mem_children_of_indents (.inl within))
  · exact List.any_eq_false.mpr fun node member within =>
      outside node member (mem_children_of_indents (.inr within))

/-- None of the nodes that consist of other tokens is around a token. -/
theorem LiesIn.outside {tokens : List Placed} {walk : List Node} (lies : LiesIn tokens walk)
    {placed : Placed} (apart : placed ∉ tokens) :
    walk.countP (indents options placed) = 0 ∧ walk.any (keepsVerbatim options placed) = false :=
  none_around fun node member inside =>
    apart (lies node member (node.placedAll_children_infix.subset inside))

/-- At a depth, all that stands around tokens besides is in a walk. -/
structure Accounts (options : Options) (document : Document) (depth : Nat) (walk : List Node)
    (tokens : List Placed) : Prop where
  depth : ∀ placed ∈ tokens,
    depthOf options document placed = depth + walk.countP (indents options placed)
  verbatim : ∀ placed ∈ tokens,
    isVerbatim options document placed = walk.any (keepsVerbatim options placed)

namespace Accounts

variable {document : Document} {depth : Nat} {walk later : List Node}
  {tokens others : List Placed} {node : Node}

/-- Fewer tokens are accounted for as well. -/
theorem mono (accounts : Accounts options document depth walk tokens) (fewer : others ⊆ tokens) :
    Accounts options document depth walk others :=
  ⟨fun placed member => accounts.depth placed (fewer member),
    fun placed member => accounts.verbatim placed (fewer member)⟩

/-- Nodes behind that hold other tokens do not count. -/
theorem dropRight (accounts : Accounts options document depth (walk ++ later) tokens)
    (lies : LiesIn others later) (apart : tokens.Disjoint others) :
    Accounts options document depth walk tokens := by
  constructor
  · intro placed member
    rw [accounts.depth placed member, List.countP_append, (lies.outside (apart member)).1,
      Nat.add_zero]
  · intro placed member
    rw [accounts.verbatim placed member, List.any_append, (lies.outside (apart member)).2,
      Bool.or_false]

/-- Nodes before that hold other tokens do not count. -/
theorem dropLeft (accounts : Accounts options document depth (walk ++ later) tokens)
    (lies : LiesIn others walk) (apart : tokens.Disjoint others) :
    Accounts options document depth later tokens := by
  constructor
  · intro placed member
    rw [accounts.depth placed member, List.countP_append, (lies.outside (apart member)).1,
      Nat.zero_add]
  · intro placed member
    rw [accounts.verbatim placed member, List.any_append, (lies.outside (apart member)).2,
      Bool.false_or]

/-- Tokens in two sequences of nodes. -/
theorem split (accounts : Accounts options document depth (walk ++ later) (tokens ++ others))
    (first : LiesIn tokens walk) (second : LiesIn others later)
    (distinct : (tokens ++ others).Nodup) :
    Accounts options document depth walk tokens ∧ Accounts options document depth later others := by
  have apart : tokens.Disjoint others := distinct.disjoint
  exact ⟨(accounts.mono (List.subset_append_left ..)).dropRight second apart,
    (accounts.mono (List.subset_append_right ..)).dropLeft first (List.disjoint_symm apart)⟩

/-- Tokens below a node that does not hold verbatim text. -/
theorem below (accounts : Accounts options document depth (node :: walk) tokens) (deeper : Bool)
    (inside : ∀ placed ∈ tokens, indents options placed node = deeper ∧
      keepsVerbatim options placed node = false) :
    Accounts options document (depth + deeper.toNat) walk tokens := by
  constructor
  · intro placed member
    rw [accounts.depth placed member, List.countP_cons, (inside placed member).1]
    cases deeper with
    | false => simp
    | true => simp [Nat.add_assoc, Nat.add_comm 1]
  · intro placed member
    rw [accounts.verbatim placed member, List.any_cons, (inside placed member).2, Bool.false_or]

end Accounts

/-- A node with some of its tokens inside, which may be deeper than the others, or verbatim. -/
structure Encloses (options : Options) (node : Node) (deeper verbatim : Bool)
    (inner : List Placed) : Prop where
  deep : ∀ placed, indents options placed node = (deeper && inner.contains placed)
  raw : ∀ placed, keepsVerbatim options placed node = (verbatim && inner.contains placed)

namespace Encloses

variable {document : Document} {depth : Nat} {node : Node} {deeper verbatim : Bool}
  {front inner back : List Placed} {before walk after : List Node}
  (encloses : Encloses options node deeper verbatim inner)
  (accounts : Accounts options document depth (node :: (before ++ walk ++ after))
    (front ++ inner ++ back))
  (first : LiesIn front before) (middle : LiesIn inner walk) (last : LiesIn back after)
  (distinct : (front ++ inner ++ back).Nodup)

include encloses accounts first middle last distinct

/-- The tokens around the inside stand as the node does. -/
theorem around :
    Accounts options document depth before front ∧ Accounts options document depth after back := by
  have parts := List.nodup_append'.mp distinct
  have outside : ∀ placed ∈ front ++ back, indents options placed node = false ∧
      keepsVerbatim options placed node = false := by
    intro placed member
    have apart : placed ∉ inner := by
      rcases List.mem_append.mp member with member | member
      · exact parts.1.disjoint member
      · exact fun inside => parts.2.2 (List.mem_append_right _ inside) member
    simp [encloses.deep, encloses.raw, apart]
  have own (tokens : List Placed) (listed : tokens ⊆ front ++ inner ++ back)
      (apart : tokens ⊆ front ++ back) :
      Accounts options document depth (before ++ walk ++ after) tokens :=
    (accounts.mono listed).below false fun placed member =>
      outside placed (apart member)
  have ahead := (own front (by simp) (by simp)).dropRight last
    fun placed inside => parts.2.2 (List.mem_append_left _ inside)
  have behind := (own back (by simp) (by simp)).dropLeft (first.append middle)
    fun placed inside among => parts.2.2 among inside
  exact ⟨ahead.dropRight middle parts.1.disjoint, behind⟩

omit middle in
/-- The tokens inside may stand deeper. -/
theorem within (plain : verbatim = false) :
    Accounts options document (depth + deeper.toNat) walk inner := by
  have parts := List.nodup_append'.mp distinct
  have own : Accounts options document (depth + deeper.toNat) (before ++ walk ++ after) inner :=
    (accounts.mono (by simp)).below deeper fun placed member => by
      simp [encloses.deep, encloses.raw, member, plain]
  have ahead := own.dropRight last fun placed inside => parts.2.2 (List.mem_append_right _ inside)
  exact ahead.dropLeft first (List.disjoint_symm parts.1.disjoint)

omit first middle last distinct in
/-- The tokens inside may be verbatim. -/
theorem kept (holds : verbatim = true) :
    ∀ placed ∈ inner, isVerbatim options document placed = true := by
  intro placed member
  rw [accounts.verbatim placed (by simp [member]), List.any_cons, encloses.raw, holds]
  simp [member]

end Encloses

variable {document : Document}

/-- An item for a token that no other node is around. -/
theorem Accounts.stands {depth : Nat} {tokens : List Placed}
    (accounts : Accounts options document depth [] tokens) {placed : Placed}
    (member : placed ∈ tokens) (key block : Option Text) :
    Item.Stands options document { token := placed.token, depth, key, block } placed where
  token := rfl
  verbatim := (accounts.verbatim placed member).symm
  depth _ := (accounts.depth placed member).symm

/-- A delimiter stands at the depth around. -/
theorem delimiterItems_stand {depth : Nat} {delimiter : Option Placed}
    (accounts : Accounts options document depth [] delimiter.toList) (block : Option Text) :
    List.Forall₂ (Item.Stands options document) (delimiterItems depth block delimiter)
      delimiter.toList := by
  cases delimiter with
  | none => exact .nil
  | some placed => exact .cons (accounts.stands (List.mem_singleton_self placed) _ _) .nil

/-- A verbatim body stands as it is kept. -/
theorem verbatimItems_stand {depth : Nat} {body : List Node}
    (kept : ∀ placed ∈ placedAll body, isVerbatim options document placed = true) :
    List.Forall₂ (Item.Stands options document) (verbatimItems depth body) (placedAll body) := by
  rw [verbatimItems, List.forall₂_map_left_iff]
  exact List.forall₂_same.mpr fun placed member =>
    ⟨rfl, (kept placed member).symm, Bool.noConfusion⟩

/-- A node between whose delimiters its children stand. -/
theorem Encloses.delimited {depth : Nat} {node : Node} {deeper : Bool} {children : List Node}
    {front back : List Placed} (encloses : Encloses options node deeper false (placedAll children))
    (accounts : Accounts options document depth (node :: walkAll children)
      (front ++ placedAll children ++ back))
    (distinct : (front ++ placedAll children ++ back).Nodup) :
    Accounts options document depth [] front ∧
      Accounts options document (depth + deeper.toNat) (walkAll children) (placedAll children) ∧
        Accounts options document depth [] back := by
  rw [← List.nil_append (walkAll children), ← List.append_nil ([] ++ _)] at accounts
  have places := encloses.around accounts (liesIn_nil _) (liesIn_walkAll children) (liesIn_nil _)
    distinct
  exact ⟨places.1, encloses.within accounts (liesIn_nil _) (liesIn_nil _) distinct rfl, places.2⟩

/-- A body is one level deeper unless its environment is not indented. -/
theorem bodyDepth_eq (depth : Nat) (name : Text) : bodyDepth options depth name =
    depth + (!options.unindentedEnvironments.contains name).toNat := by
  unfold bodyDepth
  cases options.unindentedEnvironments.contains name <;> rfl

/-- An environment encloses its body. -/
theorem encloses_environment (options : Options) (id : NodeId) (name : Text) (opening : Command)
    (body : List Node) (ending : Option Command) (matched : Bool) (span : Span) :
    Encloses options (.environment id name opening body ending matched span)
      (!options.unindentedEnvironments.contains name)
      (options.verbatimEnvironments.contains name) (placedAll body) :=
  ⟨fun _ => rfl, fun _ => rfl⟩

mutual

/-- The items of a node stand for its tokens, if they start at the right depth. -/
theorem nodeItems_stand (depth : Nat) (block : Option Text) : (node : Node) →
    (∀ below ∈ node.walk, below.isInclusion = false) → node.placed.Nodup →
      Accounts options document depth node.walk node.placed →
        List.Forall₂ (Item.Stands options document) (nodeItems options depth block node) node.placed
  | .leaf id placed, _, _, accounts => by
    have own := accounts.below false fun _ _ => ⟨rfl, rfl⟩
    exact .cons (own.stands (List.mem_singleton_self placed) _ _) .nil
  | .group id delimiter none children closer span, own, distinct, accounts => by
    have encloses : Encloses options (.group id delimiter none children closer span) false false
        (placedAll children) := ⟨fun _ => rfl, fun _ => rfl⟩
    obtain ⟨_, inside, last⟩ := encloses.delimited accounts distinct
    have distinct := (List.nodup_append'.mp distinct).1
    exact List.rel_append
      (nodesItems_stand depth block children (fun below member =>
        own below (List.mem_cons_of_mem _ member)) distinct inside)
      (delimiterItems_stand last _)
  | .group id delimiter (some opener) children closer span, own, distinct, accounts => by
    have encloses : Encloses options (.group id delimiter (some opener) children closer span) true
        false (placedAll children) := ⟨fun _ => rfl, fun _ => rfl⟩
    obtain ⟨first, inside, last⟩ := encloses.delimited accounts distinct
    have distinct := (List.nodup_append'.mp (List.nodup_append'.mp distinct).1).2.1
    exact .cons (first.stands (List.mem_singleton_self opener) _ _) (List.rel_append
      (nodesItems_stand (depth + 1) block children (fun below member =>
        own below (List.mem_cons_of_mem _ member)) distinct inside)
      (delimiterItems_stand last _))
  | .math id display opener children closer span, own, distinct, accounts => by
    have encloses : Encloses options (.math id display opener children closer span) true false
        (placedAll children) := ⟨fun _ => rfl, fun _ => rfl⟩
    rw [Node.placed, ← List.singleton_append] at accounts distinct
    obtain ⟨first, inside, last⟩ := encloses.delimited accounts distinct
    have distinct := (List.nodup_append'.mp (List.nodup_append'.mp distinct).1).2.1
    exact .cons (first.stands (List.mem_singleton_self opener) _ _) (List.rel_append
      (nodesItems_stand (depth + 1) block children (fun below member =>
        own below (List.mem_cons_of_mem _ member)) distinct inside)
      (delimiterItems_stand last _))
  | .command invocation, own, distinct, accounts => by
    rw [nodeItems]
    exact commandItems_stand depth block _ invocation own distinct accounts
  | .environment id name opening body none matched span, own, distinct, accounts => by
    have encloses := encloses_environment options id name opening body none matched span
    rw [Node.placed, ← List.append_nil (_ ++ _)] at accounts distinct ⊢
    rw [Node.walk, ← List.append_nil (_ :: _ ++ _)] at accounts
    have places := encloses.around accounts (liesIn_command opening) (liesIn_walkAll body)
      (liesIn_nil _) distinct
    have parts := List.nodup_append'.mp (List.nodup_append'.mp distinct).1
    rw [nodeItems, ← List.append_nil (_ ++ _)]
    refine List.rel_append (List.rel_append ?_ ?_) .nil
    · exact commandItems_stand depth block _ opening (fun below member =>
        own below (by simp [Node.walk, member])) parts.1 places.1
    · split
      · rename_i holds
        exact verbatimItems_stand (encloses.kept accounts holds)
      · rename_i plain
        have inside := encloses.within accounts (liesIn_command opening) (liesIn_nil _) distinct
          (eq_false_of_ne_true plain)
        rw [← bodyDepth_eq] at inside
        exact nodesItems_stand _ block body (fun below member =>
          own below (by simp [Node.walk, member])) parts.2.1 inside
  | .environment id name opening body (some ending) matched span, own, distinct, accounts => by
    have encloses := encloses_environment options id name opening body (some ending) matched span
    rw [Node.placed] at accounts distinct ⊢
    rw [Node.walk] at accounts
    have places := encloses.around accounts (liesIn_command opening) (liesIn_walkAll body)
      (liesIn_command ending) distinct
    have whole := List.nodup_append'.mp distinct
    have parts := List.nodup_append'.mp whole.1
    rw [nodeItems]
    refine List.rel_append (List.rel_append ?_ ?_) ?_
    · exact commandItems_stand depth block _ opening (fun below member =>
        own below (by simp [Node.walk, member])) parts.1 places.1
    · split
      · rename_i holds
        exact verbatimItems_stand (encloses.kept accounts holds)
      · rename_i plain
        have inside := encloses.within accounts (liesIn_command opening) (liesIn_command ending)
          distinct (eq_false_of_ne_true plain)
        rw [← bodyDepth_eq] at inside
        exact nodesItems_stand _ block body (fun below member =>
          own below (by simp [Node.walk, member])) parts.2.1 inside
    · exact commandItems_stand depth block _ ending (fun below member =>
        own below (by simp [Node.walk, member])) whole.2.1 places.2
  | .inclusion _ _ _ _ _ _, own, _, _ => by
    have := own _ List.mem_cons_self
    cases this

theorem commandItems_stand (depth : Nat) (block key : Option Text) : (invocation : Command) →
    (∀ below ∈ invocation.walk, below.isInclusion = false) → invocation.placed.Nodup →
      Accounts options document depth invocation.walk invocation.placed →
        List.Forall₂ (Item.Stands options document)
          (commandItems options depth block key invocation) invocation.placed
  | ⟨id, name, head, star, arguments, span⟩, own, distinct, accounts => by
    rw [Command.walk, Command.placed, ← List.nil_append (walkArguments arguments)] at accounts
    rw [Command.placed] at distinct
    have below := accounts.below false fun _ _ => ⟨rfl, rfl⟩
    have parts := below.split (liesIn_nil _) (liesIn_walkArguments arguments) distinct
    have inside := argumentsItems_stand depth (key <|> block) arguments (fun below member =>
      own below (List.mem_cons_of_mem _ member)) (List.nodup_append'.mp distinct).2.1 parts.2
    exact .cons (parts.1.stands List.mem_cons_self _ _) (List.rel_append
      (delimiterItems_stand (parts.1.mono (List.subset_cons_self ..)) _) inside)

/-- **The items of nodes** stand at their depths. -/
theorem nodesItems_stand (depth : Nat) (block : Option Text) : (nodes : List Node) →
    (∀ below ∈ walkAll nodes, below.isInclusion = false) → (placedAll nodes).Nodup →
      Accounts options document depth (walkAll nodes) (placedAll nodes) →
        List.Forall₂ (Item.Stands options document) (nodesItems options depth block nodes)
          (placedAll nodes)
  | [], _, _, _ => .nil
  | node :: rest, own, distinct, accounts => by
    have places := accounts.split (liesIn_walk node) (liesIn_walkAll rest) distinct
    have parts := List.nodup_append'.mp distinct
    exact List.rel_append
      (nodeItems_stand depth block node (fun below member =>
        own below (List.mem_append_left _ member)) parts.1 places.1)
      (nodesItems_stand depth block rest (fun below member =>
        own below (List.mem_append_right _ member)) parts.2.1 places.2)

theorem argumentsItems_stand (depth : Nat) (block : Option Text) : (arguments : List Argument) →
    (∀ below ∈ walkArguments arguments, below.isInclusion = false) →
      (placedArguments arguments).Nodup →
        Accounts options document depth (walkArguments arguments) (placedArguments arguments) →
          List.Forall₂ (Item.Stands options document) (argumentsItems options depth block arguments)
            (placedArguments arguments)
  | [], _, _, _ => .nil
  | ⟨kind, leading, content⟩ :: rest, own, distinct, accounts => by
    have whole := List.nodup_append'.mp distinct
    have parts := List.nodup_append'.mp whole.1
    have outer := accounts.split ((liesIn_walkAll leading).append (liesIn_walk content))
      (liesIn_walkArguments rest) distinct
    have inner := outer.1.split (liesIn_walkAll leading) (liesIn_walk content) whole.1
    have own : (∀ below ∈ walkAll leading, below.isInclusion = false) ∧
        (∀ below ∈ content.walk, below.isInclusion = false) ∧
          ∀ below ∈ walkArguments rest, below.isInclusion = false := by
      simpa [walkArguments, or_imp, forall_and] using own
    exact List.rel_append
      (List.rel_append (nodesItems_stand depth block leading own.1 parts.1 inner.1)
        (nodeItems_stand depth block content own.2.1 parts.2.1 inner.2))
      (argumentsItems_stand depth block rest own.2.2 whole.2.1 outer.2)

end

/-- **Where items stand.** The items of a layout stand for the tokens of the tree, one by one. -/
theorem items_stand (own : ∀ below ∈ document.walk, below.isInclusion = false)
    (distinct : document.root.placed.Nodup) :
    List.Forall₂ (Item.Stands options document) (nodeItems options 0 none document.root)
      document.root.placed :=
  nodeItems_stand 0 none document.root own distinct
    ⟨fun _ _ => (Nat.zero_add _).symm, fun _ _ => rfl⟩

/-- The items of a line and the tokens of a line of the source are related one by one. -/
structure Line.Relates (related : Item → Placed → Prop) (line : Line) (source : SourceLine) :
    Prop where
  items : List.Forall₂ related line.items source.content
  lineEnd : List.Forall₂ related line.lineEnd.toList source.lineEnd.toList

/-- A line of a layout stands for a line of the source. -/
abbrev Line.Stands (options : Options) (document : Document) : Line → SourceLine → Prop :=
  Line.Relates (Item.Stands options document)

/-- An item in front of the first line. -/
theorem linesFrom_concat (current : List Item) (item : Item) (rest : List Item) :
    linesFrom (current ++ [item]) rest =
      match linesFrom current rest with
      | [] => [⟨[item], none⟩]
      | line :: later => ⟨item :: line.items, line.lineEnd⟩ :: later := by
  induction rest generalizing current with
  | nil => cases current <;> simp [linesFrom]
  | cons next rest ih =>
    rw [linesFrom, linesFrom]
    split
    · simp
    · exact ih (next :: current)

/-- Where items are related to tokens of the same text, their lines are related. -/
theorem linesFrom_relate {related : Item → Placed → Prop}
    (same : ∀ {item placed}, related item placed → item.token = placed.token) {items : List Item}
    {tokens : List Placed} (relate : List.Forall₂ related items tokens) :
    List.Forall₂ (Line.Relates related) (linesFrom [] items) (sourceLines tokens) := by
  induction relate with
  | nil => exact .nil
  | @cons item placed items tokens first _ ih =>
    rw [linesFrom, sourceLines, same first]
    split
    · exact .cons ⟨.nil, .cons first .nil⟩ ih
    · rw [← List.nil_append [item], linesFrom_concat]
      generalize linesFrom [] items = lines at ih
      generalize sourceLines tokens = sources at ih
      cases ih with
      | nil => exact .cons ⟨.cons first .nil, .nil⟩ .nil
      | cons line later => exact .cons ⟨.cons first line.items, line.lineEnd⟩ later

/-- The lines of a source hold all its tokens. -/
theorem flatMap_sourceLines (tokens : List Placed) :
    (sourceLines tokens).flatMap SourceLine.placed = tokens := by
  induction tokens with
  | nil => rfl
  | cons placed rest ih =>
    rw [sourceLines]
    split
    · rw [List.flatMap_cons, ih]
      rfl
    · generalize sourceLines rest = lines at ih
      cases lines with
      | nil => simp [← ih, SourceLine.placed]
      | cons line later => simp [← ih, SourceLine.placed]

/-- No line of a source is empty. -/
theorem placed_ne_nil_of_mem_sourceLines (tokens : List Placed) :
    ∀ line ∈ sourceLines tokens, line.placed ≠ [] := by
  induction tokens with
  | nil => exact List.forall_mem_nil _
  | cons placed rest ih =>
    rw [sourceLines]
    split
    · exact List.forall_mem_cons.mpr ⟨by simp [SourceLine.placed], ih⟩
    · generalize sourceLines rest = lines at ih
      cases lines with
      | nil => simp [SourceLine.placed]
      | cons line later =>
        exact List.forall_mem_cons.mpr ⟨by simp [SourceLine.placed], (List.forall_mem_cons.mp ih).2⟩

end Layout

namespace Document

variable {source : Text} {table : Catcode.Table} {commands : CommandTable} {fileId : FileId}
  {document : Document}

/-- The lines of the source of a document. -/
def sourceLines (document : Document) : List Layout.SourceLine :=
  Layout.sourceLines document.root.placed

/-- A parsed document has every token once, and it includes no other one. -/
theorem distinct_of_parse (parsed : parse source table commands fileId = .ok document) :
    document.root.placed.Nodup ∧ ∀ below ∈ document.walk, below.isInclusion = false := by
  refine ⟨?_, own_of_parse parsed⟩
  obtain ⟨tokens, reports, diagnostics, read, rfl⟩ := Expansion.document_of_parse parsed
  obtain ⟨children, others, derived⟩ := derived_ofTokens tokens source fileId commands
  exact List.Nodup.of_map Placed.index derived.indices

/-- The lines of the source have its text. -/
theorem rawText_sourceLines (parsed : parse source table commands fileId = .ok document) :
    Token.rawText ((document.sourceLines.flatMap Layout.SourceLine.placed).map Placed.token) =
      source := by
  rw [sourceLines, Layout.flatMap_sourceLines]
  obtain ⟨tokens, reports, diagnostics, read, rfl⟩ := Expansion.document_of_parse parsed
  obtain ⟨tiles, last⟩ := tiles_contentOf_of_lex read
  exact (laidAlong_of_tiles tiles last commands).whole.symm

/-- The lines of a layout stand for the lines of the source, one by one. -/
theorem lines_stand (parsed : parse source table commands fileId = .ok document)
    (options : Layout.Options) :
    List.Forall₂ (Layout.Line.Stands options document) (Layout.lines options document)
      document.sourceLines :=
  have ⟨distinct, own⟩ := distinct_of_parse parsed
  Layout.linesFrom_relate Layout.Item.Stands.token (Layout.items_stand own distinct)

end Document

end TexSource
