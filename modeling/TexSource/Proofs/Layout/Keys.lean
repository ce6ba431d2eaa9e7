import TexSource.Proofs.Layout.Standing

/-!
# Major commands around a token

The key of a token is the name of the innermost major command that it belongs to
(`Layout.keyOf`). It is looked up among the commands of the whole tree; the items of a layout, which
hand the last key down the tree, have the same keys (`Layout.items_keyed`).
-/

namespace TexSource

mutual

/-- The commands under a node, every one before those in it, with the names that can make them
major. The `\begin` and the `\end` of an environment go by its name. -/
def Node.titles : Node → List (Text × Command)
  | .leaf _ _ => []
  | .group _ _ _ children _ _ => titlesAll children
  | .math _ _ _ children _ _ => titlesAll children
  | .command invocation => invocation.titles invocation.name
  | .environment _ name opening body none _ _ =>
    opening.titles ("begin" ++ Problem.braced name) ++ titlesAll body
  | .environment _ name opening body (some ending) _ _ =>
    opening.titles ("begin" ++ Problem.braced name) ++ titlesAll body ++
      ending.titles ("end" ++ Problem.braced name)
  | .inclusion _ _ _ _ _ _ => []

/-- The commands with their names in a command. -/
def Command.titles (name : Text) : Command → List (Text × Command)
  | ⟨id, word, head, star, arguments, span⟩ =>
    (name, ⟨id, word, head, star, arguments, span⟩) :: titlesArguments arguments

/-- The commands with their names in nodes. -/
def titlesAll : List Node → List (Text × Command)
  | [] => []
  | node :: rest => node.titles ++ titlesAll rest

/-- The commands with their names in arguments. -/
def titlesArguments : List Argument → List (Text × Command)
  | [] => []
  | ⟨_, leading, content⟩ :: rest => titlesAll leading ++ content.titles ++ titlesArguments rest

end

namespace Layout

variable (options : Options)

/-- The last major command among some that a token belongs to. -/
def majorOf (placed : Placed) (titles : List (Text × Command)) : Option Text :=
  ((titles.filter (·.2.placed.contains placed)).filterMap (majorKey? options ·.1)).getLast?

/-- The innermost major command of a document that a token belongs to. -/
def keyOf (document : Document) (placed : Placed) : Option Text :=
  majorOf options placed document.root.titles

/-- The key of an item is that of a token. -/
def Item.Keyed (document : Document) (item : Item) (placed : Placed) : Prop :=
  item.verbatim = false → (item.key <|> item.block) = keyOf options document placed

variable {options}

/-- The later title of a token wins. -/
theorem majorOf_append (placed : Placed) (titles others : List (Text × Command)) :
    majorOf options placed (titles ++ others) =
      (majorOf options placed others).or (majorOf options placed titles) := by
  simp [majorOf, List.getLast?_append]

/-- A title behind the first one wins over it. -/
theorem majorOf_cons {placed : Placed} {invocation : Command} (name : Text)
    (inside : placed ∈ invocation.placed) (titles : List (Text × Command)) :
    majorOf options placed ((name, invocation) :: titles) =
      (majorOf options placed titles).or (majorKey? options name) := by
  rw [← List.singleton_append, majorOf_append]
  congr 1
  cases key : majorKey? options name <;> simp [majorOf, inside, key]

/-- All of some commands consist of given tokens. -/
def TitlesIn (tokens : List Placed) (titles : List (Text × Command)) : Prop :=
  ∀ title ∈ titles, title.2.placed ⊆ tokens

/-- Titles among fewer tokens are among more. -/
theorem TitlesIn.mono {tokens others : List Placed} {titles : List (Text × Command)}
    (inside : TitlesIn tokens titles) (more : tokens ⊆ others) : TitlesIn others titles :=
  fun title member => List.Subset.trans (inside title member) more

/-- Titles of both parts are among the tokens of both. -/
theorem TitlesIn.append {tokens others : List Placed} {titles later : List (Text × Command)}
    (first : TitlesIn tokens titles) (second : TitlesIn others later) :
    TitlesIn (tokens ++ others) (titles ++ later) :=
  List.forall_mem_append.mpr
    ⟨first.mono (List.subset_append_left ..), second.mono (List.subset_append_right ..)⟩

/-- A token outside has no title. -/
theorem TitlesIn.majorOf {tokens : List Placed} {titles : List (Text × Command)}
    (inside : TitlesIn tokens titles) {placed : Placed} (apart : placed ∉ tokens) :
    majorOf options placed titles = none := by
  have none : titles.filter (·.2.placed.contains placed) = [] :=
    List.filter_eq_nil_iff.mpr fun title member within =>
      apart (inside title member (List.contains_iff_mem.mp within))
  rw [Layout.majorOf, none]
  rfl

mutual

/-- The titles in a node are of its own tokens. -/
theorem titlesIn_node : (node : Node) → TitlesIn node.placed node.titles
  | .leaf _ _ => List.forall_mem_nil _
  | .group _ _ opener children closer _ =>
    (titlesIn_all children).mono (by simp [Node.placed])
  | .math _ _ opener children closer _ =>
    (titlesIn_all children).mono (by simp [Node.placed])
  | .command invocation => titlesIn_command invocation.name invocation
  | .environment _ name opening body none _ _ =>
    (titlesIn_command _ opening).append (titlesIn_all body)
  | .environment _ name opening body (some ending) _ _ =>
    ((titlesIn_command _ opening).append (titlesIn_all body)).append (titlesIn_command _ ending)
  | .inclusion _ _ _ _ _ _ => List.forall_mem_nil _

theorem titlesIn_command (name : Text) :
    (invocation : Command) → TitlesIn invocation.placed (invocation.titles name)
  | ⟨_, _, head, star, arguments, _⟩ =>
    List.forall_mem_cons.mpr ⟨List.Subset.refl _,
      (titlesIn_arguments arguments).mono (by simp [Command.placed])⟩

theorem titlesIn_all : (nodes : List Node) → TitlesIn (placedAll nodes) (titlesAll nodes)
  | [] => List.forall_mem_nil _
  | node :: rest => (titlesIn_node node).append (titlesIn_all rest)

theorem titlesIn_arguments : (arguments : List Argument) →
    TitlesIn (placedArguments arguments) (titlesArguments arguments)
  | [] => List.forall_mem_nil _
  | ⟨_, leading, content⟩ :: rest =>
    ((titlesIn_all leading).append (titlesIn_node content)).append (titlesIn_arguments rest)

end

/-- The key of tokens is looked up among given commands, and where these have none it is a given
one. -/
def Inherit (options : Options) (document : Document) (block : Option Text)
    (titles : List (Text × Command)) (tokens : List Placed) : Prop :=
  ∀ placed ∈ tokens, keyOf options document placed = (majorOf options placed titles).or block

namespace Inherit

variable {document : Document} {block : Option Text} {titles later : List (Text × Command)}
  {tokens others : List Placed}

/-- Fewer tokens inherit no more. -/
theorem mono (inherit : Inherit options document block titles tokens) (fewer : others ⊆ tokens) :
    Inherit options document block titles others :=
  fun placed member => inherit placed (fewer member)

/-- Tokens that none of the commands is around have the given key. -/
theorem alone (inherit : Inherit options document block titles tokens)
    (inside : TitlesIn others titles) (apart : tokens.Disjoint others) :
    Inherit options document block [] tokens := by
  intro placed member
  rw [inherit placed member, inside.majorOf (apart member)]
  rfl

/-- Tokens in two sequences of nodes. -/
theorem split (inherit : Inherit options document block (titles ++ later) (tokens ++ others))
    (first : TitlesIn tokens titles) (second : TitlesIn others later)
    (distinct : (tokens ++ others).Nodup) :
    Inherit options document block titles tokens ∧ Inherit options document block later others := by
  have apart : tokens.Disjoint others := distinct.disjoint
  constructor <;> intro placed member
  · rw [inherit placed (List.mem_append_left _ member), majorOf_append,
      second.majorOf (apart member), Option.none_or]
  · rw [inherit placed (List.mem_append_right _ member), majorOf_append,
      first.majorOf (List.disjoint_symm apart member), Option.or_none]

/-- In a command, its own key goes before the given one. -/
theorem command {name : Text} {invocation : Command}
    (inherit : Inherit options document block ((name, invocation) :: titles) tokens)
    (inside : tokens ⊆ invocation.placed) :
    Inherit options document (majorKey? options name <|> block) titles tokens := by
  intro placed member
  rw [inherit placed member, majorOf_cons name (inside member), Option.or_assoc]
  cases majorKey? options name <;> rfl

/-- An item whose key is the block's is keyed as the document says. -/
theorem keyed (inherit : Inherit options document block [] tokens) {placed : Placed}
    (member : placed ∈ tokens) {item : Item} (key : (item.key <|> item.block) = block) :
    Item.Keyed options document item placed :=
  fun _ => key.trans (inherit placed member).symm

theorem delimiterItems_keyed {delimiter : Option Placed}
    (inherit : Inherit options document block [] delimiter.toList) (depth : Nat) :
    List.Forall₂ (Item.Keyed options document) (delimiterItems depth block delimiter)
      delimiter.toList := by
  cases delimiter with
  | none => exact .nil
  | some placed => exact .cons (inherit.keyed (List.mem_singleton_self placed) rfl) .nil

/-- The delimiters around nodes have the given key. -/
theorem delimited {children : List Node} {front back : List Placed}
    (inherit : Inherit options document block (titlesAll children)
      (front ++ placedAll children ++ back))
    (distinct : (front ++ placedAll children ++ back).Nodup) :
    Inherit options document block [] front ∧
      Inherit options document block (titlesAll children) (placedAll children) ∧
        Inherit options document block [] back := by
  obtain ⟨inner, -, apart⟩ := List.nodup_append'.mp distinct
  have inside := titlesIn_all children
  refine ⟨(inherit.mono (by simp)).alone inside inner.disjoint, inherit.mono (by simp),
    (inherit.mono (by simp)).alone inside fun placed last within => ?_⟩
  exact apart (List.mem_append_right _ within) last

end Inherit

variable {document : Document}

theorem verbatimItems_keyed (depth : Nat) (body : List Node) :
    List.Forall₂ (Item.Keyed options document) (verbatimItems depth body) (placedAll body) := by
  rw [verbatimItems, List.forall₂_map_left_iff]
  exact List.forall₂_same.mpr fun placed _ plain => nomatch plain

mutual

/-- The keys of the items of a node are those of its tokens, if the given key is. -/
theorem nodeItems_keyed (depth : Nat) (block : Option Text) : (node : Node) →
    (∀ below ∈ node.walk, below.isInclusion = false) → node.placed.Nodup →
      Inherit options document block node.titles node.placed →
        List.Forall₂ (Item.Keyed options document) (nodeItems options depth block node) node.placed
  | .leaf id placed, _, _, inherit =>
    .cons (inherit.keyed (List.mem_singleton_self placed) rfl) .nil
  | .group id delimiter none children closer span, own, distinct, inherit => by
    obtain ⟨_, inside, last⟩ := inherit.delimited distinct
    have distinct := (List.nodup_append'.mp distinct).1
    exact List.rel_append
      (nodesItems_keyed depth block children (fun below member =>
        own below (List.mem_cons_of_mem _ member)) distinct inside)
      (last.delimiterItems_keyed depth)
  | .group id delimiter (some opener) children closer span, own, distinct, inherit => by
    obtain ⟨first, inside, last⟩ := inherit.delimited distinct
    have distinct := (List.nodup_append'.mp (List.nodup_append'.mp distinct).1).2.1
    exact .cons (first.keyed (List.mem_singleton_self opener) rfl) (List.rel_append
      (nodesItems_keyed (depth + 1) block children (fun below member =>
        own below (List.mem_cons_of_mem _ member)) distinct inside)
      (last.delimiterItems_keyed depth))
  | .math id display opener children closer span, own, distinct, inherit => by
    rw [Node.placed, ← List.singleton_append] at inherit distinct
    obtain ⟨first, inside, last⟩ := inherit.delimited distinct
    have distinct := (List.nodup_append'.mp (List.nodup_append'.mp distinct).1).2.1
    exact .cons (first.keyed (List.mem_singleton_self opener) rfl) (List.rel_append
      (nodesItems_keyed (depth + 1) block children (fun below member =>
        own below (List.mem_cons_of_mem _ member)) distinct inside)
      (last.delimiterItems_keyed depth))
  | .command invocation, own, distinct, inherit => by
    rw [nodeItems]
    exact commandItems_keyed depth block _ invocation own distinct inherit
  | .environment id name opening body none matched span, own, distinct, inherit => by
    rw [Node.placed] at inherit distinct ⊢
    obtain ⟨head, inside⟩ := inherit.split (titlesIn_command _ opening) (titlesIn_all body) distinct
    have parts := List.nodup_append'.mp distinct
    rw [nodeItems]
    refine List.rel_append ?_ ?_
    · exact commandItems_keyed depth block _ opening (fun below member =>
        own below (by simp [Node.walk, member])) parts.1 head
    · split
      · exact verbatimItems_keyed _ body
      · exact nodesItems_keyed _ block body (fun below member =>
          own below (by simp [Node.walk, member])) parts.2.1 inside
  | .environment id name opening body (some ending) matched span, own, distinct, inherit => by
    rw [Node.placed] at inherit distinct ⊢
    obtain ⟨front, foot⟩ := inherit.split
      ((titlesIn_command _ opening).append (titlesIn_all body)) (titlesIn_command _ ending) distinct
    have whole := List.nodup_append'.mp distinct
    obtain ⟨head, inside⟩ := front.split (titlesIn_command _ opening) (titlesIn_all body) whole.1
    have parts := List.nodup_append'.mp whole.1
    rw [nodeItems]
    refine List.rel_append (List.rel_append ?_ ?_) ?_
    · exact commandItems_keyed depth block _ opening (fun below member =>
        own below (by simp [Node.walk, member])) parts.1 head
    · split
      · exact verbatimItems_keyed _ body
      · exact nodesItems_keyed _ block body (fun below member =>
          own below (by simp [Node.walk, member])) parts.2.1 inside
    · exact commandItems_keyed depth block _ ending (fun below member =>
        own below (by simp [Node.walk, member])) whole.2.1 foot
  | .inclusion _ _ _ _ _ _, own, _, _ => by
    have := own _ List.mem_cons_self
    cases this

theorem commandItems_keyed (depth : Nat) (block : Option Text) (name : Text) :
    (invocation : Command) → (∀ below ∈ invocation.walk, below.isInclusion = false) →
      invocation.placed.Nodup →
        Inherit options document block (invocation.titles name) invocation.placed →
          List.Forall₂ (Item.Keyed options document)
            (commandItems options depth block (majorKey? options name) invocation)
            invocation.placed
  | ⟨id, word, head, star, arguments, span⟩, own, distinct, inherit => by
    have inherit := inherit.command (List.Subset.refl _)
    rw [Command.placed] at inherit distinct
    rw [← List.nil_append (titlesArguments arguments)] at inherit
    obtain ⟨front, inside⟩ := inherit.split (List.forall_mem_nil _) (titlesIn_arguments arguments)
      distinct
    refine .cons (front.keyed List.mem_cons_self ?_) (List.rel_append
      ((front.mono (List.subset_cons_self ..)).delimiterItems_keyed depth)
      (argumentsItems_keyed depth _ arguments (fun below member =>
        own below (List.mem_cons_of_mem _ member)) (List.nodup_append'.mp distinct).2.1 inside))
    cases majorKey? options name <;> rfl

/-- **The items of nodes** are keyed as the document says. -/
theorem nodesItems_keyed (depth : Nat) (block : Option Text) : (nodes : List Node) →
    (∀ below ∈ walkAll nodes, below.isInclusion = false) → (placedAll nodes).Nodup →
      Inherit options document block (titlesAll nodes) (placedAll nodes) →
        List.Forall₂ (Item.Keyed options document) (nodesItems options depth block nodes)
          (placedAll nodes)
  | [], _, _, _ => .nil
  | node :: rest, own, distinct, inherit => by
    obtain ⟨first, later⟩ := inherit.split (titlesIn_node node) (titlesIn_all rest) distinct
    have parts := List.nodup_append'.mp distinct
    exact List.rel_append
      (nodeItems_keyed depth block node (fun below member =>
        own below (List.mem_append_left _ member)) parts.1 first)
      (nodesItems_keyed depth block rest (fun below member =>
        own below (List.mem_append_right _ member)) parts.2.1 later)

theorem argumentsItems_keyed (depth : Nat) (block : Option Text) : (arguments : List Argument) →
    (∀ below ∈ walkArguments arguments, below.isInclusion = false) →
      (placedArguments arguments).Nodup →
        Inherit options document block (titlesArguments arguments) (placedArguments arguments) →
          List.Forall₂ (Item.Keyed options document)
            (argumentsItems options depth block arguments) (placedArguments arguments)
  | [], _, _, _ => .nil
  | ⟨kind, leading, content⟩ :: rest, own, distinct, inherit => by
    have whole := List.nodup_append'.mp distinct
    have parts := List.nodup_append'.mp whole.1
    have around := (titlesIn_all leading).append (titlesIn_node content)
    obtain ⟨front, later⟩ := inherit.split around (titlesIn_arguments rest) distinct
    obtain ⟨blanks, inside⟩ := front.split (titlesIn_all leading) (titlesIn_node content) whole.1
    have own : (∀ below ∈ walkAll leading, below.isInclusion = false) ∧
        (∀ below ∈ content.walk, below.isInclusion = false) ∧
          ∀ below ∈ walkArguments rest, below.isInclusion = false := by
      simpa [walkArguments, or_imp, forall_and] using own
    exact List.rel_append
      (List.rel_append (nodesItems_keyed depth block leading own.1 parts.1 blanks)
        (nodeItems_keyed depth block content own.2.1 parts.2.1 inside))
      (argumentsItems_keyed depth block rest own.2.2 whole.2.1 later)

end

/-- **Keys of items.** The items of a layout have the keys of the tokens of the tree, one by one. -/
theorem items_keyed (own : ∀ below ∈ document.walk, below.isInclusion = false)
    (distinct : document.root.placed.Nodup) :
    List.Forall₂ (Item.Keyed options document) (nodeItems options 0 none document.root)
      document.root.placed :=
  nodeItems_keyed 0 none document.root own distinct fun _ _ => Option.or_none.symm

end Layout

end TexSource
