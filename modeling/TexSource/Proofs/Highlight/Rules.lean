import TexSource.Highlight
import TexSource.Proofs.Document.Productions
import TexSource.Proofs.Spans

/-!
# Which category prevails

A token may have several categories at once: as a character that must not stand in a text, as
a comment, and by the nodes that it lies under (`Highlight.Grants`). One of them prevails: it is
the strongest, and the name of an environment goes before the commands in it
(`Highlight.Prevails`). The marks of a document follow the nodes under it, those in the names of
environments apart: there the tokens are marked without regard to what they are part of
(`Node.visited`, `Node.visited_or_named`).
-/

namespace TexSource

/-- Whether a token is a character that must not stand in a text. -/
def Token.isInvalid (token : Token) : Bool :=
  match token.kind with
  | .character _ .invalid => true
  | _ => false

theorem Token.isInvalid_of_isComment {token : Token} (comment : token.isComment = true) :
    token.isInvalid = false := by
  unfold isComment at comment
  unfold isInvalid
  split
  · rename_i kind
    simp [kind] at comment
  · rfl

/-- The nodes between the braces of the name of a `\begin` or an `\end`. -/
def Command.nameContent (invocation : Command) : List Node :=
  match invocation.arguments with
  | ⟨_, _, .group _ _ _ children _ _⟩ :: _ => children
  | _ => []

/-- The nodes in the name of an environment, at its start and at its end. -/
def Node.nameContent : Node → List Node
  | .environment _ _ opening _ none _ _ => opening.nameContent
  | .environment _ _ opening _ (some ending) _ _ => opening.nameContent ++ ending.nameContent
  | _ => []

/-- The nodes in the name of an environment are of its command. -/
theorem Command.nameContent_subset (invocation : Command) :
    placedAll invocation.nameContent ⊆ invocation.placed := by
  obtain ⟨id, name, head, star, arguments, span⟩ := invocation
  intro placed member
  unfold nameContent at member
  split at member
  · rename_i same
    cases same
    simp [Command.placed, placedArguments, Node.placed, member]
  · cases member

/-- The nodes in a name group are of the group. -/
theorem Node.nameContent_subset (node : Node) : placedAll node.nameContent ⊆ node.placed := by
  intro placed member
  unfold nameContent at member
  split at member
  · simp [Node.placed, Command.nameContent_subset _ member]
  · rw [placedAll_append, List.mem_append] at member
    rcases member with member | member
    · simp [Node.placed, Command.nameContent_subset _ member]
    · simp [Node.placed, Command.nameContent_subset _ member]
  · cases member

mutual

/-- The nodes under a node without those in the names of environments. -/
def Node.visited : Node → List Node
  | .leaf id token => [.leaf id token]
  | .group id delimiter opener children closer span =>
    .group id delimiter opener children closer span :: visitedAll children
  | .math id display opener children closer span =>
    .math id display opener children closer span :: visitedAll children
  | .command invocation => invocation.visited
  | .environment id name opening body none matched span =>
    .environment id name opening body none matched span ::
      opening.visitedHeading ++ visitedAll body
  | .environment id name opening body (some ending) matched span =>
    .environment id name opening body (some ending) matched span ::
      opening.visitedHeading ++ visitedAll body ++ ending.visitedHeading
  | .inclusion id directive fileId path document span =>
    .inclusion id directive fileId path document span :: directive.visited

/-- The nodes that marking a command visits. -/
def Command.visited : Command → List Node
  | ⟨id, name, head, star, arguments, span⟩ =>
    .command ⟨id, name, head, star, arguments, span⟩ :: visitedArguments arguments

/-- The nodes under a `\begin` or an `\end` without those in its name. -/
def Command.visitedHeading : Command → List Node
  | ⟨id, name, head, star,
      ⟨kind, leading, .group nameId delimiter opener children closer around⟩ :: rest, span⟩ =>
    .command ⟨id, name, head, star,
      ⟨kind, leading, .group nameId delimiter opener children closer around⟩ :: rest, span⟩ ::
      visitedAll leading ++ .group nameId delimiter opener children closer around ::
        visitedArguments rest
  | ⟨id, name, head, star, arguments, span⟩ =>
    .command ⟨id, name, head, star, arguments, span⟩ :: visitedArguments arguments

/-- The nodes that marking nodes visits. -/
def visitedAll : List Node → List Node
  | [] => []
  | node :: rest => node.visited ++ visitedAll rest

/-- The nodes that marking arguments visits. -/
def visitedArguments : List Argument → List Node
  | [] => []
  | ⟨_, leading, content⟩ :: rest =>
    visitedAll leading ++ content.visited ++ visitedArguments rest

end

/-- A node is reached by visited ones: it is one of them, or stands in a name of one of them. -/
def Reaches (visited : List Node) (below : Node) : Prop :=
  below ∈ visited ∨ ∃ around ∈ visited, below ∈ walkAll around.nameContent

/-- With more nodes visited, no fewer are reached. -/
theorem Reaches.mono {visited others : List Node} {below : Node} (reaches : Reaches visited below)
    (more : visited ⊆ others) : Reaches others below := by
  rcases reaches with member | ⟨around, member, named⟩
  · exact .inl (more member)
  · exact .inr ⟨around, more member, named⟩

mutual

/-- Of the nodes under a node, those that are not visited stand in the name of an
environment that is. -/
theorem Node.reaches : (node : Node) → ∀ below ∈ node.walk, Reaches node.visited below
  | .leaf _ _, _, member => .inl member
  | .group id delimiter opener children closer span, below, member => by
    rw [Node.walk, List.mem_cons] at member
    rcases member with rfl | member
    · exact .inl List.mem_cons_self
    · exact (reaches_visitedAll children below member).mono (List.subset_cons_self _ _)
  | .math id display opener children closer span, below, member => by
    rw [Node.walk, List.mem_cons] at member
    rcases member with rfl | member
    · exact .inl List.mem_cons_self
    · exact (reaches_visitedAll children below member).mono (List.subset_cons_self _ _)
  | .command invocation, below, member => Command.reaches invocation below member
  | .environment id name opening body none matched span, below, member => by
    have heading := Command.reaches_heading opening below
    have inside := reaches_visitedAll body below
    rw [Node.walk, List.cons_append, List.mem_cons, List.mem_append] at member
    rw [Node.visited]
    rcases member with rfl | member | member
    · exact .inl List.mem_cons_self
    · rcases heading member with named | reached
      · exact .inr ⟨_, List.mem_cons_self, named⟩
      · exact reached.mono fun _ visited => by simp [visited]
    · exact (inside member).mono fun _ visited => by simp [visited]
  | .environment id name opening body (some ending) matched span, below, member => by
    have heading := Command.reaches_heading opening below
    have inside := reaches_visitedAll body below
    have last := Command.reaches_heading ending below
    rw [Node.walk, List.mem_append, List.cons_append, List.mem_cons, List.mem_append] at member
    rw [Node.visited]
    rcases member with (rfl | member | member) | member
    · exact .inl (by simp)
    · rcases heading member with named | reached
      · exact .inr ⟨_, List.mem_append_left _ (List.mem_append_left _ List.mem_cons_self),
          by simp [Node.nameContent, named]⟩
      · exact reached.mono fun _ visited => by simp [visited]
    · exact (inside member).mono fun _ visited => by simp [visited]
    · rcases last member with named | reached
      · exact .inr ⟨_, List.mem_append_left _ (List.mem_append_left _ List.mem_cons_self),
          by simp [Node.nameContent, named]⟩
      · exact reached.mono fun _ visited => by simp [visited]
  | .inclusion id directive fileId path document span, below, member => by
    rw [Node.walk, List.mem_cons] at member
    rcases member with rfl | member
    · exact .inl List.mem_cons_self
    · exact (Command.reaches directive below member).mono (List.subset_cons_self _ _)

/-- Marking a command reaches all nodes under it. -/
theorem Command.reaches : (invocation : Command) → ∀ below ∈ invocation.walk,
    Reaches invocation.visited below
  | ⟨id, name, head, star, arguments, span⟩, below, member => by
    rw [Command.walk, List.mem_cons] at member
    rcases member with rfl | member
    · exact .inl List.mem_cons_self
    · exact (reaches_visitedArguments arguments below member).mono (List.subset_cons_self _ _)

/-- A heading is reached except for the name in it. -/
theorem Command.reaches_heading : (invocation : Command) → ∀ below ∈ invocation.walk,
    below ∈ walkAll invocation.nameContent ∨ Reaches invocation.visitedHeading below
  | ⟨id, name, head, star, [], span⟩, below, member => .inr (.inl member)
  | ⟨id, name, head, star, ⟨kind, leading, content⟩ :: rest, span⟩, below, member => by
    have before := reaches_visitedAll leading below
    have inside := Node.reaches content below
    have later := reaches_visitedArguments rest below
    rw [Command.walk, List.mem_cons, walkArguments, List.mem_append, List.mem_append] at member
    cases content with
    | group nameId delimiter opener children closer around =>
      rw [Command.visitedHeading]
      rcases member with rfl | (member | member) | member
      · exact .inr (.inl (by simp))
      · exact .inr ((before member).mono fun _ visited => by simp [visited])
      · rw [Node.walk, List.mem_cons] at member
        rcases member with rfl | member
        · exact .inr (.inl (by simp))
        · exact .inl member
      · exact .inr ((later member).mono fun _ visited => by simp [visited])
    | _ =>
      right
      simp only [Command.visitedHeading, visitedArguments]
      rcases member with rfl | (member | member) | member
      · exact .inl List.mem_cons_self
      · exact (before member).mono fun _ visited => by simp [visited]
      · exact (inside member).mono fun _ visited => by simp [visited]
      · exact (later member).mono fun _ visited => by simp [visited]

theorem reaches_visitedAll : (nodes : List Node) → ∀ below ∈ walkAll nodes,
    Reaches (visitedAll nodes) below
  | [], _, member => nomatch member
  | node :: rest, below, member => by
    rw [walkAll_cons, List.mem_append] at member
    rcases member with member | member
    · exact (Node.reaches node below member).mono (List.subset_append_left _ _)
    · exact (reaches_visitedAll rest below member).mono (List.subset_append_right _ _)

theorem reaches_visitedArguments : (arguments : List Argument) →
    ∀ below ∈ walkArguments arguments, Reaches (visitedArguments arguments) below
  | [], _, member => nomatch member
  | ⟨kind, leading, content⟩ :: rest, below, member => by
    rw [walkArguments, List.mem_append, List.mem_append] at member
    rw [visitedArguments]
    rcases member with (member | member) | member
    · exact (reaches_visitedAll leading below member).mono fun _ visited => by simp [visited]
    · exact (Node.reaches content below member).mono fun _ visited => by simp [visited]
    · exact (reaches_visitedArguments rest below member).mono fun _ visited => by simp [visited]

end

mutual

/-- Nodes are visited in the order of the walk, each once at most. -/
theorem Node.visited_sublist_walk : (node : Node) → node.visited.Sublist node.walk
  | .leaf _ _ => List.Sublist.refl _
  | .group _ _ _ children _ _ => .cons_cons _ (visitedAll_sublist_walkAll children)
  | .math _ _ _ children _ _ => .cons_cons _ (visitedAll_sublist_walkAll children)
  | .command invocation => Command.visited_sublist_walk invocation
  | .environment _ _ opening body none _ _ =>
    .append (.cons_cons _ (Command.visitedHeading_sublist_walk opening))
      (visitedAll_sublist_walkAll body)
  | .environment _ _ opening body (some ending) _ _ =>
    .append (.append (.cons_cons _ (Command.visitedHeading_sublist_walk opening))
      (visitedAll_sublist_walkAll body)) (Command.visitedHeading_sublist_walk ending)
  | .inclusion _ directive _ _ _ _ =>
    .cons_cons _ (Command.visited_sublist_walk directive)

theorem Command.visited_sublist_walk : (invocation : Command) →
    invocation.visited.Sublist invocation.walk
  | ⟨_, _, _, _, arguments, _⟩ =>
    .cons_cons _ (visitedArguments_sublist_walkArguments arguments)

theorem Command.visitedHeading_sublist_walk : (invocation : Command) →
    invocation.visitedHeading.Sublist invocation.walk
  | ⟨_, _, _, _, [], _⟩ => List.Sublist.refl _
  | ⟨_, _, _, _, ⟨_, leading, content⟩ :: rest, _⟩ => by
    have before := visitedAll_sublist_walkAll leading
    have inside := Node.visited_sublist_walk content
    have later := visitedArguments_sublist_walkArguments rest
    cases content with
    | group nameId delimiter opener children closer around =>
      have first : [.group nameId delimiter opener children closer around].Sublist
          (Node.group nameId delimiter opener children closer around).walk := by
        rw [Node.walk_eq_cons]
        exact .cons_cons _ (List.nil_sublist _)
      simpa [Command.visitedHeading, Command.walk, walkArguments] using
        (before.append first).append later
    | _ => exact .cons_cons _ ((before.append inside).append later)

theorem visitedAll_sublist_walkAll : (nodes : List Node) →
    (visitedAll nodes).Sublist (walkAll nodes)
  | [] => List.Sublist.refl _
  | node :: rest =>
    .append (Node.visited_sublist_walk node) (visitedAll_sublist_walkAll rest)

theorem visitedArguments_sublist_walkArguments : (arguments : List Argument) →
    (visitedArguments arguments).Sublist (walkArguments arguments)
  | [] => List.Sublist.refl _
  | ⟨_, leading, content⟩ :: rest =>
    .append (.append (visitedAll_sublist_walkAll leading) (Node.visited_sublist_walk content))
      (visitedArguments_sublist_walkArguments rest)

end

/-- What is under a node is under the nodes around it. -/
theorem placed_subset_placedAll {nodes : List Node} {below : Node}
    (member : below ∈ walkAll nodes) : below.placed ⊆ placedAll nodes := by
  rw [walkAll_eq_flatMap, List.mem_flatMap] at member
  obtain ⟨node, listed, member⟩ := member
  exact fun _ under => (Node.placed_infix_placedAll listed).subset
    ((Node.placed_infix_of_mem_walk member).subset under)

theorem placed_subset_placedArguments {arguments : List Argument} {below : Node}
    (member : below ∈ walkArguments arguments) : below.placed ⊆ placedArguments arguments := by
  rw [walkArguments_eq_flatMap, ← walkAll_eq_flatMap] at member
  rw [Node.placedArguments_eq_placedAll]
  exact placed_subset_placedAll member

namespace Highlight

namespace Category

/-- Text is weaker than every category. -/
@[simp] theorem text_stronger (category : Category) : text.stronger category = category := by
  cases category <;> rfl

@[simp] theorem stronger_text (category : Category) : category.stronger text = category := by
  cases category <;> rfl

/-- Which category wins does not depend on the order of comparison. -/
theorem stronger_assoc (first second third : Category) :
    (first.stronger second).stronger third = first.stronger (second.stronger third) := by
  cases first <;> cases second <;> cases third <;> rfl

/-- The stronger category has the higher rank. -/
theorem rank_stronger (first second : Category) :
    (first.stronger second).rank = max first.rank second.rank := by
  cases first <;> cases second <;> rfl

theorem stronger_eq_or (first second : Category) :
    first.stronger second = first ∨ first.stronger second = second := by
  unfold stronger
  split
  · exact .inr rfl
  · exact .inl rfl

/-- Whether a category is one that a node gives all tokens under it, or none. -/
def isPassedDown : Category → Bool
  | text | argument | math | error => true
  | _ => false

end Category

/-- The category of what lies under a node, by the reports. -/
def reportOf (failed : List NodeId) (id : NodeId) : Category :=
  if failed.contains id then .error else .text

/-- Within a node the stronger one holds of what is around it and what was reported of it. -/
theorem contextAt_eq (failed : List NodeId) (id : NodeId) (outer : Category) :
    contextAt failed id outer = outer.stronger (reportOf failed id) := by
  unfold contextAt reportOf
  split
  · cases outer <;> rfl
  · exact (Category.stronger_text outer).symm

/-- The categories that a node gives a token as what it is. -/
inductive Gives (placed : Placed) : Node → Category → Prop where
  | math {id : NodeId} {display : Bool} {opener : Placed} {children : List Node}
      {closer : Option Placed} {span : Span}
      (under : placed ∈ (Node.math id display opener children closer span).placed) :
      Gives placed (.math id display opener children closer span) .math
  | environmentName {node : Node} (named : placed ∈ placedAll node.nameContent) :
      Gives placed node .environmentName
  | commandName {invocation : Command}
      (own : placed = invocation.head ∨ placed ∈ invocation.star) :
      Gives placed (.command invocation) .commandName
  | argument {invocation : Command} {argument : Argument}
      (listed : argument ∈ invocation.arguments) (under : placed ∈ argument.content.placed) :
      Gives placed (.command invocation) .argument

/-- The categories that a node gives a token: as what it is, and as a node with a report. -/
def Grants (failed : List NodeId) (placed : Placed) (node : Node) (category : Category) : Prop :=
  (category = .error ∧ node.id ∈ failed ∧ placed ∈ node.placed) ∨ Gives placed node category

/-- The categories that one of some nodes gives a token. -/
def Granted (failed : List NodeId) (placed : Placed) (nodes : List Node) (category : Category) :
    Prop :=
  ∃ node ∈ nodes, Grants failed placed node category

/-- The categories of a token: those that it has by itself, and those that nodes give it. -/
def Applies (token : Token) (granted : Category → Prop) (category : Category) : Prop :=
  category = .text ∨ (category = .comment ∧ token.isComment = true) ∨
    (category = .error ∧ token.isInvalid = true) ∨ granted category

/-- A category prevails among those that apply: it is the strongest of them, and it is not that of
a command where a command stands in the name of an environment. -/
structure Prevails (applies : Category → Prop) (category : Category) : Prop where
  holds : applies category
  strongest : ∀ other, applies other → other.rank ≤ category.rank
  enclosing : applies .environmentName → category ≠ .commandName

/-- The categories of a token as marking sees them: a comment in the name of an environment is
taken for a part of the name. -/
def Shows (token : Token) (granted : Category → Prop) (category : Category) : Prop :=
  Applies token granted category ∧ (category = .comment → ¬ granted .environmentName)

variable {failed : List NodeId} {placed : Placed} {category : Category}

/-- A node gives categories to tokens under it. -/
theorem Gives.mem {node : Node} (gives : Gives placed node category) : placed ∈ node.placed := by
  cases gives with
  | math under => exact under
  | environmentName named => exact node.nameContent_subset named
  | @commandName invocation own =>
    obtain ⟨id, name, head, star, arguments, span⟩ := invocation
    rcases own with rfl | own
    · simp [Node.placed, Command.placed]
    · simp [Node.placed, Command.placed, Option.mem_toList.mpr own]
  | @argument invocation argument listed under =>
    obtain ⟨id, name, head, star, arguments, span⟩ := invocation
    have member : placed ∈ placedArguments arguments := by
      rw [Node.placedArguments_eq_placedAll]
      exact (Node.placed_infix_placedAll
        (List.mem_flatMap.mpr ⟨argument, listed, by simp⟩)).subset under
    simp [Node.placed, Command.placed, member]

/-- A node grants a category to its own tokens only. -/
theorem Grants.mem {node : Node} (grants : Grants failed placed node category) :
    placed ∈ node.placed := by
  rcases grants with ⟨-, -, under⟩ | gives
  · exact under
  · exact gives.mem

/-- Without nodes nothing is granted. -/
@[simp] theorem granted_nil : ¬ Granted failed placed [] category :=
  nofun

/-- Nodes grant what one of them grants. -/
@[simp] theorem granted_cons {node : Node} {nodes : List Node} :
    Granted failed placed (node :: nodes) category ↔
      Grants failed placed node category ∨ Granted failed placed nodes category := by
  simp [Granted]

@[simp] theorem granted_append {nodes others : List Node} :
    Granted failed placed (nodes ++ others) category ↔
      Granted failed placed nodes category ∨ Granted failed placed others category := by
  simp [Granted, or_and_right, exists_or]

/-! Nodes that a token does not lie under give it nothing. -/

/-- Nothing is granted outside of a node. -/
theorem not_grants {node : Node} (outside : placed ∉ node.placed) :
    ¬ Grants failed placed node category :=
  fun grants => outside grants.mem

theorem not_granted_visited {node : Node} (outside : placed ∉ node.placed) :
    ¬ Granted failed placed node.visited category := by
  rintro ⟨below, member, grants⟩
  exact outside ((Node.placed_infix_of_mem_walk (node.visited_sublist_walk.subset member)).subset
    grants.mem)

theorem not_granted_visitedAll {nodes : List Node} (outside : placed ∉ placedAll nodes) :
    ¬ Granted failed placed (visitedAll nodes) category := by
  rintro ⟨below, member, grants⟩
  exact outside
    (placed_subset_placedAll ((visitedAll_sublist_walkAll nodes).subset member) grants.mem)

theorem not_granted_visitedArguments {arguments : List Argument}
    (outside : placed ∉ placedArguments arguments) :
    ¬ Granted failed placed (visitedArguments arguments) category := by
  rintro ⟨below, member, grants⟩
  exact outside (placed_subset_placedArguments
    ((visitedArguments_sublist_walkArguments arguments).subset member) grants.mem)

theorem not_granted_visitedHeading {invocation : Command} (outside : placed ∉ invocation.placed) :
    ¬ Granted failed placed invocation.visitedHeading category := by
  rintro ⟨below, member, grants⟩
  have walked : below ∈ (Node.command invocation).walk :=
    (Command.visitedHeading_sublist_walk invocation).subset member
  exact outside ((Node.placed_infix_of_mem_walk walked).subset grants.mem)

end Highlight

end TexSource
