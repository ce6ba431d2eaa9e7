import TexSource.Proofs.Expansion.Anchors
import TexSource.Proofs.Expansion.Inclusions

/-!
# Trees with documents in the places of directives

Splicing puts an inclusion above each command whose head has the ticket of one, and leaves the rest
of the tree as it is (`Node.unspliced`). If the tickets are where they belong (`Node.Settled`), the
inclusions of the spliced tree are those of the commands with tickets, and what is printed is what
was written, with the documents in the places of the directives (`splicing_spliceNode`).
-/

namespace TexSource

theorem perm_append_middle {Entry : Type} (first middle last : List Entry) :
    (first ++ middle ++ last).Perm (first ++ last ++ middle) := by
  rw [List.append_assoc, List.append_assoc]
  exact List.perm_append_comm.append_left first

mutual

/-- The tokens under a node are those of the nodes of its walk. -/
theorem Node.placed_perm_marks : (node : Node) → node.placed.Perm (node.walk.flatMap Node.marks)
  | .leaf _ _ => .refl _
  | .group _ _ opener children closer _ => by
    have inside := (placedAll_perm_marks children).append_left opener.toList
    exact (inside.append_right closer.toList).trans (perm_append_middle ..)
  | .math _ _ opener children closer _ => by
    have inside := (placedAll_perm_marks children).append_left [opener]
    exact (inside.append_right closer.toList).trans (perm_append_middle ..)
  | .command invocation => invocation.placed_perm_marks
  | .environment _ _ opening body ending _ _ => by
    have head := opening.placed_perm_marks
    have inside := placedAll_perm_marks body
    rw [Node.walk_environment, Node.placed_environment]
    simp only [List.flatMap_cons, List.flatMap_append, Node.marks, List.nil_append]
    cases ending with
    | none => simpa using head.append inside
    | some ending => simpa using head.append (inside.append ending.placed_perm_marks)
  | .inclusion _ directive _ _ _ _ => directive.placed_perm_marks

theorem Command.placed_perm_marks :
    (invocation : Command) → invocation.placed.Perm (invocation.walk.flatMap Node.marks)
  | ⟨_, _, head, star, arguments, _⟩ =>
    (placedArguments_perm_marks arguments).append_left (head :: star.toList)

theorem placedAll_perm_marks :
    (nodes : List Node) → (placedAll nodes).Perm ((walkAll nodes).flatMap Node.marks)
  | [] => .refl _
  | node :: rest => by
    rw [placedAll, walkAll, List.flatMap_append]
    exact node.placed_perm_marks.append (placedAll_perm_marks rest)

theorem placedArguments_perm_marks : (arguments : List Argument) →
    (placedArguments arguments).Perm ((walkArguments arguments).flatMap Node.marks)
  | [] => .refl _
  | ⟨_, leading, content⟩ :: rest => by
    rw [placedArguments, walkArguments, List.flatMap_append, List.flatMap_append]
    exact ((placedAll_perm_marks leading).append content.placed_perm_marks).append
      (placedArguments_perm_marks rest)

end

mutual

/-- A node with the directives under it put back in the places of their documents. -/
def Node.unspliced : Node → Node
  | .leaf id placed => .leaf id placed
  | .group id delimiter opener children closer span =>
    .group id delimiter opener (unsplicedAll children) closer span
  | .math id display opener children closer span =>
    .math id display opener (unsplicedAll children) closer span
  | .command invocation => .command invocation.unspliced
  | .environment id name opening body none matched span =>
    .environment id name opening.unspliced (unsplicedAll body) none matched span
  | .environment id name opening body (some ending) matched span =>
    .environment id name opening.unspliced (unsplicedAll body) (some ending.unspliced) matched span
  | .inclusion id directive _ _ _ _ => .command { directive.unspliced with id }

def Command.unspliced : Command → Command
  | ⟨id, name, head, star, arguments, span⟩ =>
    ⟨id, name, head, star, unsplicedArguments arguments, span⟩

def unsplicedAll : List Node → List Node
  | [] => []
  | node :: rest => node.unspliced :: unsplicedAll rest

def unsplicedArguments : List Argument → List Argument
  | [] => []
  | ⟨kind, leading, content⟩ :: rest =>
    ⟨kind, unsplicedAll leading, content.unspliced⟩ :: unsplicedArguments rest

end

namespace Expansion

section

variable (inclusions : Array Inclusion)

mutual

/-- **Nothing but directives is replaced.** -/
theorem unspliced_spliceNode : (node : Node) → (created : NodeId) →
    (∀ below ∈ node.walk, below.isInclusion = false) →
      (spliceNode inclusions node created).1.unspliced = node
  | .leaf _ _, _, _ => rfl
  | .group id delimiter opener children closer span, created, own => by
    have inside := unspliced_spliceNodes children created (List.forall_mem_cons.mp own).2
    exact congrArg (Node.group id delimiter opener · closer span) inside
  | .math id display opener children closer span, created, own => by
    have inside := unspliced_spliceNodes children created (List.forall_mem_cons.mp own).2
    exact congrArg (Node.math id display opener · closer span) inside
  | .command invocation, created, own => by
    have same := unspliced_spliceCommand invocation created own
    rcases spliceNode_command inclusions invocation created with
      ⟨-, stays⟩ | ⟨included, -, -, spliced⟩
    · rw [stays, Node.unspliced, same]
    · rw [spliced, Node.unspliced]
      cases command : (spliceCommand inclusions invocation created).1
      rw [command] at same
      exact congrArg Node.command same
  | .environment id name opening body none matched span, created, own => by
    have own : ∀ below ∈ opening.walk ++ walkAll body, below.isInclusion = false :=
      (List.forall_mem_cons.mp own).2
    rw [List.forall_mem_append] at own
    have head := unspliced_spliceCommand opening created own.1
    have inside := unspliced_spliceNodes body (spliceCommand inclusions opening created).2 own.2
    exact congrArg₂ (Node.environment id name · · none matched span) head inside
  | .environment id name opening body (some ending) matched span, created, own => by
    have own : ∀ below ∈ opening.walk ++ walkAll body ++ ending.walk,
        below.isInclusion = false := (List.forall_mem_cons.mp own).2
    rw [List.forall_mem_append, List.forall_mem_append] at own
    have head := unspliced_spliceCommand opening created own.1.1
    have inside := unspliced_spliceNodes body (spliceCommand inclusions opening created).2 own.1.2
    have last := unspliced_spliceCommand ending (spliceNodes inclusions body
      (spliceCommand inclusions opening created).2).2 own.2
    exact (congrArg₂ (fun opening body => Node.environment id name opening body (some _) matched
      span) head inside).trans
        (congrArg (fun ending => Node.environment id name opening body (some ending) matched span)
          last)
  | .inclusion _ _ _ _ _ _, _, own => by cases own _ List.mem_cons_self

theorem unspliced_spliceCommand : (invocation : Command) → (created : NodeId) →
    (∀ below ∈ invocation.walk, below.isInclusion = false) →
      (spliceCommand inclusions invocation created).1.unspliced = invocation
  | ⟨id, name, head, star, arguments, span⟩, created, own => by
    have inside := unspliced_spliceArguments arguments created (List.forall_mem_cons.mp own).2
    exact congrArg (Command.mk id name head star · span) inside

theorem unspliced_spliceNodes : (nodes : List Node) → (created : NodeId) →
    (∀ below ∈ walkAll nodes, below.isInclusion = false) →
      unsplicedAll (spliceNodes inclusions nodes created).1 = nodes
  | [], _, _ => rfl
  | node :: rest, created, own => by
    rw [walkAll, List.forall_mem_append] at own
    have first := unspliced_spliceNode node created own.1
    have later := unspliced_spliceNodes rest (spliceNode inclusions node created).2 own.2
    exact congrArg₂ List.cons first later

theorem unspliced_spliceArguments : (arguments : List Argument) → (created : NodeId) →
    (∀ below ∈ walkArguments arguments, below.isInclusion = false) →
      unsplicedArguments (spliceArguments inclusions arguments created).1 = arguments
  | [], _, _ => rfl
  | ⟨kind, leading, content⟩ :: rest, created, own => by
    rw [walkArguments, List.forall_mem_append, List.forall_mem_append] at own
    have before := unspliced_spliceNodes leading created own.1.1
    have inside := unspliced_spliceNode content (spliceNodes inclusions leading created).2 own.1.2
    have later := unspliced_spliceArguments rest
      (spliceNode inclusions content (spliceNodes inclusions leading created).2).2 own.2
    exact congrArg₂ List.cons (congrArg₂ (Argument.mk kind) before inside) later

end

end

/-- What is printed of tokens: a directive with a ticket is printed as its document, if it is not
one of those that are kept as they are written. -/
inductive Inlines (inclusions : Array Inclusion) (kept : Nat → Bool) :
    List Token → List Token → Prop where
  | nil : Inlines inclusions kept [] []
  | keep {token : Token} {tokens printed : List Token}
      (plain : ∀ number ∈ token.ticket, kept number = true)
      (later : Inlines inclusions kept tokens printed) :
      Inlines inclusions kept (token :: tokens) (token :: printed)
  | replace {head : Token} {number : Nat} {inclusion : Inclusion}
      {label tokens printed : List Token} (ticket : head.ticket = some number)
      (replaced : kept number = false) (found : inclusions[number]? = some inclusion)
      (names : Token.NamesFile label) (later : Inlines inclusions kept tokens printed) :
      Inlines inclusions kept (head :: (label ++ tokens)) (inclusion.document.inlined ++ printed)

namespace Inlines

variable {inclusions : Array Inclusion} {kept : Nat → Bool}
  {tokens others printed shown : List Token}

/-- Tokens without tickets are printed as they are. -/
theorem plain (unclaimed : ∀ token ∈ tokens, token.ticket = none) :
    Inlines inclusions kept tokens tokens := by
  induction tokens with
  | nil => exact .nil
  | cons token rest ih =>
    rw [List.forall_mem_cons] at unclaimed
    exact .keep (by simp [unclaimed.1]) (ih unclaimed.2)

theorem append (first : Inlines inclusions kept tokens printed)
    (second : Inlines inclusions kept others shown) :
    Inlines inclusions kept (tokens ++ others) (printed ++ shown) := by
  induction first with
  | nil => exact second
  | keep plain _ ih => exact .keep plain ih
  | replace ticket replaced found names _ ih =>
    rw [List.cons_append, List.append_assoc, List.append_assoc]
    exact .replace ticket replaced found names ih

end Inlines

end Expansion

namespace Node

/-- The ticket of the token that a node stands for. -/
def ticket? : Node → Option Nat
  | .leaf _ placed => placed.token.ticket
  | .command invocation => invocation.head.token.ticket
  | _ => none

/-- The document that a node stands for, with the control word of its directive. -/
def included? : Node → Option (Token × Expansion.Inclusion)
  | .inclusion _ directive fileId path document _ =>
    some (directive.head.token, ⟨fileId, path, document⟩)
  | _ => none

/-- The control word of a directive with a ticket, and the document of the ticket. -/
def directive? (inclusions : Array Expansion.Inclusion) :
    Node → Option (Token × Expansion.Inclusion)
  | .command invocation =>
    (invocation.head.token.ticket.bind (inclusions[·]?)).map (invocation.head.token, ·)
  | _ => none

/-- Whether a directive with a ticket has a verbatim environment in the name of its file. -/
def namesVerbatim (commands : CommandTable) : Node → Bool
  | .command invocation => invocation.head.token.ticket.isSome &&
    (Node.command invocation).holdsVerbatim commands
  | _ => false

/-- The tickets of a node are where they belong: a leaf is kept as it is written, and a command is
a directive with a document of its own. -/
def Settled (commands : CommandTable) (inclusions : Array Expansion.Inclusion)
    (kept : Nat → Bool) : Node → Prop
  | .leaf _ placed => ∀ number ∈ placed.token.ticket, kept number = true
  | .command invocation =>
    (∀ star ∈ invocation.star, star.token.ticket = none) ∧
      ∀ number ∈ invocation.head.token.ticket, kept number = false ∧
        (∃ included, inclusions[number]? = some included) ∧ invocation.star = none ∧
        ((Node.command invocation).holdsVerbatim commands = false →
          Token.NamesFile ((placedArguments invocation.arguments).map Placed.token))
  | .environment _ _ begun _ ended _ _ =>
    begun.head.token.ticket = none ∧ ∀ last ∈ ended, last.head.token.ticket = none
  | .inclusion .. => False
  | node => ∀ placed ∈ node.marks, placed.token.ticket = none

end Node

namespace Expansion

variable {commands : CommandTable} {inclusions : Array Inclusion} {kept : Nat → Bool}

/-- What splicing makes of nodes with tokens: the nodes, and what is printed for them. -/
structure Splicing (commands : CommandTable) (inclusions : Array Inclusion) (kept : Nat → Bool)
    (walk : List Node) (tokens : List Token) (spliced : List Node) (printed : List Token) :
    Prop where
  /-- The documents are those of the directives with tickets. -/
  made : (spliced.filterMap Node.included?).Perm (walk.filterMap (Node.directive? inclusions))
  inlines : walk.any (Node.namesVerbatim commands) = false →
    Inlines inclusions kept tokens printed

namespace Splicing

variable {walk more spliced other : List Node} {tokens others printed shown : List Token}

theorem nil : Splicing commands inclusions kept [] [] [] [] :=
  ⟨.refl _, fun _ => .nil⟩

theorem append (first : Splicing commands inclusions kept walk tokens spliced printed)
    (second : Splicing commands inclusions kept more others other shown) :
    Splicing commands inclusions kept (walk ++ more) (tokens ++ others) (spliced ++ other)
      (printed ++ shown) where
  made := by
    rw [List.filterMap_append, List.filterMap_append]
    exact first.made.append second.made
  inlines text := by
    rw [List.any_append, Bool.or_eq_false_iff] at text
    exact (first.inlines text.1).append (second.inlines text.2)

/-- Tokens without tickets. -/
theorem plain (unclaimed : ∀ token ∈ tokens, token.ticket = none) :
    Splicing commands inclusions kept [] tokens [] tokens :=
  ⟨.refl _, fun _ => .plain unclaimed⟩

/-- A node above others that is not replaced. -/
theorem above (inside : Splicing commands inclusions kept walk tokens spliced printed)
    {node made : Node} (undirected : node.directive? inclusions = none)
    (unmade : made.included? = none) :
    Splicing commands inclusions kept (node :: walk) tokens (made :: spliced) printed where
  made := by
    rw [List.filterMap_cons_none unmade, List.filterMap_cons_none undirected]
    exact inside.made
  inlines text := by
    rw [List.any_cons, Bool.or_eq_false_iff] at text
    exact inside.inlines text.2

/-- Tokens without tickets around those of other nodes. -/
theorem around (inside : Splicing commands inclusions kept walk tokens spliced printed)
    {front back : List Token} (before : ∀ token ∈ front, token.ticket = none)
    (behind : ∀ token ∈ back, token.ticket = none) :
    Splicing commands inclusions kept walk (front ++ tokens ++ back) spliced
      (front ++ printed ++ back) := by
  have whole := ((plain before).append inside).append (plain behind)
  rwa [List.nil_append, List.nil_append, List.append_nil, List.append_nil] at whole

/-- A directive that is replaced by a document, which stands above it. -/
theorem replace {number : Nat} {inclusion : Inclusion} {invocation directive : Command}
    {made : Node} (inside : Splicing commands inclusions kept walk tokens spliced printed)
    (ticket : invocation.head.token.ticket = some number) (replaced : kept number = false)
    (found : inclusions[number]? = some inclusion)
    (names : (Node.command invocation).namesVerbatim commands = false → Token.NamesFile tokens)
    (stands : made.included? = some (invocation.head.token, inclusion)) :
    Splicing commands inclusions kept (.command invocation :: walk)
      (invocation.head.token :: tokens) (made :: .command directive :: spliced)
      inclusion.document.inlined where
  made := by
    have here : (Node.command invocation).directive? inclusions =
        some (invocation.head.token, inclusion) := by simp [Node.directive?, ticket, found]
    have below : (Node.command directive).included? = none := rfl
    rw [List.filterMap_cons_some stands, List.filterMap_cons_none below,
      List.filterMap_cons_some here]
    exact inside.made.cons _
  inlines text := by
    rw [List.any_cons, Bool.or_eq_false_iff] at text
    have whole := Inlines.replace ticket replaced found (names text.1) .nil
    rwa [List.append_nil, List.append_nil] at whole

end Splicing

theorem forall_mem_tokens {placed : List Placed}
    (holds : ∀ mark ∈ placed, mark.token.ticket = none) :
    ∀ token ∈ placed.map Placed.token, token.ticket = none :=
  List.forall_mem_map.mpr holds

mutual

/-- **What splicing makes of a node** in which the tickets are where they belong. -/
theorem splicing_spliceNode : (node : Node) → (created : NodeId) →
    (∀ below ∈ node.walk, below.Settled commands inclusions kept) →
      Splicing commands inclusions kept node.walk node.tokens
        (spliceNode inclusions node created).1.walk (spliceNode inclusions node created).1.inlined
  | .leaf _ placed, _, settled =>
    ⟨.refl _, fun _ => .keep (settled _ List.mem_cons_self) .nil⟩
  | .group _ _ opener children closer _, created, settled => by
    obtain ⟨own, settled⟩ := List.forall_mem_cons.mp settled
    obtain ⟨first, last⟩ := List.forall_mem_append.mp own
    have inside := splicing_spliceNodes children created settled
    rw [Node.tokens, Node.placed, List.map_append, List.map_append]
    exact (inside.around (forall_mem_tokens first) (forall_mem_tokens last)).above rfl rfl
  | .math _ _ opener children closer _, created, settled => by
    obtain ⟨own, settled⟩ := List.forall_mem_cons.mp settled
    obtain ⟨first, last⟩ := List.forall_mem_cons.mp own
    have inside := splicing_spliceNodes children created settled
    rw [Node.tokens, Node.placed, List.map_append, List.map_cons]
    exact (inside.around (List.forall_mem_singleton.mpr first) (forall_mem_tokens last)).above rfl
      rfl
  | .command ⟨id, name, head, star, arguments, span⟩, created, settled => by
    rcases spliceNode_command inclusions ⟨id, name, head, star, arguments, span⟩ created with
      ⟨unclaimed, stays⟩ | ⟨included, -, claimed, spliced⟩
    · have plain : head.token.ticket = none := by
        cases ticket : head.token.ticket with
        | none => rfl
        | some number =>
          obtain ⟨-, ⟨included, found⟩, -⟩ := (settled _ List.mem_cons_self).2 number ticket
          simp [ticket, found] at unclaimed
      rw [stays]
      exact splicing_spliceCommand _ created plain settled
    · obtain ⟨number, ticket, found⟩ := Option.bind_eq_some_iff.mp claimed
      obtain ⟨own, below⟩ := List.forall_mem_cons.mp settled
      obtain ⟨replaced, -, starless, names⟩ := own.2 number ticket
      obtain rfl : star = none := starless
      have inside := splicing_spliceArguments arguments created below
      have claimed : head.token.ticket.isSome = true := ticket ▸ rfl
      rw [spliced]
      refine inside.replace ticket replaced found (fun text => names ?_) rfl
      rwa [Node.namesVerbatim, claimed, Bool.true_and] at text
  | .environment _ _ opening body none _ _, created, settled => by
    obtain ⟨own, settled⟩ := List.forall_mem_cons.mp settled
    obtain ⟨begins, inside⟩ := List.forall_mem_append.mp settled
    have head := splicing_spliceCommand opening created own.1 begins
    have inside := splicing_spliceNodes body (spliceCommand inclusions opening created).2 inside
    rw [Node.tokens, Node.placed, List.map_append]
    exact (head.append inside).above rfl rfl
  | .environment _ _ opening body (some ending) _ _, created, settled => by
    obtain ⟨own, settled⟩ := List.forall_mem_cons.mp settled
    obtain ⟨settled, ends⟩ := List.forall_mem_append.mp settled
    obtain ⟨begins, inside⟩ := List.forall_mem_append.mp settled
    have head := splicing_spliceCommand opening created own.1 begins
    have inside := splicing_spliceNodes body (spliceCommand inclusions opening created).2 inside
    have last := splicing_spliceCommand ending (spliceNodes inclusions body
      (spliceCommand inclusions opening created).2).2 (own.2 ending rfl) ends
    rw [Node.tokens, Node.placed, List.map_append, List.map_append]
    exact ((head.append inside).append last).above rfl rfl
  | .inclusion _ _ _ _ _ _, _, settled => (settled _ List.mem_cons_self).elim

/-- A command without a ticket is not replaced. -/
theorem splicing_spliceCommand : (invocation : Command) → (created : NodeId) →
    invocation.head.token.ticket = none →
    (∀ below ∈ invocation.walk, below.Settled commands inclusions kept) →
      Splicing commands inclusions kept invocation.walk (invocation.placed.map Placed.token)
        (spliceCommand inclusions invocation created).1.walk
        (spliceCommand inclusions invocation created).1.inlined
  | ⟨id, name, head, star, arguments, span⟩, created, plain, settled => by
    obtain ⟨own, settled⟩ := List.forall_mem_cons.mp settled
    have inside := splicing_spliceArguments arguments created settled
    have starless : ∀ placed ∈ star.toList, placed.token.ticket = none :=
      fun placed member => own.1 placed (Option.mem_toList.mp member)
    have marks := forall_mem_tokens (List.forall_mem_cons.mpr ⟨plain, starless⟩)
    have plain : head.token.ticket = none := plain
    have undirected : (Node.command ⟨id, name, head, star, arguments, span⟩).directive? inclusions =
        none := by simp only [Node.directive?, plain, Option.bind_none, Option.map_none]
    rw [Command.placed, List.map_append]
    exact ((Splicing.plain marks).append inside).above undirected rfl

theorem splicing_spliceNodes : (nodes : List Node) → (created : NodeId) →
    (∀ below ∈ walkAll nodes, below.Settled commands inclusions kept) →
      Splicing commands inclusions kept (walkAll nodes) ((placedAll nodes).map Placed.token)
        (walkAll (spliceNodes inclusions nodes created).1)
        (inlinedAll (spliceNodes inclusions nodes created).1)
  | [], _, _ => .nil
  | node :: rest, created, settled => by
    rw [walkAll, List.forall_mem_append] at settled
    have first := splicing_spliceNode node created settled.1
    have later := splicing_spliceNodes rest (spliceNode inclusions node created).2 settled.2
    rw [placedAll, List.map_append]
    exact first.append later

theorem splicing_spliceArguments : (arguments : List Argument) → (created : NodeId) →
    (∀ below ∈ walkArguments arguments, below.Settled commands inclusions kept) →
      Splicing commands inclusions kept (walkArguments arguments)
        ((placedArguments arguments).map Placed.token)
        (walkArguments (spliceArguments inclusions arguments created).1)
        (inlinedArguments (spliceArguments inclusions arguments created).1)
  | [], _, _ => .nil
  | ⟨_, leading, content⟩ :: rest, created, settled => by
    rw [walkArguments, List.forall_mem_append, List.forall_mem_append] at settled
    have before := splicing_spliceNodes leading created settled.1.1
    have inside := splicing_spliceNode content (spliceNodes inclusions leading created).2
      settled.1.2
    have later := splicing_spliceArguments rest
      (spliceNode inclusions content (spliceNodes inclusions leading created).2).2 settled.2
    rw [placedArguments, List.map_append, List.map_append]
    exact (before.append inside).append later

end

end Expansion

end TexSource
