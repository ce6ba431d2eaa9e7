import TexSource.Proofs.Highlight.Stretches
import TexSource.Proofs.Layout.Inclusions

/-!
# Included documents in place of their inclusions

What is laid out of a document with inclusions is a tree without them: the included documents stand
in place of their inclusions, and the content of braces of no width without these braces
(`Layout.inPlace`). The items of the document are those of this tree, with the braces of no width
among them, and as much deeper as such braces are open (`Layout.hides_nodeItems`). So level lines
start in the same major commands and at the same depths as those of a document with that tree
(`Layout.sameSetting_of_inPlace`, `Layout.sameDepth_of_inPlace`), and both are laid out alike
(`Layout.format_eq_of_inPlace`). Whether lines are level can be told from the expanded document
alone: they are where they start outside of all braces of no width (`Layout.Line.isLevel_of_plain`).
-/

namespace TexSource

/-- A token as it is written, without its place and where it comes from. -/
def Token.bare (token : Token) : Token where
  kind := token.kind
  raw := token.raw
  span := default

/-- A placed token with its kind and text alone. -/
def Placed.bare (placed : Placed) : Placed where
  index := 0
  token := placed.token.bare

/-- A bare token is alike the one that it is of. -/
theorem Token.alike_bare (token : Token) : token.Alike token.bare :=
  ⟨rfl, rfl⟩

namespace Layout

open Expansion Token

/-- Nodes as the content of an argument, which is a single node. -/
def gather : List Node → Node
  | [node] => node
  | nodes => .group 0 .root none nodes none default

section

variable (options : Options)

mutual

/-- The nodes that are laid out for a node, without their places: an included document stands in
place of its inclusion, and the content of braces of no width without them. -/
def inPlace : Node → List Node
  | .leaf _ placed => [.leaf 0 placed.bare]
  | .group _ _ none children closer _ =>
    inPlaceAll children ++ closer.toList.map fun placed => .leaf 0 placed.bare
  | .group _ delimiter (some opener) children closer _ =>
    if opener.token.isSeam then inPlaceAll children
    else [.group 0 delimiter (some opener.bare) (inPlaceAll children)
      (closer.map Placed.bare) default]
  | .math _ display opener children closer _ =>
    [.math 0 display opener.bare (inPlaceAll children) (closer.map Placed.bare) default]
  | .command invocation => [.command (commandInPlace invocation)]
  | .environment _ name opening body none matched _ =>
    [.environment 0 name (commandInPlace opening)
      (if options.verbatimEnvironments.contains name then
        (placedAll body).map fun placed => .leaf 0 placed.bare
      else inPlaceAll body) none matched default]
  | .environment _ name opening body (some ending) matched _ =>
    [.environment 0 name (commandInPlace opening)
      (if options.verbatimEnvironments.contains name then
        (placedAll body).map fun placed => .leaf 0 placed.bare
      else inPlaceAll body) (some (commandInPlace ending)) matched default]
  | .inclusion _ _ _ _ ⟨_, _, _, root, _, _⟩ _ => inPlace root

/-- A command whose inclusions are put in place. -/
def commandInPlace : Command → Command
  | ⟨_, name, head, star, arguments, _⟩ =>
    ⟨0, name, head.bare, star.map Placed.bare, argumentsInPlace arguments, default⟩

/-- Nodes whose inclusions are put in place. -/
def inPlaceAll : List Node → List Node
  | [] => []
  | node :: rest => inPlace node ++ inPlaceAll rest

/-- Arguments whose inclusions are put in place. -/
def argumentsInPlace : List Argument → List Argument
  | [] => []
  | ⟨kind, leading, content⟩ :: rest =>
    ⟨kind, inPlaceAll leading, gather (inPlace content)⟩ :: argumentsInPlace rest

end

/-- Whether tokens are no braces of no width. -/
def plainAll (tokens : List Placed) : Bool :=
  tokens.all fun placed => !placed.token.isSeam

mutual

/-- Whether braces of no width stand in pairs around the content of groups, and nowhere else. -/
def isSealed : Node → Bool
  | .leaf _ placed => plainAll [placed]
  | .group _ _ none children closer _ => isSealedAll children && plainAll closer.toList
  | .group _ _ (some opener) children closer _ =>
    (if opener.token.isSeam then opener.token.isBeginGroup && closer.any fun closer =>
      closer.token.isSeam && closer.token.isEndGroup
    else plainAll closer.toList) && isSealedAll children
  | .math _ _ opener children closer _ =>
    plainAll (opener :: closer.toList) && isSealedAll children
  | .command invocation => isSealedCommand invocation
  | .environment _ name opening body none _ _ =>
    isSealedCommand opening &&
      (if options.verbatimEnvironments.contains name then plainAll (placedAll body)
      else isSealedAll body)
  | .environment _ name opening body (some ending) _ _ =>
    isSealedCommand opening &&
      (if options.verbatimEnvironments.contains name then plainAll (placedAll body)
      else isSealedAll body) && isSealedCommand ending
  | .inclusion _ _ _ _ ⟨_, _, _, root, _, _⟩ _ => isSealed root

/-- Whether no seam is in a command except around inclusions. -/
def isSealedCommand : Command → Bool
  | ⟨_, _, head, star, arguments, _⟩ =>
    plainAll (head :: star.toList) && isSealedArguments arguments

/-- Whether no seam is in nodes except around inclusions. -/
def isSealedAll : List Node → Bool
  | [] => true
  | node :: rest => isSealed node && isSealedAll rest

/-- Whether no seam is in arguments except around inclusions. -/
def isSealedArguments : List Argument → Bool
  | [] => true
  | ⟨_, leading, content⟩ :: rest =>
    isSealedAll leading && isSealed content && isSealedArguments rest

end

end

/-- An item shows another one: it has the same token at the same place in the tree, but for braces
of no width that are open around it. -/
structure Item.Shows (around : Nat) (item other : Item) : Prop where
  plain : item.token.isSeam = false
  alike : item.token.Alike other.token
  depth : item.depth = other.depth + around
  verbatim : item.verbatim = other.verbatim
  key : item.key = other.key
  block : item.block = other.block

/-- Items show other ones, with braces of no width among them. The numbers are those of the braces
that are open in front of the items and behind them. -/
inductive Hides : Nat → List Item → List Item → Nat → Prop where
  | nil {around : Nat} : Hides around [] [] around
  | opened {around last : Nat} {item : Item} {items others : List Item}
      (seam : item.token.isSeam = true) (opens : item.token.isBeginGroup = true)
      (later : Hides (around + 1) items others last) : Hides around (item :: items) others last
  | closed {around last : Nat} {item : Item} {items others : List Item}
      (seam : item.token.isSeam = true) (closes : item.token.isBeginGroup = false)
      (later : Hides around items others last) : Hides (around + 1) (item :: items) others last
  | shown {around last : Nat} {item other : Item} {items others : List Item}
      (shows : item.Shows around other) (later : Hides around items others last) :
      Hides around (item :: items) (other :: others) last

namespace Hides

variable {around middle last : Nat} {items others more otherMore : List Item}

/-- Items may be hidden one part after another. -/
theorem append (first : Hides around items others middle)
    (second : Hides middle more otherMore last) :
    Hides around (items ++ more) (others ++ otherMore) last := by
  induction first with
  | nil => exact second
  | opened seam opens _ ih => exact .opened seam opens (ih second)
  | closed seam closes _ ih => exact .closed seam closes (ih second)
  | shown shows _ ih => exact .shown shows (ih second)

/-- An item that shows as another one hides nothing. -/
theorem single {item other : Item} (shows : item.Shows around other) :
    Hides around [item] [other] around :=
  .shown shows .nil

/-- Items that show others one by one. -/
theorem of_plain {tokens : List Placed} {item other : Placed → Item}
    (plain : plainAll tokens = true)
    (shows : ∀ placed, placed.token.isSeam = false → (item placed).Shows around (other placed)) :
    Hides around (tokens.map item) (tokens.map other) around := by
  induction tokens with
  | nil => exact .nil
  | cons placed rest ih =>
    simp only [plainAll, List.all_cons, Bool.and_eq_true, Bool.not_eq_true'] at plain
    exact .shown (shows placed plain.1) (ih plain.2)

/-- The tokens that are seen are those of the items that are shown. -/
theorem alike (hides : Hides around items others last) :
    List.Forall₂ Alike (seamless (items.map Item.token)) (others.map Item.token) := by
  induction hides with
  | nil => exact .nil
  | opened seam _ _ ih => rwa [List.map_cons, seamless_cons_of_seam seam]
  | closed seam _ _ ih => rwa [List.map_cons, seamless_cons_of_seam seam]
  | shown shows _ ih =>
    rw [List.map_cons, seamless_cons shows.plain]
    exact .cons shows.alike ih

end Hides

section

variable {options : Options} {around : Nat}

theorem nodesItems_append (depth : Nat) (block : Option Text) (nodes others : List Node) :
    nodesItems options depth block (nodes ++ others) =
      nodesItems options depth block nodes ++ nodesItems options depth block others := by
  induction nodes with
  | nil => rfl
  | cons node rest ih => rw [List.cons_append, nodesItems, nodesItems, ih, List.append_assoc]

/-- Nodes that are gathered have their items one after another. -/
theorem nodeItems_gather (depth : Nat) (block : Option Text) (nodes : List Node) :
    nodeItems options depth block (gather nodes) = nodesItems options depth block nodes := by
  unfold gather
  split
  · rw [nodesItems, nodesItems, List.append_nil]
  · rw [nodeItems, delimiterItems, Option.toList_none, List.map_nil, List.append_nil]

/-- The depth of a body grows with the depth around. -/
theorem bodyDepth_add (depth : Nat) (name : Text) :
    bodyDepth options (depth + around) name = bodyDepth options depth name + around := by
  unfold bodyDepth
  split
  · rfl
  · omega

/-- A token that is no seam shows as its bare token. -/
theorem shows_plain {placed : Placed} (plain : placed.token.isSeam = false) (depth : Nat)
    (verbatim : Bool) (key block : Option Text) :
    Item.Shows around ⟨placed.token, depth + around, verbatim, key, block⟩
      ⟨placed.bare.token, depth, verbatim, key, block⟩ :=
  ⟨plain, placed.token.alike_bare, rfl, rfl, rfl, rfl⟩

/-- A delimiter that is seen is shown. -/
theorem hides_delimiterItems {delimiter : Option Placed} (plain : plainAll delimiter.toList = true)
    (depth : Nat) (block : Option Text) :
    Hides around (delimiterItems (depth + around) block delimiter)
      (delimiterItems depth block (delimiter.map Placed.bare)) around := by
  cases delimiter with
  | none => exact .nil
  | some placed => exact .of_plain plain fun _ plain => shows_plain plain depth false none block

/-- The closing delimiter of a group without an opening one is a leaf behind its content. -/
theorem hides_closer {closer : Option Placed} (plain : plainAll closer.toList = true)
    (depth : Nat) (block : Option Text) :
    Hides around (delimiterItems (depth + around) block closer)
      (nodesItems options depth block (closer.toList.map fun placed => .leaf 0 placed.bare))
      around := by
  cases closer with
  | none => exact .nil
  | some placed => exact hides_delimiterItems plain depth block

/-- Delimiters that are seen around nodes. -/
theorem hides_enclosed {opener : Placed} {closer : Option Placed} {items others : List Item}
    {depth : Nat} {block : Option Text} (plain : opener.token.isSeam = false)
    (closes : plainAll closer.toList = true) (inside : Hides around items others around) :
    Hides around
      ({ token := opener.token, depth := depth + around, block } :: items ++
        delimiterItems (depth + around) block closer)
      ({ token := opener.bare.token, depth, block } :: others ++
        delimiterItems depth block (closer.map Placed.bare)) around :=
  .shown (shows_plain plain depth false none block)
    (inside.append (hides_delimiterItems closes depth block))

/-- A verbatim body without seams shows as it is. -/
theorem hides_verbatimItems {body : List Node} (plain : plainAll (placedAll body) = true)
    (depth : Nat) :
    Hides around (verbatimItems (depth + around) body)
      (verbatimItems depth ((placedAll body).map fun placed => .leaf 0 placed.bare)) around := by
  have leaves : placedAll ((placedAll body).map fun placed => .leaf 0 placed.bare) =
      (placedAll body).map Placed.bare := by
    induction placedAll body with
    | nil => rfl
    | cons placed rest ih => rw [List.map_cons, placedAll, ih, Node.placed]; rfl
  rw [verbatimItems, verbatimItems, leaves, List.map_map]
  exact .of_plain plain fun _ plain => shows_plain plain depth true none none

theorem name_commandInPlace (invocation : Command) :
    (commandInPlace options invocation).name = invocation.name := by
  cases invocation
  rfl

/-- The body of an environment, which may be kept verbatim. -/
theorem hides_bodyItems {name : Text} {body : List Node}
    (isSealed : (if options.verbatimEnvironments.contains name then plainAll (placedAll body)
      else isSealedAll options body) = true) (depth : Nat) (block : Option Text)
    (inside : ∀ deep, isSealedAll options body = true →
      Hides around (nodesItems options (deep + around) block body)
        (nodesItems options deep block (inPlaceAll options body)) around) :
    Hides around
      (if options.verbatimEnvironments.contains name then
        verbatimItems (bodyDepth options (depth + around) name) body
      else nodesItems options (bodyDepth options (depth + around) name) block body)
      (if options.verbatimEnvironments.contains name then
        verbatimItems (bodyDepth options depth name) (if options.verbatimEnvironments.contains name
          then (placedAll body).map fun placed => .leaf 0 placed.bare
          else inPlaceAll options body)
      else nodesItems options (bodyDepth options depth name) block
        (if options.verbatimEnvironments.contains name
          then (placedAll body).map fun placed => .leaf 0 placed.bare
          else inPlaceAll options body)) around := by
  rw [bodyDepth_add]
  split at isSealed
  · rename_i verbatim
    simp only [if_pos verbatim]
    exact hides_verbatimItems isSealed _
  · rename_i read
    simp only [if_neg read]
    exact inside _ isSealed

/-- The content of braces of no width is one level deeper than without them. -/
theorem hides_seamed {opener : Placed} {closer : Option Placed} {items others : List Item}
    {depth : Nat} {block : Option Text} (seam : opener.token.isSeam = true)
    (pair : (opener.token.isBeginGroup && closer.any fun closer =>
      closer.token.isSeam && closer.token.isEndGroup) = true)
    (inside : Hides (around + 1) items others (around + 1)) :
    Hides around ({ token := opener.token, depth, block } :: items ++
      delimiterItems depth block closer) others around := by
  simp only [Bool.and_eq_true, Option.any_eq_true_iff_get] at pair
  obtain ⟨opens, found, closes⟩ := pair
  obtain ⟨closer, rfl⟩ := Option.isSome_iff_exists.mp found
  have other : closer.token.isBeginGroup = false := Braces.isBeginGroup_of_isEndGroup closes.2
  have behind : Hides (around + 1) (delimiterItems depth block (some closer)) [] around :=
    .closed closes.1 other .nil
  have opened : Hides around (⟨opener.token, depth, false, none, block⟩ ::
      (items ++ delimiterItems depth block (some closer))) (others ++ []) around :=
    .opened seam opens (inside.append behind)
  simpa using opened

mutual

/-- **The items of a node** are those of the nodes in its place, and braces of no width. -/
theorem hides_nodeItems (around depth : Nat) (block : Option Text) : (node : Node) →
    isSealed options node = true →
      Hides around (nodeItems options (depth + around) block node)
        (nodesItems options depth block (inPlace options node)) around
  | .leaf _ placed, isSealed => by
    simp only [Layout.isSealed, plainAll, List.all_cons, List.all_nil, Bool.and_true,
      Bool.not_eq_true'] at isSealed
    exact .single (shows_plain isSealed depth false none block)
  | .group _ _ none children closer _, isSealed => by
    rw [Layout.isSealed, Bool.and_eq_true] at isSealed
    rw [nodeItems, inPlace, nodesItems_append]
    exact (hides_nodesItems around depth block children isSealed.1).append
      (hides_closer isSealed.2 depth block)
  | .group _ delimiter (some opener) children closer _, isSealed => by
    rw [Layout.isSealed, Bool.and_eq_true] at isSealed
    rw [nodeItems, inPlace]
    split
    · rename_i seam
      rw [if_pos seam] at isSealed
      exact hides_seamed seam isSealed.1
        (hides_nodesItems (around + 1) depth block children isSealed.2)
    · rename_i plain
      rw [if_neg plain] at isSealed
      have inside := hides_nodesItems around (depth + 1) block children isSealed.2
      rw [Nat.add_right_comm] at inside
      rw [nodesItems, nodesItems, List.append_nil, nodeItems]
      exact hides_enclosed (by simpa using plain) isSealed.1 inside
  | .math _ _ opener children closer _, isSealed => by
    rw [Layout.isSealed, Bool.and_eq_true] at isSealed
    simp only [plainAll, List.all_cons, Bool.and_eq_true, Bool.not_eq_true'] at isSealed
    obtain ⟨⟨plain, closes⟩, isSealed⟩ := isSealed
    have inside := hides_nodesItems around (depth + 1) block children isSealed
    rw [Nat.add_right_comm] at inside
    rw [nodeItems, inPlace, nodesItems, nodesItems, List.append_nil, nodeItems]
    exact hides_enclosed plain closes inside
  | .command invocation, isSealed => by
    rw [Layout.isSealed] at isSealed
    rw [nodeItems, inPlace, nodesItems, nodesItems, List.append_nil, nodeItems,
      name_commandInPlace]
    exact hides_commandItems around depth block _ invocation isSealed
  | .environment _ name opening body none _ _, isSealed => by
    rw [Layout.isSealed, Bool.and_eq_true] at isSealed
    have head := hides_commandItems around depth block
      (majorKey? options ("begin" ++ Problem.braced name)) opening isSealed.1
    have inside := hides_bodyItems isSealed.2 depth block fun deep inside =>
      hides_nodesItems around deep block body inside
    rw [nodeItems, inPlace, nodesItems, nodesItems, List.append_nil, nodeItems]
    exact head.append inside
  | .environment _ name opening body (some ending) _ _, isSealed => by
    rw [Layout.isSealed, Bool.and_eq_true, Bool.and_eq_true] at isSealed
    have head := hides_commandItems around depth block
      (majorKey? options ("begin" ++ Problem.braced name)) opening isSealed.1.1
    have inside := hides_bodyItems isSealed.1.2 depth block fun deep inside =>
      hides_nodesItems around deep block body inside
    have last := hides_commandItems around depth block
      (majorKey? options ("end" ++ Problem.braced name)) ending isSealed.2
    rw [nodeItems, inPlace, nodesItems, nodesItems, List.append_nil, nodeItems]
    exact (head.append inside).append last
  | .inclusion _ _ _ _ ⟨_, _, _, root, _, _⟩ _, isSealed => by
    rw [Layout.isSealed] at isSealed
    rw [nodeItems, inPlace]
    exact hides_nodeItems around depth block root isSealed

theorem hides_commandItems (around depth : Nat) (block key : Option Text) :
    (invocation : Command) → isSealedCommand options invocation = true →
      Hides around (commandItems options (depth + around) block key invocation)
        (commandItems options depth block key (commandInPlace options invocation)) around
  | ⟨_, _, head, star, arguments, _⟩, isSealed => by
    rw [isSealedCommand, Bool.and_eq_true] at isSealed
    simp only [plainAll, List.all_cons, Bool.and_eq_true, Bool.not_eq_true'] at isSealed
    obtain ⟨⟨plain, starred⟩, isSealed⟩ := isSealed
    rw [commandItems, commandInPlace, commandItems]
    exact .shown (shows_plain plain depth false key (key <|> block))
      ((hides_delimiterItems starred depth _).append
        (hides_argumentsItems around depth _ arguments isSealed))

/-- **The items of sealed nodes** show as those with the inclusions in place, where seams are
hidden. -/
theorem hides_nodesItems (around depth : Nat) (block : Option Text) : (nodes : List Node) →
    isSealedAll options nodes = true →
      Hides around (nodesItems options (depth + around) block nodes)
        (nodesItems options depth block (inPlaceAll options nodes)) around
  | [], _ => .nil
  | node :: rest, isSealed => by
    rw [isSealedAll, Bool.and_eq_true] at isSealed
    rw [nodesItems, inPlaceAll, nodesItems_append]
    exact (hides_nodeItems around depth block node isSealed.1).append
      (hides_nodesItems around depth block rest isSealed.2)

theorem hides_argumentsItems (around depth : Nat) (block : Option Text) :
    (arguments : List Argument) → isSealedArguments options arguments = true →
      Hides around (argumentsItems options (depth + around) block arguments)
        (argumentsItems options depth block (argumentsInPlace options arguments)) around
  | [], _ => .nil
  | ⟨_, leading, content⟩ :: rest, isSealed => by
    rw [isSealedArguments, Bool.and_eq_true, Bool.and_eq_true] at isSealed
    rw [argumentsItems, argumentsInPlace, argumentsItems, nodeItems_gather]
    exact ((hides_nodesItems around depth block leading isSealed.1.1).append
      (hides_nodeItems around depth block content isSealed.1.2)).append
        (hides_argumentsItems around depth block rest isSealed.2)

end

mutual

/-- Where no token is a brace of no width, none is out of place. -/
theorem isSealed_of_plain : (node : Node) → plainAll node.placed = true →
    (∀ below ∈ node.walk, below.isInclusion = false) → isSealed options node = true
  | .leaf _ _, plain, _ => plain
  | .group _ _ none children closer _, plain, own => by
    simp only [Node.placed, plainAll, List.all_append, Bool.and_eq_true] at plain
    rw [isSealed, Bool.and_eq_true]
    exact ⟨isSealedAll_of_plain children plain.1.2 fun below member =>
      own below (List.mem_cons_of_mem _ member), plain.2⟩
  | .group _ _ (some opener) children closer _, plain, own => by
    simp only [Node.placed, plainAll, List.all_append, Bool.and_eq_true, Option.toList_some,
      List.all_cons, Bool.not_eq_true'] at plain
    rw [isSealed, Bool.and_eq_true, if_neg (by simp [plain])]
    exact ⟨plain.2, isSealedAll_of_plain children plain.1.2 fun below member =>
      own below (List.mem_cons_of_mem _ member)⟩
  | .math _ _ opener children closer _, plain, own => by
    simp only [Node.placed, plainAll, List.cons_append, List.all_append, Bool.and_eq_true,
      List.all_cons] at plain
    rw [isSealed, plainAll, List.all_cons, Bool.and_eq_true, Bool.and_eq_true]
    exact ⟨⟨plain.1, plain.2.2⟩, isSealedAll_of_plain children plain.2.1 fun below member =>
      own below (List.mem_cons_of_mem _ member)⟩
  | .command invocation, plain, own => isSealedCommand_of_plain invocation plain own
  | .environment _ name opening body none _ _, plain, own => by
    simp only [Node.placed, plainAll, List.all_append, Bool.and_eq_true] at plain
    rw [isSealed, Bool.and_eq_true]
    refine ⟨isSealedCommand_of_plain opening plain.1 fun below member =>
      own below (by simp [Node.walk, member]), ?_⟩
    split
    · exact plain.2
    · exact isSealedAll_of_plain body plain.2 fun below member =>
        own below (by simp [Node.walk, member])
  | .environment _ name opening body (some ending) _ _, plain, own => by
    simp only [Node.placed, plainAll, List.all_append, Bool.and_eq_true] at plain
    rw [isSealed, Bool.and_eq_true, Bool.and_eq_true]
    refine ⟨⟨isSealedCommand_of_plain opening plain.1.1 fun below member =>
      own below (by simp [Node.walk, member]), ?_⟩,
        isSealedCommand_of_plain ending plain.2 fun below member =>
          own below (by simp [Node.walk, member])⟩
    split
    · exact plain.1.2
    · exact isSealedAll_of_plain body plain.1.2 fun below member =>
        own below (by simp [Node.walk, member])
  | .inclusion _ _ _ _ _ _, _, own => by
    have absent := own _ List.mem_cons_self
    cases absent

theorem isSealedCommand_of_plain : (invocation : Command) → plainAll invocation.placed = true →
    (∀ below ∈ invocation.walk, below.isInclusion = false) →
      isSealedCommand options invocation = true
  | ⟨_, _, head, star, arguments, _⟩, plain, own => by
    simp only [Command.placed, plainAll, List.cons_append, List.all_append, Bool.and_eq_true,
      List.all_cons] at plain
    rw [isSealedCommand, plainAll, List.all_cons, Bool.and_eq_true, Bool.and_eq_true]
    exact ⟨⟨plain.1, plain.2.1⟩, isSealedArguments_of_plain arguments plain.2.2
      fun below member => own below (List.mem_cons_of_mem _ member)⟩

theorem isSealedAll_of_plain : (nodes : List Node) → plainAll (placedAll nodes) = true →
    (∀ below ∈ walkAll nodes, below.isInclusion = false) → isSealedAll options nodes = true
  | [], _, _ => rfl
  | node :: rest, plain, own => by
    simp only [placedAll, plainAll, List.all_append, Bool.and_eq_true] at plain
    rw [isSealedAll, Bool.and_eq_true]
    exact ⟨isSealed_of_plain node plain.1 fun below member =>
      own below (List.mem_append_left _ member),
        isSealedAll_of_plain rest plain.2 fun below member =>
          own below (List.mem_append_right _ member)⟩

theorem isSealedArguments_of_plain : (arguments : List Argument) →
    plainAll (placedArguments arguments) = true →
      (∀ below ∈ walkArguments arguments, below.isInclusion = false) →
        isSealedArguments options arguments = true
  | [], _, _ => rfl
  | ⟨_, leading, content⟩ :: rest, plain, own => by
    simp only [placedArguments, plainAll, List.all_append, Bool.and_eq_true] at plain
    rw [isSealedArguments, Bool.and_eq_true, Bool.and_eq_true]
    exact ⟨⟨isSealedAll_of_plain leading plain.1.1 fun below member =>
      own below (by simp [walkArguments, member]),
        isSealed_of_plain content plain.1.2 fun below member =>
          own below (by simp [walkArguments, member])⟩,
      isSealedArguments_of_plain rest plain.2 fun below member =>
        own below (by simp [walkArguments, member])⟩

end

end

/-- The number of braces of no width that are open behind items. -/
def openBehind : Nat → List Item → Nat
  | around, [] => around
  | around, item :: rest =>
    openBehind (if item.token.isSeam then
      if item.token.isBeginGroup then around + 1 else around - 1
    else around) rest

/-- Items without seams leave as many groups open as before. -/
theorem openBehind_of_plain {around : Nat} {items : List Item}
    (plain : ∀ item ∈ items, item.token.isSeam = false) : openBehind around items = around := by
  induction items with
  | nil => rfl
  | cons item rest ih =>
    rw [List.forall_mem_cons] at plain
    rw [openBehind, plain.1, if_neg Bool.false_ne_true, ih plain.2]

/-- Whether an item is neither a space nor a brace of no width. -/
def Item.isShown (item : Item) : Bool :=
  !item.token.isSpace && !item.token.isSeam

/-- What is seen first in a line is as deep as the start of the line, but for the braces of no width
that are open in front of it, and stands in the same major command, in a verbatim environment or
not. -/
def Line.IsLevel (around : Nat) (line : Line) : Prop :=
  ∀ first ∈ line.first?, ∀ shown ∈ line.items.find? Item.isShown,
    shown.depth = first.depth + openBehind around (line.items.takeWhile (!·.isShown)) ∧
      shown.verbatim = first.verbatim ∧ (shown.key <|> shown.block) = (first.key <|> first.block)

instance (around : Nat) (line : Line) : Decidable (line.IsLevel around) :=
  inferInstanceAs (Decidable (∀ first ∈ line.first?, ∀ shown ∈ line.items.find? Item.isShown, _))

/-- Lines are level; the number is that of the braces of no width that are open in front of them. -/
def AreLevel : Nat → List Line → Prop
  | _, [] => True
  | around, line :: rest => line.IsLevel around ∧ AreLevel (openBehind around line.items) rest

/-- Whether lines are level can be computed. -/
def decidableAreLevel : (around : Nat) → (lines : List Line) → Decidable (AreLevel around lines)
  | _, [] => isTrue trivial
  | around, line :: rest =>
    have := decidableAreLevel (openBehind around line.items) rest
    inferInstanceAs (Decidable (_ ∧ _))

instance (around : Nat) (lines : List Line) : Decidable (AreLevel around lines) :=
  decidableAreLevel around lines

/-- Lines show other ones, with braces of no width among their items. -/
inductive LinesHide : Nat → List Line → List Line → Prop where
  | nil {around : Nat} : LinesHide around [] []
  | cons {around middle : Nat} {line other : Line} {lines others : List Line}
      (items : Hides around line.items other.items middle)
      (lineEnd : line.lineEnd.any (·.verbatim) = other.lineEnd.any (·.verbatim))
      (later : LinesHide middle lines others) : LinesHide around (line :: lines) (other :: others)

namespace Hides

variable {around middle last : Nat} {items others current front : List Item}

/-- Hidden seams leave open what is counted. -/
theorem openBehind_eq (hides : Hides around items others last) :
    openBehind around items = last := by
  induction hides with
  | nil => rfl
  | opened seam opens _ ih => rwa [openBehind, if_pos seam, if_pos opens]
  | closed seam closes _ ih => rwa [openBehind, if_pos seam, closes, if_neg Bool.false_ne_true]
  | shown shows _ ih => rwa [openBehind, shows.plain, if_neg Bool.false_ne_true]

/-- What is seen first among items shows what is seen first among the others. -/
theorem find? (hides : Hides around items others last) :
    Option.Rel (Item.Shows (openBehind around (items.takeWhile (!·.isShown))))
      (items.find? Item.isShown) (others.find? (!·.token.isSpace)) := by
  have hidden {item : Item} (seam : item.token.isSeam = true) : item.isShown = false := by
    simp [Item.isShown, seam]
  induction hides with
  | nil => exact .none
  | opened seam opens _ ih =>
    rw [List.find?_cons_of_neg (by simp [hidden seam]),
      List.takeWhile_cons_of_pos (by simp [hidden seam]), openBehind, if_pos seam, if_pos opens]
    exact ih
  | closed seam closes _ ih =>
    rw [List.find?_cons_of_neg (by simp [hidden seam]),
      List.takeWhile_cons_of_pos (by simp [hidden seam]), openBehind, if_pos seam, closes,
      if_neg Bool.false_ne_true]
    exact ih
  | @shown _ _ item other _ _ shows _ ih =>
    have same : item.isShown = !other.token.isSpace := by
      rw [Item.isShown, shows.plain, Bool.not_false, Bool.and_true, shows.alike.isSpace]
    cases space : other.token.isSpace with
    | true =>
      rw [List.find?_cons_of_neg (by simp [same, space]),
        List.takeWhile_cons_of_pos (by simp [same, space]),
        List.find?_cons_of_neg (by simp [space]), openBehind, shows.plain,
        if_neg Bool.false_ne_true]
      exact ih
    | false =>
      rw [List.find?_cons_of_pos (by simp [same, space]),
        List.takeWhile_cons_of_neg (by simp [same, space]),
        List.find?_cons_of_pos (by simp [space])]
      exact .some shows

/-- Spaces show spaces. -/
theorem any_verbatim (hides : Hides around items others last)
    (spaces : ∀ item ∈ items, item.token.isSpace = true) :
    items.any (·.verbatim) = others.any (·.verbatim) := by
  induction hides with
  | nil => rfl
  | opened seam =>
    rw [List.forall_mem_cons, isSpace_of_isSeam seam] at spaces
    cases spaces.1
  | closed seam =>
    rw [List.forall_mem_cons, isSpace_of_isSeam seam] at spaces
    cases spaces.1
  | shown shows _ ih =>
    rw [List.forall_mem_cons] at spaces
    rw [List.any_cons, List.any_cons, shows.verbatim, ih spaces.2]

/-- **Lines** of items that show other ones. -/
theorem linesFrom (later : Hides middle items others last)
    (ahead : Hides around current.reverse front.reverse middle)
    (flush : ∀ line ∈ Layout.linesFrom current items, line.Seamless) :
    LinesHide around (Layout.linesFrom current items) (Layout.linesFrom front others) := by
  induction later generalizing around current front with
  | nil =>
    rw [Layout.linesFrom] at flush
    rw [Layout.linesFrom, Layout.linesFrom]
    have alike := ahead.alike
    cases current with
    | nil =>
      cases front with
      | nil => exact .nil
      | cons other front =>
        have none := List.forall₂_nil_left_iff.mp alike
        simp at none
    | cons item current =>
      rw [if_neg (List.cons_ne_nil _ _)] at flush ⊢
      cases front with
      | cons other front => exact .cons ahead rfl .nil
      | nil =>
        exact absurd (List.forall₂_nil_right_iff.mp alike)
          ((flush _ List.mem_cons_self).seamless_ne_nil (by simp))
  | @opened _ _ item _ _ seam opens _ ih =>
    rw [Layout.linesFrom, isEndOfLine_of_isSeam seam, if_neg Bool.false_ne_true] at flush ⊢
    refine ih ?_ flush
    rw [List.reverse_cons]
    simpa using ahead.append (.opened seam opens .nil)
  | @closed _ _ item _ _ seam closes _ ih =>
    rw [Layout.linesFrom, isEndOfLine_of_isSeam seam, if_neg Bool.false_ne_true] at flush ⊢
    refine ih ?_ flush
    rw [List.reverse_cons]
    simpa using ahead.append (.closed seam closes .nil)
  | @shown _ _ item other _ _ shows _ ih =>
    rw [Layout.linesFrom] at flush
    rw [Layout.linesFrom, Layout.linesFrom, ← shows.alike.isEndOfLine]
    split
    · rename_i ends
      rw [if_pos ends, List.forall_mem_cons] at flush
      exact .cons ahead (by simp [shows.verbatim]) (ih .nil flush.2)
    · rename_i within
      rw [if_neg within] at flush
      refine ih ?_ flush
      rw [List.reverse_cons, List.reverse_cons]
      exact ahead.append (.single shows)

end Hides

namespace Line

variable {line other : Line} {around last : Nat}

/-- A line is level if it starts outside of all braces of no width and not with one. -/
theorem isLevel_of_plain (plain : ∀ first ∈ line.first?, first.token.isSeam = false) :
    line.IsLevel 0 := by
  intro first found shown seen
  obtain ⟨solid, before, after, split, spaces⟩ := List.find?_eq_some_iff_append.mp found
  have blank : ∀ item ∈ before, item.token.isSpace = true := by simpa using spaces
  have hidden : ∀ item ∈ before, (!item.isShown) = true := fun item member => by
    simp [Item.isShown, blank item member]
  have visible : first.isShown = true := by
    simp [Item.isShown, plain first found, (by simpa using solid : first.token.isSpace = false)]
  have none : before.find? Item.isShown = none :=
    List.find?_eq_none.mpr fun item member => by simpa using hidden item member
  rw [split, List.find?_append, none, Option.none_or, List.find?_cons_of_pos visible] at seen
  obtain rfl := Option.mem_some_iff.mp seen
  rw [split, List.takeWhile_append_of_pos hidden, List.takeWhile_cons_of_neg (by simp [visible]),
    List.append_nil, openBehind_of_plain fun item member => isSeam_of_isSpace (blank item member)]
  exact ⟨rfl, rfl, rfl⟩

/-- A level line starts as the one that it shows. -/
theorem starts_of_hides (hides : Hides around line.items other.items last)
    (lineEnd : line.lineEnd.any (·.verbatim) = other.lineEnd.any (·.verbatim))
    (flush : line.Seamless) (level : line.IsLevel around) :
    line.SameSetting other ∧ line.SameDepth other := by
  have inlines : line.Inlines other := ⟨hides.alike⟩
  have absent := inlines.first?_eq_none_iff flush
  cases found : line.first? with
  | none =>
    have otherFound := absent.mp found
    have spaces : ∀ item ∈ line.items, item.token.isSpace = true := by simpa [first?] using found
    have verbatim := hides.any_verbatim spaces
    refine ⟨⟨?_, ?_⟩, ?_⟩
    · rw [isRaw, isRaw, found, otherFound, verbatim, lineEnd]
    · rw [major?, major?, found, otherFound]
    · rw [SameDepth, depth?, depth?, found, otherFound]
  | some first =>
    have seen := hides.find?
    have otherFirst : other.first? = other.items.find? (!·.token.isSpace) := rfl
    rw [← otherFirst] at seen
    cases otherFound : other.first? with
    | none => rw [absent.mpr otherFound] at found; cases found
    | some start =>
      rw [otherFound] at seen
      cases shown : line.items.find? Item.isShown with
      | none => rw [shown] at seen; cases seen
      | some item =>
        rw [shown] at seen
        obtain ⟨depth, verbatim, major⟩ := level first found item shown
        cases seen with
        | some shows =>
          refine ⟨⟨?_, ?_⟩, ?_⟩
          · rw [isRaw, isRaw, found, otherFound]
            exact verbatim.symm.trans shows.verbatim
          · rw [major?, major?, found, otherFound, Option.bind_some, Option.bind_some, ← major,
              shows.key, shows.block]
          · have deep := shows.depth.symm.trans depth
            rw [SameDepth, depth?, depth?, found, otherFound, Option.map_some, Option.map_some,
              Nat.add_right_cancel deep]

end Line

/-- Level lines start as those that they show. -/
theorem LinesHide.starts {around : Nat} {lines others : List Line}
    (hide : LinesHide around lines others) (flush : ∀ line ∈ lines, line.Seamless)
    (level : AreLevel around lines) :
    List.Forall₂ (fun line other => line.SameSetting other ∧ line.SameDepth other) lines
      others := by
  induction hide with
  | nil => exact .nil
  | cons items lineEnd _ ih =>
    rw [List.forall_mem_cons] at flush
    have later := level.2
    rw [items.openBehind_eq] at later
    exact .cons (Line.starts_of_hides items lineEnd flush.1 level.1) (ih flush.2 later)

/-- Items that show what others show without braces of no width show the others. -/
theorem Hides.trans {around last : Nat} {items others more : List Item}
    (hides : Hides around items others last) (same : Hides 0 more others 0)
    (plain : ∀ item ∈ more, item.token.isSeam = false) : Hides around items more last := by
  induction hides generalizing more with
  | nil =>
    cases same with
    | nil => exact .nil
    | opened seam => rw [plain _ List.mem_cons_self] at seam; cases seam
  | opened seam opens _ ih => exact .opened seam opens (ih same plain)
  | closed seam closes _ ih => exact .closed seam closes (ih same plain)
  | shown shows _ ih =>
    cases same with
    | opened seam => rw [plain _ List.mem_cons_self] at seam; cases seam
    | shown also later =>
      rw [List.forall_mem_cons] at plain
      refine .shown ⟨shows.plain, ?_, ?_, ?_, ?_, ?_⟩ (ih later plain.2)
      · exact ⟨shows.alike.kind.trans also.alike.kind.symm,
          shows.alike.raw.trans also.alike.raw.symm⟩
      · rw [shows.depth, also.depth, Nat.add_zero]
      · rw [shows.verbatim, also.verbatim]
      · rw [shows.key, also.key]
      · rw [shows.block, also.block]

section

variable {options : Options} {document single : Document} {source : Text} {table : Catcode.Table}
  {commands : CommandTable} {fileId : FileId}

/-- No token of a parsed document is a brace of no width. -/
theorem plain_of_parse (parsed : Document.parse source table commands fileId = .ok single) :
    plainAll single.root.placed = true := by
  have own := (Document.apart_of_parse parsed).2
  rw [plainAll, List.all_eq_true]
  intro placed member
  have written := own placed.token (List.mem_map_of_mem member)
  simp only [Highlight.isOwn, Bool.and_eq_true, decide_eq_true_eq] at written
  simp [Token.isSeam, written.1.2]

variable (paired : isSealed options document.root = true)
  (parsed : Document.parse source table commands fileId = .ok single)
  (sameTree : inPlace options single.root = inPlace options document.root)

include paired parsed sameTree

/-- The items of a document show those of a parsed one that is written in place. -/
theorem hides_items : Hides 0 (nodeItems options 0 none document.root)
    (nodeItems options 0 none single.root) 0 := by
  have plain := plain_of_parse parsed
  have own := Document.own_of_parse parsed
  have whole := hides_nodeItems 0 0 none document.root paired
  have same : Hides 0 (nodeItems options 0 none single.root)
      (nodesItems options 0 none (inPlace options single.root)) 0 :=
    hides_nodeItems 0 0 none single.root (isSealed_of_plain single.root plain own)
  rw [sameTree] at same
  refine whole.trans same fun item member => ?_
  have tokens := nodeItems_tokens options 0 none single.root own
  have among : item.token ∈ single.root.placed.map Placed.token :=
    tokens ▸ List.mem_map_of_mem member
  obtain ⟨placed, inside, token⟩ := List.mem_map.mp among
  simpa [token] using List.all_eq_true.mp plain placed inside

/-- The tokens that are seen are those that are written in place. -/
theorem alike_of_inPlace :
    List.Forall₂ Alike (seamless (tokens options document)) (tokens options single) :=
  (hides_items paired parsed sameTree).alike

variable (flush : ∀ line ∈ lines options document, line.Seamless)
  (level : AreLevel 0 (lines options document))

include flush level

/-- Each line has the setting and the depth of the line in place of it. -/
theorem starts_of_inPlace :
    List.Forall₂ (fun line other => line.SameSetting other ∧ line.SameDepth other)
      (lines options document) (lines options single) :=
  ((hides_items paired parsed sameTree).linesFrom .nil flush).starts flush level

/-- Level lines start in the major commands and verbatim environments in which they start when they
are written in place. -/
theorem sameSetting_of_inPlace :
    List.Forall₂ Line.SameSetting (lines options document) (lines options single) :=
  (starts_of_inPlace paired parsed sameTree flush level).imp fun _ _ starts => starts.1

/-- Level lines start at the depths at which they start when they are written in place. -/
theorem sameDepth_of_inPlace :
    List.Forall₂ Line.SameDepth (lines options document) (lines options single) :=
  (starts_of_inPlace paired parsed sameTree flush level).imp fun _ _ starts => starts.2

/-- **Inclusions on level lines.** Where the lines of an expanded document are level, keep no blanks
in front of braces of no width and hold no comments, it is laid out like the document that is
written with the included ones in place. -/
theorem format_eq_of_inPlace
    (uncommented : ∀ token ∈ tokens options document, token.isComment = false) :
    document.format options = single.format options :=
  format_eq_of_sameDepth uncommented (alike_of_inPlace paired parsed sameTree) flush
    (sameSetting_of_inPlace paired parsed sameTree flush level)
    (sameDepth_of_inPlace paired parsed sameTree flush level)

end

mutual

/-- Whether two nodes are equal; inclusions are not compared. -/
def sameNode : Node → Node → Bool
  | .leaf id placed, .leaf otherId other => id = otherId && placed = other
  | .group id delimiter opener children closer span,
    .group otherId otherDelimiter otherOpener others otherCloser otherSpan =>
    (id, delimiter, opener, closer, span) =
      (otherId, otherDelimiter, otherOpener, otherCloser, otherSpan) && sameNodes children others
  | .math id display opener children closer span,
    .math otherId otherDisplay otherOpener others otherCloser otherSpan =>
    (id, display, opener, closer, span) =
      (otherId, otherDisplay, otherOpener, otherCloser, otherSpan) && sameNodes children others
  | .command invocation, .command other => sameCommand invocation other
  | .environment id name opening body none matched span,
    .environment otherId otherName otherOpening others none otherMatched otherSpan =>
    (id, name, matched, span) = (otherId, otherName, otherMatched, otherSpan) &&
      sameCommand opening otherOpening && sameNodes body others
  | .environment id name opening body (some ending) matched span,
    .environment otherId otherName otherOpening others (some other) otherMatched otherSpan =>
    (id, name, matched, span) = (otherId, otherName, otherMatched, otherSpan) &&
      sameCommand opening otherOpening && sameNodes body others && sameCommand ending other
  | _, _ => false

/-- Whether two commands are the same. -/
def sameCommand : Command → Command → Bool
  | ⟨id, name, head, star, arguments, span⟩,
    ⟨otherId, otherName, otherHead, otherStar, others, otherSpan⟩ =>
    (id, name, head, star, span) = (otherId, otherName, otherHead, otherStar, otherSpan) &&
      sameArguments arguments others

/-- Whether two lists of nodes are the same. -/
def sameNodes : List Node → List Node → Bool
  | [], [] => true
  | node :: rest, other :: others => sameNode node other && sameNodes rest others
  | _, _ => false

/-- Whether two lists of arguments are the same. -/
def sameArguments : List Argument → List Argument → Bool
  | [], [] => true
  | ⟨kind, leading, content⟩ :: rest, ⟨otherKind, otherLeading, other⟩ :: others =>
    kind = otherKind && sameNodes leading otherLeading && sameNode content other &&
      sameArguments rest others
  | _, _ => false

end

mutual

/-- The comparison of nodes is sound. -/
theorem eq_of_sameNode : (node other : Node) → sameNode node other = true → node = other
  | .leaf id placed, other, same => by
    cases other <;> simp_all [sameNode]
  | .group _ _ _ children _ _, other, same => by
    cases other with
    | group _ _ _ others _ _ =>
      have inside := eq_of_sameNodes children others
      simp_all [sameNode]
    | _ => simp [sameNode] at same
  | .math _ _ _ children _ _, other, same => by
    cases other with
    | math _ _ _ others _ _ =>
      have inside := eq_of_sameNodes children others
      simp_all [sameNode]
    | _ => simp [sameNode] at same
  | .command invocation, other, same => by
    cases other with
    | command other => rw [eq_of_sameCommand invocation other (by simpa [sameNode] using same)]
    | _ => simp [sameNode] at same
  | .environment _ _ opening body none _ _, other, same => by
    cases other with
    | environment _ _ otherOpening others ending _ _ =>
      have head := eq_of_sameCommand opening otherOpening
      have inside := eq_of_sameNodes body others
      cases ending <;> simp_all [sameNode]
    | _ => simp [sameNode] at same
  | .environment _ _ opening body (some ending) _ _, other, same => by
    cases other with
    | environment _ _ otherOpening others otherEnding _ _ =>
      cases otherEnding with
      | none => simp [sameNode] at same
      | some otherEnding =>
        have head := eq_of_sameCommand opening otherOpening
        have inside := eq_of_sameNodes body others
        have last := eq_of_sameCommand ending otherEnding
        simp_all [sameNode]
    | _ => simp [sameNode] at same
  | .inclusion _ _ _ _ _ _, other, same => by
    cases other <;> simp [sameNode] at same

theorem eq_of_sameCommand : (invocation other : Command) → sameCommand invocation other = true →
    invocation = other
  | ⟨_, _, _, _, arguments, _⟩, ⟨_, _, _, _, others, _⟩, same => by
    have inside := eq_of_sameArguments arguments others
    simp_all [sameCommand]

theorem eq_of_sameNodes : (nodes others : List Node) → sameNodes nodes others = true →
    nodes = others
  | [], [], _ => rfl
  | [], _ :: _, same => by simp [sameNodes] at same
  | _ :: _, [], same => by simp [sameNodes] at same
  | node :: rest, other :: others, same => by
    rw [sameNodes, Bool.and_eq_true] at same
    rw [eq_of_sameNode node other same.1, eq_of_sameNodes rest others same.2]

theorem eq_of_sameArguments : (arguments others : List Argument) →
    sameArguments arguments others = true → arguments = others
  | [], [], _ => rfl
  | [], _ :: _, same => by simp [sameArguments] at same
  | _ :: _, [], same => by simp [sameArguments] at same
  | ⟨_, leading, content⟩ :: rest, ⟨_, otherLeading, other⟩ :: others, same => by
    have before := eq_of_sameNodes leading otherLeading
    have inside := eq_of_sameNode content other
    have later := eq_of_sameArguments rest others
    simp_all [sameArguments]

end

/-- A text that includes a file within a line, and a file between spaces, is laid out as it is
written in place. -/
theorem format_eq_of_inPlace_twiceIncluding :
    ∃ document expanded single,
      Document.parse twiceIncluding .standard .standard 0 = .ok document ∧
      (expand besideLetter document Scope.empty (.empty letterDisk.currentDirectory)).outcome =
        .ok (expanded, []) ∧
      Document.parse expanded.sourceText .standard .standard 0 = .ok single ∧
      isSealed .standard expanded.root = true ∧
      inPlace .standard single.root = inPlace .standard expanded.root ∧
      (∀ line ∈ lines .standard expanded, line.Seamless) ∧
      AreLevel 0 (lines .standard expanded) ∧
      (∀ token ∈ tokens .standard expanded, token.isComment = false) ∧
      expanded.format .standard = single.format .standard := by
  obtain ⟨document, expanded, parsed, done, passes⟩ :=
    exists_outcome besideLetter twiceIncluding 20
      (fun _ expanded => (Document.parse expanded.sourceText .standard .standard 0).toOption.any
        fun single => isSealed .standard expanded.root &&
          sameNodes (inPlace .standard single.root) (inPlace .standard expanded.root) &&
          decide ((∀ line ∈ lines .standard expanded, line.Seamless) ∧
            AreLevel 0 (lines .standard expanded) ∧
            ∀ token ∈ tokens .standard expanded, token.isComment = false))
      (by decide +kernel)
  obtain ⟨single, reread, passes⟩ := Document.exists_parse_of_any passes
  simp only [Bool.and_eq_true, decide_eq_true_eq] at passes
  obtain ⟨⟨paired, same⟩, flush, level, uncommented⟩ := passes
  have sameTree := eq_of_sameNodes _ _ same
  exact ⟨document, expanded, single, parsed, done, reread, paired, sameTree, flush, level,
    uncommented, format_eq_of_inPlace paired reread sameTree flush level uncommented⟩

end Layout

end TexSource
