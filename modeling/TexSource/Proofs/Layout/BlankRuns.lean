import TexSource.Proofs.Document.Borders
import TexSource.Proofs.Layout
import TexSource.Proofs.Layout.Standing

/-!
# Runs of blanks

Of two blanks side by side in a document either both are verbatim or none (`Layout.Even`): no
verbatim body starts or ends between blanks, since constructs have no blanks at their borders
(`Parser.Reads.tight`). So a line of blanks is verbatim as a whole or not at all.
-/

namespace TexSource

namespace Parser

variable {commands : CommandTable} {level : Nat} {mode : Mode} {ahead middle after : List Token}
  {piece : Piece} {reports : List Report}

/-- None of some nodes includes a document. -/
def AllOwn (nodes : List Node) : Prop :=
  ∀ node ∈ nodes, node.isInclusion = false

theorem allOwn_cons {node : Node} {nodes : List Node} (first : node.isInclusion = false)
    (later : AllOwn nodes) : AllOwn (node :: nodes) :=
  List.forall_mem_cons.mpr ⟨first, later⟩

theorem AllOwn.append {nodes others : List Node} (first : AllOwn nodes) (second : AllOwn others) :
    AllOwn (nodes ++ others) :=
  List.forall_mem_append.mpr ⟨first, second⟩

theorem allOwn_leaves {tokens : List Token} {nodes : List Node} (leaves : Leaves tokens nodes) :
    AllOwn (walkAll nodes) := by
  induction leaves with
  | nil => exact List.forall_mem_nil _
  | cons id placed later ih => exact allOwn_cons rfl ih

theorem Reads.own (read : Reads commands level mode ahead piece after reports) :
    AllOwn piece.walk := by
  induction read with
  | next _ _ _ first later => exact first.append later
  | unopened _ _ _ ih => exact ih
  | group _ _ _ _ ih => exact allOwn_cons rfl ih
  | flatGroup _ _ leaves => exact allOwn_cons rfl (allOwn_leaves leaves)
  | strayEnding _ _ ih => exact ih
  | math _ _ _ _ _ _ ih => exact allOwn_cons rfl ih
  | @environment _ _ _ _ _ _ ending _ _ _ _ _ _ _ _ _ _ _ _ head inside behind =>
    cases ending with
    | none => exact allOwn_cons rfl (head.append inside)
    | some ending => exact allOwn_cons rfl ((head.append inside).append (by simpa using behind))
  | nameless _ _ _ _ ih => exact ih
  | plainCommand _ _ ih => exact ih
  | command _ _ _ _ _ ih => exact allOwn_cons rfl ih
  | omitted _ _ ih => exact ih
  | optional _ leading _ _ first later =>
    exact ((allOwn_leaves leading).append first).append later
  | bracket _ _ _ _ ih => exact allOwn_cons rfl ih
  | braced leading _ _ _ first later => exact ((allOwn_leaves leading).append first).append later
  | single leading _ _ _ _ ih =>
    exact ((allOwn_leaves leading).append (allOwn_cons rfl (List.forall_mem_nil _))).append ih
  | opening _ _ _ leading _ _ _ _ first later =>
    exact allOwn_cons rfl (((allOwn_leaves leading).append first).append later)
  | namedEnding _ _ _ leading _ _ ih =>
    exact allOwn_cons rfl (((allOwn_leaves leading).append ih).append (List.forall_mem_nil _))
  | verbatimBody _ leaves => exact allOwn_leaves leaves
  | textBody _ _ _ ih => exact ih
  | ended _ ih => simpa using ih
  | stop | noArguments | missing | unended => exact List.forall_mem_nil _
  | strayGroupEnd | leaf | namelessEnding => exact allOwn_cons rfl (List.forall_mem_nil _)

end Parser

namespace Layout

variable {options : Options}

/-- If two items are blanks, both are verbatim or none is. -/
def Item.Agrees (item next : Item) : Prop :=
  item.token.isBlank = true → next.token.isBlank = true → item.verbatim = next.verbatim

/-- Blanks side by side agree. -/
def Even (items : List Item) : Prop :=
  items.IsChain Item.Agrees

/-- The first of some items is not verbatim. -/
def StartsPlain (items : List Item) : Prop :=
  items.head?.any Item.verbatim = false

theorem StartsPlain.append {items others : List Item} (first : StartsPlain items)
    (second : StartsPlain others) : StartsPlain (items ++ others) := by
  cases items with
  | nil => exact second
  | cons => exact first

theorem StartsPlain.verbatim {items : List Item} (starts : StartsPlain items) :
    ∀ first ∈ items.head?, first.verbatim = false := by
  cases items with
  | nil => exact fun _ absent => absurd absent (Option.not_mem_none _)
  | cons first rest => simpa [StartsPlain] using starts

theorem startsPlain_delimiter (depth : Nat) (block : Option Text) (delimiter : Option Placed) :
    StartsPlain (delimiterItems depth block delimiter) := by
  cases delimiter <;> rfl

mutual

theorem startsPlain_node (depth : Nat) (block : Option Text) : (node : Node) →
    StartsPlain (nodeItems options depth block node)
  | .leaf _ _ => rfl
  | .group _ _ none children _ _ =>
    (startsPlain_nodes depth block children).append (startsPlain_delimiter ..)
  | .group _ _ (some _) _ _ _ => rfl
  | .math _ _ _ _ _ _ => rfl
  | .command ⟨_, _, _, _, _, _⟩ => rfl
  | .environment _ _ ⟨_, _, _, _, _, _⟩ _ none _ _ => rfl
  | .environment _ _ ⟨_, _, _, _, _, _⟩ _ (some _) _ _ => rfl
  | .inclusion _ _ _ _ ⟨_, _, _, root, _, _⟩ _ => startsPlain_node depth block root

theorem startsPlain_nodes (depth : Nat) (block : Option Text) : (nodes : List Node) →
    StartsPlain (nodesItems options depth block nodes)
  | [] => rfl
  | node :: rest =>
    (startsPlain_node depth block node).append (startsPlain_nodes depth block rest)

end

theorem startsPlain_arguments (depth : Nat) (block : Option Text) (arguments : List Argument) :
    StartsPlain (argumentsItems options depth block arguments) := by
  induction arguments with
  | nil => rfl
  | cons argument rest ih =>
    obtain ⟨kind, leading, content⟩ := argument
    exact ((startsPlain_nodes depth block leading).append
      (startsPlain_node depth block content)).append ih

namespace Even

variable {items others : List Item}

theorem of_plain (plain : ∀ item ∈ items, item.verbatim = false) : Even items :=
  List.Pairwise.isChain <| List.pairwise_of_forall_mem_list fun item member next later _ _ =>
    (plain item member).trans (plain next later).symm

theorem verbatimItems (depth : Nat) (body : List Node) : Even (verbatimItems depth body) := by
  refine List.Pairwise.isChain <| List.pairwise_of_forall_mem_list
    fun item member next later _ _ => ?_
  obtain ⟨placed, -, rfl⟩ := List.mem_map.mp member
  obtain ⟨other, -, rfl⟩ := List.mem_map.mp later
  rfl

/-- Behind items that are not verbatim. -/
theorem append_plain (plain : ∀ item ∈ items, item.verbatim = false) (second : Even others)
    (starts : StartsPlain others) : Even (items ++ others) :=
  List.isChain_append.mpr ⟨of_plain plain, second, fun last ends next opens _ _ =>
    (plain last (List.mem_of_getLast? ends)).trans (starts.verbatim next opens).symm⟩

/-- Behind items that end tight. -/
theorem append_tight (first : Even items) (second : Even others) {tokens : List Placed}
    {middle after : List Token} (same : items.map Item.token = tokens.map Placed.token)
    (tight : Parser.Tight tokens middle)
    (splits : Parser.Splits middle (others.map Item.token ++ after)) : Even (items ++ others) := by
  refine List.isChain_append.mpr ⟨first, second, fun last ends next opens blank also => ?_⟩
  have found : tokens.getLast?.map Placed.token = some last.token := by
    rw [← List.getLast?_map, ← same, List.getLast?_map, Option.mem_def.mp ends]
    rfl
  have head := splits.head
  rw [tight, List.head?_append, List.head?_map, Option.mem_def.mp opens] at head
  · simp [also] at head
  · obtain ⟨placed, ends, token⟩ := Option.map_eq_some_iff.mp found
    simp [ends, token, blank]

/-- Between delimiters. -/
theorem delimited {inner : List Item} (even : Even inner) (starts : StartsPlain inner)
    {opener : Item} (plain : opener.verbatim = false) (depth : Nat) (block : Option Text)
    {closer : Option Placed} (solid : ∀ placed ∈ closer, placed.token.isBlank = false) :
    Even (opener :: inner ++ delimiterItems depth block closer) := by
  have front : Even ([opener] ++ inner) := append_plain (by simpa using plain) even starts
  refine List.isChain_append.mpr ⟨front, ?_, fun last _ next opens _ blank => ?_⟩
  · cases closer with
    | none => exact .nil
    | some => exact .singleton _
  · cases closer with
    | none => cases opens
    | some placed =>
      cases opens
      exact absurd blank (by simp [solid placed rfl])

end Even

end Layout

namespace Parser

open Layout

variable {commands : CommandTable} {level : Nat} {mode : Mode} {ahead middle after : List Token}
  {piece : Piece} {reports : List Report} {options : Options}

/-- In what is read, blanks side by side agree. -/
def Piece.Even (options : Options) : Piece → Prop
  | .sequence _ nodes => ∀ depth block, Layout.Even (nodesItems options depth block nodes)
  | .node content => ∀ depth block, Layout.Even (nodeItems options depth block content)
  | .bracket content => ∀ depth block, Layout.Even (nodeItems options depth block content)
  | .command invocation =>
    ∀ depth block key, Layout.Even (commandItems options depth block key invocation)
  | .arguments _ _ _ found => ∀ depth block, Layout.Even (argumentsItems options depth block found)
  | .opening invocation _ =>
    ∀ depth block key, Layout.Even (commandItems options depth block key invocation)
  | .ending invocation _ =>
    ∀ depth block key, Layout.Even (commandItems options depth block key invocation)
  | .body _ nodes => ∀ depth block, Layout.Even (nodesItems options depth block nodes)
  | .behindBody found => ∀ ending ∈ found, ∀ depth block key,
    Layout.Even (commandItems options depth block key ending.1)

theorem plain_leaves {tokens : List Token} {nodes : List Node} (leaves : Leaves tokens nodes)
    (depth : Nat) (block : Option Text) :
    ∀ item ∈ nodesItems options depth block nodes, item.verbatim = false := by
  induction leaves with
  | nil => exact List.forall_mem_nil _
  | cons id placed later ih => exact List.forall_mem_cons.mpr ⟨rfl, ih⟩

/-- Behind a node. -/
theorem even_behind {content : Node} {others : List Item} {depth : Nat} {block : Option Text}
    (first : Layout.Even (nodeItems options depth block content)) (second : Layout.Even others)
    (starts : StartsPlain others) (own : AllOwn content.walk)
    (tight : (Piece.node content).Tight middle)
    (splits : Splits middle (others.map Item.token ++ after)) :
    Layout.Even (nodeItems options depth block content ++ others) := by
  have same := nodeItems_tokens options depth block content own
  cases content with
  | leaf id placed => exact .append_plain (List.forall_mem_singleton.mpr rfl) second starts
  | _ => exact first.append_tight second same tight splits

/-- An argument, with skipped tokens before it. -/
theorem even_argument (kind : ArgumentKind) {tokens : List Token} {leading : List Node}
    {content : Node} {found : List Argument} (leaves : Leaves tokens leading) {depth : Nat}
    {block : Option Text} (first : Layout.Even (nodeItems options depth block content))
    (later : Layout.Even (argumentsItems options depth block found)) (own : AllOwn content.walk)
    (others : AllOwn (walkArguments found)) (tight : (Piece.node content).Tight middle)
    (splits : Splits middle ((placedArguments found).map Placed.token ++ after)) :
    Layout.Even (argumentsItems options depth block (⟨kind, leading, content⟩ :: found)) := by
  rw [← argumentsItems_tokens options depth block found others] at splits
  have behind := even_behind first later (startsPlain_arguments ..) own tight splits
  rw [argumentsItems, List.append_assoc]
  exact .append_plain (plain_leaves leaves depth block) behind
    ((startsPlain_node depth block content).append (startsPlain_arguments ..))

/-- The arguments of a command behind its head. -/
theorem even_command {id : NodeId} {name : Text} {head : Placed} {star : Option Placed}
    {arguments : List Argument} {span : Span}
    (even : ∀ depth block, Layout.Even (argumentsItems options depth block arguments)) (depth : Nat)
    (block key : Option Text) :
    Layout.Even (commandItems options depth block key ⟨id, name, head, star, arguments, span⟩) := by
  refine .append_plain (fun item member => ?_) (even depth _) (startsPlain_arguments ..)
  rcases List.mem_cons.mp member with rfl | member
  · rfl
  · obtain ⟨placed, -, rfl⟩ := List.mem_map.mp member
    rfl

/-- The body of an environment, whether it is verbatim or not. -/
theorem even_body {body : List Node} (even : ∀ depth block,
    Layout.Even (nodesItems options depth block body)) (own : AllOwn (walkAll body)) (name : Text)
    (depth : Nat) (block : Option Text) :
    let items := if options.verbatimEnvironments.contains name then verbatimItems depth body
      else nodesItems options depth block body
    Layout.Even items ∧ items.map Item.token = (placedAll body).map Placed.token := by
  intro items
  unfold items
  split
  · exact ⟨.verbatimItems depth body, by simp [verbatimItems, Function.comp_def]⟩
  · exact ⟨even depth block, nodesItems_tokens options depth block body own⟩

/-- **Runs of blanks.** In what is read, blanks side by side agree. -/
theorem Reads.even (read : Reads commands level mode ahead piece after reports)
    (options : Options) : piece.Even options := by
  induction read with
  | stop => exact fun _ _ => .nil
  | @next _ _ _ _ _ _ _ _ nodes _ _ _ first later ih others =>
    intro depth block
    have splits := later.splits
    rw [Piece.placed, ← nodesItems_tokens options depth block nodes later.own] at splits
    exact even_behind (ih depth block) (others depth block) (startsPlain_nodes depth block nodes)
      first.own first.tight splits
  | unopened _ _ _ ih => exact ih
  | group _ _ _ closes ih =>
    exact fun depth block => .delimited (ih _ _) (startsPlain_nodes ..) rfl depth block
      fun _ found => Token.isBlank_of_isEndGroup (closes.forall_mem _ found)
  | flatGroup _ _ leaves closes =>
    exact fun depth block => .delimited (.of_plain (plain_leaves leaves _ _))
      (startsPlain_nodes ..) rfl depth block
      fun _ found => Token.isBlank_of_isEndGroup (closes.forall_mem _ found)
  | strayGroupEnd => exact fun _ _ => .singleton _
  | strayEnding _ _ ih => exact fun depth block => ih depth block _
  | math _ _ _ _ _ closes ih =>
    exact fun depth block => .delimited (ih _ _) (startsPlain_nodes ..) rfl depth block
      fun _ found => isBlank_of_isAt (closes.forall_mem _ found)
  | @environment _ _ _ name opening body ending _ _ _ _ _ _ _ _ _ opened content ended head inside
      behind =>
    intro depth block
    obtain ⟨even, same⟩ := even_body inside content.own name (bodyDepth options depth name) block
    have names := commandItems_tokens options depth block
      (majorKey? options ("begin" ++ Problem.braced name)) opening opened.own
    have splits := content.splits
    rw [Piece.placed, ← same] at splits
    have front := (head depth block _).append_tight even names opened.tight splits
    cases ending with
    | none => exact front
    | some ending =>
      have splits := ended.splits
      have own : AllOwn ending.1.walk := by simpa using ended.own
      have tokens := commandItems_tokens options depth block
        (majorKey? options ("end" ++ Problem.braced name)) ending.1 own
      rw [Piece.placed, Option.toList_some, List.flatMap_singleton, ← tokens] at splits
      refine front.append_tight (behind ending rfl depth block _) ?_
        (opened.tight.append content.tight content.splits) splits
      rw [List.map_append, names, same, Piece.placed, Piece.placed, List.map_append]
  | nameless _ _ _ _ ih => exact fun depth block => ih depth block _
  | plainCommand _ _ ih => exact fun depth block => ih depth block _
  | leaf => exact fun _ _ => .singleton _
  | command _ _ _ _ _ ih => exact even_command ih
  | noArguments => exact fun _ _ => .nil
  | omitted _ _ ih => exact ih
  | optional _ leading read later first ih =>
    obtain ⟨id, opener, children, closer, span, rfl⟩ := read.group_bracket
    exact fun depth block => even_argument .optional leading (first depth block) (ih depth block)
      read.own later.own read.tight later.splits
  | bracket _ _ _ closes ih =>
    exact fun depth block => .delimited (ih _ _) (startsPlain_nodes ..) rfl depth block
      fun _ found => Token.isBlank_of_isCharacter (closes.forall_mem _ found)
  | missing => exact fun _ _ => .nil
  | braced leading _ read later first ih =>
    exact fun depth block => even_argument .mandatory leading (first depth block) (ih depth block)
      read.own later.own read.tight later.splits
  | single leading _ _ _ later ih =>
    exact fun depth block => even_argument .mandatory leading (.singleton _) (ih depth block)
      (List.forall_mem_singleton.mpr rfl) later.own trivial later.splits
  | opening _ _ _ leading _ named _ later first ih =>
    exact even_command fun depth block => even_argument .mandatory leading (first depth block)
      (ih depth block) named.own later.own named.tight later.splits
  | namedEnding _ _ _ leading _ named ih =>
    exact even_command fun depth block => even_argument .mandatory leading (ih depth block) .nil
      named.own (List.forall_mem_nil _) named.tight (.refl _)
  | namelessEnding => exact even_command fun _ _ => .nil
  | verbatimBody _ leaves => exact fun depth block => .of_plain (plain_leaves leaves depth block)
  | textBody _ _ _ ih => exact ih
  | unended => exact fun _ absent => absurd absent (Option.not_mem_none _)
  | ended _ ih =>
    intro ending present
    cases present
    exact ih

end Parser

namespace Document

variable {source : Text} {table : Catcode.Table} {commands : CommandTable} {fileId : FileId}
  {document : Document}

/-- In a parsed document blanks side by side agree, and its first token is not verbatim. -/
theorem even_of_parse (parsed : parse source table commands fileId = .ok document)
    (options : Layout.Options) :
    Layout.Even (Layout.nodeItems options 0 none document.root) ∧
      Layout.StartsPlain (Layout.nodeItems options 0 none document.root) := by
  refine ⟨?_, Layout.startsPlain_node ..⟩
  obtain ⟨tokens, reports, diagnostics, read, rfl⟩ := Expansion.document_of_parse parsed
  obtain ⟨children, others, derived⟩ := derived_ofTokens tokens source fileId commands
  obtain ⟨span, root⟩ := derived.root
  change Layout.Even (Layout.nodeItems options 0 none (ofTokens tokens source fileId commands).root)
  rw [root]
  simpa [Layout.nodeItems, Layout.delimiterItems] using derived.reads.even options 0 none

end Document

end TexSource
