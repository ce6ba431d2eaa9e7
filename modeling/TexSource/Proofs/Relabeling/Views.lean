import Mathlib.Logic.Equiv.Basic
import TexSource.Highlight
import TexSource.Layout
import TexSource.Proofs.Relabeling.Trees

/-!
# Views of a document with new numbers for files

The layout of a document does not depend on the numbers of files (`Document.format_relabel`). Nor
do the stretches that it is highlighted in, where no two files get one number
(`Document.highlight_relabel`).
-/

namespace TexSource

variable {relabeling : Relabeling}

namespace Layout

variable {options : Options}

/-- An item of a layout with its file id renamed. -/
def Item.relabel (relabeling : Relabeling) (item : Item) : Item :=
  { item with token := item.token.relabel relabeling }

@[simp] theorem Item.token_relabel (item : Item) :
    (item.relabel relabeling).token = item.token.relabel relabeling := rfl

@[simp] theorem Item.depth_relabel (item : Item) :
    (item.relabel relabeling).depth = item.depth := rfl

@[simp] theorem Item.verbatim_relabel (item : Item) :
    (item.relabel relabeling).verbatim = item.verbatim := rfl

/-- A line of a layout with its file ids renamed. -/
def Line.relabel (relabeling : Relabeling) (line : Line) : Line :=
  ⟨line.items.map (Item.relabel relabeling), line.lineEnd.map (Item.relabel relabeling)⟩

theorem delimiterItems_relabel (depth : Nat) (block : Option Text) (delimiter : Option Placed) :
    delimiterItems depth block (delimiter.map (Placed.relabel relabeling)) =
      (delimiterItems depth block delimiter).map (Item.relabel relabeling) := by
  cases delimiter <;> rfl

theorem verbatimItems_relabel (depth : Nat) (body : List Node) :
    verbatimItems depth (relabelAll relabeling body) =
      (verbatimItems depth body).map (Item.relabel relabeling) := by
  simp [verbatimItems, placedAll_relabelAll, Item.relabel]

mutual

/-- A node is laid out alike. -/
theorem nodeItems_relabel (depth : Nat) (block : Option Text) : (node : Node) →
    nodeItems options depth block (node.relabel relabeling) =
      (nodeItems options depth block node).map (Item.relabel relabeling)
  | .leaf _ _ => rfl
  | .group _ _ none children _ _ => by
    simp only [Node.relabel, Option.map_none, nodeItems, nodesItems_relabel _ _ children,
      delimiterItems_relabel, List.map_append]
  | .group _ _ (some _) children _ _ => by
    simp only [Node.relabel, Option.map_some, nodeItems, nodesItems_relabel _ _ children,
      delimiterItems_relabel, List.map_append, List.map_cons, Item.relabel, Placed.token_relabel]
  | .math _ _ _ children _ _ => by
    simp only [Node.relabel, nodeItems, nodesItems_relabel _ _ children, delimiterItems_relabel,
      List.map_append, List.map_cons, Item.relabel, Placed.token_relabel]
  | .command ⟨id, name, head, star, arguments, span⟩ =>
    commandItems_relabel depth block _ ⟨id, name, head, star, arguments, span⟩
  | .environment _ _ opening body none _ _ => by
    simp only [Node.relabel, nodeItems, commandItems_relabel _ _ _ opening, List.map_append]
    split <;> simp only [verbatimItems_relabel, nodesItems_relabel _ _ body]
  | .environment _ _ opening body (some ending) _ _ => by
    simp only [Node.relabel, nodeItems, commandItems_relabel _ _ _ opening,
      commandItems_relabel _ _ _ ending, List.map_append]
    split <;> simp only [verbatimItems_relabel, nodesItems_relabel _ _ body]
  | .inclusion _ _ _ _ ⟨_, _, _, root, _, _⟩ _ => nodeItems_relabel depth block root

theorem commandItems_relabel (depth : Nat) (block key : Option Text) : (invocation : Command) →
    commandItems options depth block key (invocation.relabel relabeling) =
      (commandItems options depth block key invocation).map (Item.relabel relabeling)
  | ⟨_, _, _, _, arguments, _⟩ => by
    simp only [Command.relabel, commandItems, argumentsItems_relabel _ _ arguments,
      delimiterItems_relabel, List.map_append, List.map_cons, Item.relabel, Placed.token_relabel]

theorem nodesItems_relabel (depth : Nat) (block : Option Text) : (nodes : List Node) →
    nodesItems options depth block (relabelAll relabeling nodes) =
      (nodesItems options depth block nodes).map (Item.relabel relabeling)
  | [] => rfl
  | node :: rest => by
    simp only [relabelAll, nodesItems, nodeItems_relabel _ _ node, nodesItems_relabel _ _ rest,
      List.map_append]

theorem argumentsItems_relabel (depth : Nat) (block : Option Text) : (arguments : List Argument) →
    argumentsItems options depth block (relabelArguments relabeling arguments) =
      (argumentsItems options depth block arguments).map (Item.relabel relabeling)
  | [] => rfl
  | ⟨_, leading, content⟩ :: rest => by
    simp only [relabelArguments, argumentsItems, nodesItems_relabel _ _ leading,
      nodeItems_relabel _ _ content, argumentsItems_relabel _ _ rest, List.map_append]

end

/-- Items are broken into the same lines. -/
theorem linesFrom_relabel (current items : List Item) :
    linesFrom (current.map (Item.relabel relabeling)) (items.map (Item.relabel relabeling)) =
      (linesFrom current items).map (Line.relabel relabeling) := by
  induction items generalizing current with
  | nil =>
    cases current with
    | nil => rfl
    | cons item rest => simp [linesFrom, Line.relabel]
  | cons item rest ih =>
    rw [List.map_cons, linesFrom, linesFrom]
    have same : (item.relabel relabeling).token.isEndOfLine = item.token.isEndOfLine := rfl
    rw [same]
    split
    · have later := ih []
      rw [List.map_nil] at later
      simp [later, Line.relabel]
    · exact ih (item :: current)

/-- **A document** is laid out in the same lines. -/
theorem lines_relabel (document : Document) :
    lines options (document.relabel relabeling) =
      (lines options document).map (Line.relabel relabeling) := by
  rw [lines, Document.root_relabel, nodeItems_relabel]
  exact linesFrom_relabel [] _

namespace Line

variable (line : Line)

theorem first?_relabel :
    (line.relabel relabeling).first? = line.first?.map (Item.relabel relabeling) := by
  simp [first?, relabel, List.find?_map, Function.comp_def]

theorem isRaw_relabel : (line.relabel relabeling).isRaw = line.isRaw := by
  unfold isRaw
  rw [first?_relabel]
  cases line.first? with
  | none => simp [relabel, List.any_map, Function.comp_def, Option.any_map]
  | some item => rfl

theorem rawText_relabel : (line.relabel relabeling).rawText = line.rawText := by
  simp [rawText, relabel, List.flatMap_map]

theorem dropWhile_relabel : (line.relabel relabeling).items.dropWhile (·.token.isSpace) =
    (line.items.dropWhile (·.token.isSpace)).map (Item.relabel relabeling) := by
  simp [relabel, List.dropWhile_map, Function.comp_def]

theorem isCommentOnly_relabel : (line.relabel relabeling).isCommentOnly = line.isCommentOnly := by
  unfold isCommentOnly
  rw [dropWhile_relabel]
  generalize line.items.dropWhile (·.token.isSpace) = items
  rcases items with _ | ⟨first, _ | ⟨second, rest⟩⟩ <;> rfl

theorem isCode_relabel : (line.relabel relabeling).isCode = line.isCode := by
  rw [isCode, isRaw_relabel, first?_relabel, isCommentOnly_relabel, Option.isSome_map]
  rfl

end Line

/-- Whether a document has code does not depend on files. -/
theorem hasCode_relabel (document : Document) :
    hasCode options (document.relabel relabeling) = hasCode options document := by
  simp [hasCode, lines_relabel, List.any_map, Function.comp_def, Line.isCode_relabel]

variable (relabeling) in
theorem trimEnd_relabel (items : List Item) :
    trimEnd (items.map (Item.relabel relabeling)) =
      (trimEnd items).map (Item.relabel relabeling) := by
  simp [trimEnd, ← List.map_reverse, List.dropWhile_map, Function.comp_def]

variable (relabeling) in
theorem textOf_relabel (items : List Item) :
    textOf (items.map (Item.relabel relabeling)) = textOf items := by
  unfold textOf
  rw [List.getLast?_map]
  cases items.getLast? with
  | none => rfl
  | some last => simp [← List.map_dropLast, List.flatMap_map]

theorem endsInBlanks_relabel (items : List Item) :
    endsInBlanks (items.map (Item.relabel relabeling)) = endsInBlanks items := by
  unfold endsInBlanks
  rw [List.getLast?_map]
  cases items.getLast? <;> rfl

variable (relabeling) in
theorem commentGap_relabel (code : Text) (items : List Item) (comment : Token) :
    commentGap code (items.map (Item.relabel relabeling)) (comment.relabel relabeling) =
      commentGap code items comment := by
  rw [commentGap, endsInBlanks_relabel]
  rfl

/-- A line of code is printed alike. -/
theorem codeLine_relabel (indent : Text) (line : Line) :
    codeLine indent (line.relabel relabeling) = codeLine indent line := by
  unfold codeLine
  rw [Line.dropWhile_relabel, trimEnd_relabel]
  generalize trimEnd (line.items.dropWhile (·.token.isSpace)) = items
  dsimp only
  rw [List.getLast?_map]
  rcases items with _ | ⟨first, _ | ⟨second, rest⟩⟩
  · rfl
  · exact congrArg (margin indent first.depth ++ ·) (textOf_relabel relabeling [first])
  · have before := trimEnd_relabel relabeling (first :: second :: rest).dropLast
    have whole := textOf_relabel relabeling (first :: second :: rest)
    cases ends : (first :: second :: rest).getLast? with
    | none => simp at ends
    | some last =>
      have gap := fun code => commentGap_relabel relabeling code
        (first :: second :: rest).dropLast last.token
      rw [List.map_dropLast] at before
      simp only [List.map_dropLast, List.map_cons, Option.map_some] at before whole gap ⊢
      rw [before, textOf_relabel, whole]
      simp only [Item.token_relabel, Item.depth_relabel, gap]
      rfl

namespace Page

/-- A line is added to a page alike. -/
theorem add_relabel (page : Page) (line : Line) :
    page.add options (line.relabel relabeling) = page.add options line := by
  unfold add
  rw [Line.isRaw_relabel, Line.rawText_relabel, Line.first?_relabel, Line.isCommentOnly_relabel,
    codeLine_relabel]
  cases line.first? <;> rfl

end Page

end Layout

/-- **The layout of a document does not depend on the numbers of files.** -/
theorem Document.format_relabel (options : Layout.Options) (document : Document) :
    (document.relabel relabeling).format options = document.format options := by
  simp only [Document.format, Layout.lines_relabel, List.foldl_map, Layout.Page.add_relabel]

namespace Highlight

/-- A mark of the highlighter with its file id renamed. -/
def Mark.relabel (relabeling : Relabeling) (mark : Mark) : Mark :=
  ⟨mark.token.relabel relabeling, mark.category⟩

/-- A stretch with its file id renamed. -/
def Stretch.relabel (relabeling : Relabeling) (stretch : Stretch) : Stretch :=
  ⟨stretch.span.relabel relabeling, stretch.category⟩

section

set_option linter.unusedSectionVars false

variable {fileId : FileId} {failed : List NodeId}
  (injective : ∀ first second, relabeling.span first = relabeling.span second → first = second)

include injective

/-- A token is marked in its own document only, whatever the file is called. -/
theorem mark_relabel (category context : Category) (token : Token) :
    mark (relabeling.span fileId) category context (token.relabel relabeling) =
      (mark fileId category context token).map (Mark.relabel relabeling) := by
  have same : relabeling.span token.span.fileId = relabeling.span fileId ↔
      token.span.fileId = fileId := ⟨injective _ _, congrArg _⟩
  unfold mark
  simp only [Token.expanded_relabel, Token.raw_relabel, Token.span_relabel, Token.kind_relabel,
    Span.relabel, ne_eq, same]
  rw [apply_ite (List.map (Mark.relabel relabeling))]
  rfl

theorem markDelimiter_relabel (category context : Category) (delimiter : Option Placed) :
    markDelimiter (relabeling.span fileId) category context
        (delimiter.map (Placed.relabel relabeling)) =
      (markDelimiter fileId category context delimiter).map (Mark.relabel relabeling) := by
  cases delimiter with
  | none => rfl
  | some placed => simpa [markDelimiter] using mark_relabel injective category context placed.token

theorem markName_relabel (context : Category) (children : List Node) :
    markName (relabeling.span fileId) context (relabelAll relabeling children) =
      (markName fileId context children).map (Mark.relabel relabeling) := by
  simp only [markName, placedAll_relabelAll, List.flatMap_map, List.map_flatMap,
    Placed.token_relabel, mark_relabel injective]

mutual

/-- A node is marked alike. -/
theorem markNode_relabel (outer : Category) : (node : Node) →
    markNode (relabeling.span fileId) failed outer (node.relabel relabeling) =
      (markNode fileId failed outer node).map (Mark.relabel relabeling)
  | .leaf _ placed => mark_relabel injective _ _ placed.token
  | .group _ _ _ children _ _ => by
    simp only [Node.relabel, markNode, markDelimiter_relabel injective,
      markNodes_relabel _ children, List.map_append]
  | .math _ _ _ children _ _ => by
    simp only [Node.relabel, markNode, markDelimiter_relabel injective, Placed.token_relabel,
      mark_relabel injective, markNodes_relabel _ children, List.map_append]
  | .command invocation => markCommand_relabel outer invocation
  | .environment _ _ opening body none _ _ => by
    simp only [Node.relabel, markNode, markEnvironmentCommand_relabel _ opening,
      markNodes_relabel _ body, List.map_append]
  | .environment _ _ opening body (some ending) _ _ => by
    simp only [Node.relabel, markNode, markEnvironmentCommand_relabel _ opening,
      markEnvironmentCommand_relabel _ ending, markNodes_relabel _ body, List.map_append]
  | .inclusion _ directive _ _ _ _ => markCommand_relabel _ directive

theorem markCommand_relabel (outer : Category) : (invocation : Command) →
    markCommand (relabeling.span fileId) failed outer (invocation.relabel relabeling) =
      (markCommand fileId failed outer invocation).map (Mark.relabel relabeling)
  | ⟨_, _, _, _, arguments, _⟩ => by
    simp only [Command.relabel, markCommand, markDelimiter_relabel injective,
      Placed.token_relabel, mark_relabel injective, markArguments_relabel _ arguments,
      List.map_append]

theorem markEnvironmentCommand_relabel (outer : Category) : (invocation : Command) →
    markEnvironmentCommand (relabeling.span fileId) failed outer (invocation.relabel relabeling) =
      (markEnvironmentCommand fileId failed outer invocation).map (Mark.relabel relabeling)
  | ⟨_, _, _, _, [], _⟩ => by
    simp only [Command.relabel, relabelArguments, markEnvironmentCommand,
      markDelimiter_relabel injective, Placed.token_relabel, mark_relabel injective,
      List.map_append]
  | ⟨id, _, _, _, ⟨_, leading, content⟩ :: rest, _⟩ => by
    have before := markNodes_relabel (contextAt failed id outer) leading
    have inside := markNode_relabel ((contextAt failed id outer).stronger .environmentName) content
    have behind := markArguments_relabel (contextAt failed id outer) rest
    simp only [Command.relabel, relabelArguments]
    cases content with
    | group =>
      simp only [Node.relabel, markEnvironmentCommand, markDelimiter_relabel injective,
        markName_relabel injective, Placed.token_relabel, mark_relabel injective, before, behind,
        List.map_append]
    | environment =>
      simp only [Node.relabel_environment] at inside ⊢
      simp only [markEnvironmentCommand, Placed.token_relabel, mark_relabel injective, before,
        inside, behind, List.map_append]
    | _ =>
      simp only [Node.relabel] at inside ⊢
      simp only [markEnvironmentCommand, Placed.token_relabel, mark_relabel injective, before,
        inside, behind, List.map_append]

theorem markNodes_relabel (context : Category) : (nodes : List Node) →
    markNodes (relabeling.span fileId) failed context (relabelAll relabeling nodes) =
      (markNodes fileId failed context nodes).map (Mark.relabel relabeling)
  | [] => rfl
  | node :: rest => by
    simp only [relabelAll, markNodes, markNode_relabel _ node, markNodes_relabel _ rest,
      List.map_append]

theorem markArguments_relabel (context : Category) : (arguments : List Argument) →
    markArguments (relabeling.span fileId) failed context (relabelArguments relabeling arguments) =
      (markArguments fileId failed context arguments).map (Mark.relabel relabeling)
  | [] => rfl
  | ⟨_, leading, content⟩ :: rest => by
    simp only [relabelArguments, markArguments, markNodes_relabel _ leading,
      markNode_relabel _ content, markArguments_relabel _ rest, List.map_append]

end

end

/-- A stretch is extended alike. -/
theorem extend_relabel (fileId : FileId) (stretches : List Stretch) (start stop : Position)
    (category : Category) :
    extend (relabeling.span fileId) (stretches.map (Stretch.relabel relabeling)) start stop
        category =
      (extend fileId stretches start stop category).map (Stretch.relabel relabeling) := by
  unfold extend
  split
  · rfl
  · cases stretches with
    | nil => rfl
    | cons last others =>
      rw [List.map_cons]
      dsimp only
      rw [apply_ite (List.map (Stretch.relabel relabeling))]
      rfl

/-- Marks cover the same stretches. -/
theorem cover_relabel (fileId : FileId) (stretches : List Stretch) (reached : Position)
    (marks : List Mark) :
    cover (relabeling.span fileId) (stretches.map (Stretch.relabel relabeling)) reached
        (marks.map (Mark.relabel relabeling)) =
      ((cover fileId stretches reached marks).1.map (Stretch.relabel relabeling),
        (cover fileId stretches reached marks).2) := by
  fun_induction cover fileId stretches reached marks with
  | case1 => rfl
  | case2 stretches reached mark rest span covered ih =>
    rw [List.map_cons, cover]
    exact (if_pos covered).trans ih
  | case3 stretches reached mark rest span uncovered filled ih =>
    rw [← extend_relabel, ← extend_relabel] at ih
    rw [List.map_cons, cover]
    exact (if_neg uncovered).trans ih

end Highlight

namespace Document

variable (document : Document)

@[simp] theorem endOfInput_relabel_span_stop :
    (document.relabel relabeling).endOfInput.span.stop = document.endOfInput.span.stop := by
  rw [endOfInput, endOfInput, tokens_relabel, List.getLast?_map]
  cases document.tokens.getLast? <;> rfl

/-- Where no two files get one number, and a document gets the number of its file. -/
theorem marks_relabel (same : relabeling.file document.fileId = relabeling.span document.fileId)
    (injective : ∀ first second, relabeling.span first = relabeling.span second →
      first = second) :
    (document.relabel relabeling).marks =
      document.marks.map (Highlight.Mark.relabel relabeling) := by
  have failed : (document.relabel relabeling).diagnostics.filterMap (·.node) =
      document.diagnostics.filterMap (·.node) := by
    simp [List.filterMap_map, Function.comp_def]
  unfold marks
  dsimp only
  rw [failed, root_relabel, fileId_relabel, same, Highlight.markNode_relabel injective]
  refine (List.map_mergeSort (f := Highlight.Mark.relabel relabeling) ?_).symm
  exact fun _ _ _ _ => rfl

/-- **The stretches that a document is highlighted in do not depend on the numbers of files**,
where no two files get one number. -/
theorem highlight_relabel
    (same : relabeling.file document.fileId = relabeling.span document.fileId)
    (injective : ∀ first second, relabeling.span first = relabeling.span second →
      first = second) :
    (document.relabel relabeling).highlight =
      document.highlight.map (Highlight.Stretch.relabel relabeling) := by
  have covered := @Highlight.cover_relabel relabeling document.fileId []
    Position.start document.marks
  rw [List.map_nil] at covered
  unfold highlight
  rw [marks_relabel document same injective, fileId_relabel, same, covered]
  dsimp only
  rw [size_relabel, endOfInput_relabel_span_stop]
  split
  · rw [Highlight.extend_relabel, List.map_reverse]
  · rw [List.map_reverse]

namespace Twins

variable {document twin : Document}

/-- One number for all files. -/
theorem level (twins : document.Twins twin) :
    document.relabel ⟨fun _ => 0, fun _ => 0⟩ = twin.relabel ⟨fun _ => 0, fun _ => 0⟩ :=
  twins ⟨fun _ => 0, fun _ => 0⟩ ⟨fun _ => 0, fun _ => 0⟩ rfl rfl

/-- Twins are formatted alike. -/
theorem format_eq (twins : document.Twins twin) (options : Layout.Options) :
    document.format options = twin.format options := by
  have same := congrArg (format options) twins.level
  rwa [format_relabel, format_relabel] at same

/-- Twins have code both or neither. -/
theorem hasCode_eq (twins : document.Twins twin) (options : Layout.Options) :
    Layout.hasCode options document = Layout.hasCode options twin := by
  have same := congrArg (Layout.hasCode options) twins.level
  rwa [Layout.hasCode_relabel, Layout.hasCode_relabel] at same

/-- Twins have the same source. -/
theorem source_eq (twins : document.Twins twin) : document.source = twin.source := by
  have same := congrArg source twins.level
  rwa [source_relabel, source_relabel] at same

/-- No two files get one number where two numbers are exchanged. -/
theorem highlight_eq (twins : document.Twins twin) :
    ∃ relabeling other : Relabeling,
      document.highlight.map (Highlight.Stretch.relabel relabeling) =
        twin.highlight.map (Highlight.Stretch.relabel other) := by
  let exchange := Equiv.swap document.fileId twin.fileId
  have number : exchange document.fileId = twin.fileId := Equiv.swap_apply_left ..
  refine ⟨⟨exchange, exchange⟩, ⟨id, id⟩, ?_⟩
  rw [← highlight_relabel document rfl fun _ _ same => exchange.injective same,
    ← highlight_relabel twin rfl fun _ _ same => same,
    twins ⟨exchange, exchange⟩ ⟨id, id⟩ number number]

end Twins

end Document

end TexSource
