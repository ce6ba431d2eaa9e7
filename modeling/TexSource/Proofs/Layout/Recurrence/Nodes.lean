import TexSource.Proofs.Document.Constructs
import TexSource.Proofs.Layout.Respacing

/-!
# Nodes that recur

A piece of a document recurs if it is read alike wherever the tokens ahead differ in blanks
(`Parser.Recurs`). A node recurs if what is in it does, and so does a sequence of nodes: blanks are
leaves by themselves, and a node that starts with none is read as the same construct.
-/

namespace TexSource

namespace Text

/-- Texts that are the same name are equal, or there is white space in both of them. -/
theorem SameName.eq_or {text other : Text} (same : text.SameName other) :
    other = text ∨ ¬text.IsWhole ∧ ¬other.IsWhole := by
  by_cases whole : text.IsWhole
  · exact .inl ((same text whole).mp rfl)
  · refine or_iff_not_imp_right.mpr fun both => ?_
    have also : other.IsWhole := by
      by_contra none
      exact both ⟨whole, none⟩
    exact ((same other also).mpr rfl).symm

/-- Both parts of a whole text are whole. -/
theorem IsWhole.of_append {text other : Text} (whole : IsWhole (text ++ other)) :
    text.IsWhole ∧ other.IsWhole :=
  List.forall_mem_append.mp whole

end Text

namespace Layout

/-- The names in the tables contain no white space, and the environments that are kept verbatim are
those that are read verbatim. -/
structure Settled (options : Options) (commands : CommandTable) : Prop where
  verbatim : options.verbatimEnvironments = commands.verbatim
  whole : ∀ name ∈ commands.verbatim, Text.IsWhole name
  environments : ∀ binding ∈ commands.environments, Text.IsWhole binding.1
  unindented : ∀ name ∈ options.unindentedEnvironments, Text.IsWhole name
  majorCommands : ∀ name ∈ options.majorCommands, Text.IsWhole name

/-- Whole names are told apart by their blanks only. -/
theorem contains_eq_of_sameName {names : List Text} (whole : ∀ name ∈ names, Text.IsWhole name)
    {name other : Text} (same : name.SameName other) :
    names.contains other = names.contains name := by
  obtain rfl | ⟨first, second⟩ := same.eq_or
  · rfl
  · have absent : ∀ name : Text, ¬name.IsWhole → names.contains name = false := by
      intro name broken
      simpa using fun member => broken (whole name member)
    rw [absent name first, absent other second]

namespace Settled

variable {options : Options} {commands : CommandTable} (settled : Settled options commands)
  {name other : Text} (same : name.SameName other)

include settled same

/-- A name that is spelled with other blanks is verbatim or not as before. -/
theorem isVerbatim_eq : commands.isVerbatim other = commands.isVerbatim name :=
  contains_eq_of_sameName settled.whole same

/-- A body whose name is spelled with other blanks has the same depth. -/
theorem bodyDepth_eq (depth : Nat) :
    bodyDepth options depth other = bodyDepth options depth name := by
  rw [bodyDepth, bodyDepth, contains_eq_of_sameName settled.unindented same]

/-- Environments that are called the same have one signature. -/
theorem environment_eq : commands.environment other = commands.environment name := by
  obtain rfl | ⟨first, second⟩ := same.eq_or
  · rfl
  · have unknown : ∀ name : Text, ¬name.IsWhole →
        commands.environment name = Signature.unknown := by
      intro name broken
      suffices absent : commands.environments.get? (name.dropWhileEnd (· = .char '*')) = none by
        rw [CommandTable.environment, absent]
        rfl
      rw [Bindings.get?, Option.map_eq_none_iff, List.find?_eq_none]
      intro binding member found
      have equal : binding.1 = name.dropWhileEnd (· = .char '*') := of_decide_eq_true found
      refine broken ?_
      rw [← List.rdropWhile_append_rtakeWhile (p := (· = Glyph.char '*')) (l := name)]
      refine List.forall_mem_append.mpr ⟨?_, fun glyph star => ?_⟩
      · change Text.IsWhole (name.dropWhileEnd (· = .char '*'))
        exact equal ▸ settled.environments binding member
      · have isStar : glyph = .char '*' := by simpa using List.mem_rtakeWhile_imp star
        rw [isStar]
        decide
    rw [unknown name first, unknown other second]

/-- A name that is spelled with other blanks has the same key. -/
theorem majorKey?_eq (word : Text) :
    majorKey? options (word ++ Problem.braced other) =
      majorKey? options (word ++ Problem.braced name) := by
  obtain rfl | ⟨first, second⟩ := same.eq_or
  · rfl
  · have unknown : ∀ name : Text, ¬name.IsWhole →
        majorKey? options (word ++ Problem.braced name) = none := by
      intro name broken
      unfold majorKey?
      refine if_neg fun listed => broken ?_
      have member : word ++ Problem.braced name ∈ options.majorCommands := by
        simpa using (Bool.and_eq_true_iff.mp listed).2
      have braced := (settled.majorCommands _ member).of_append.2
      exact (List.forall_mem_cons.mp braced.of_append.1).2
    rw [unknown name first, unknown other second]

end Settled

end Layout

/-- An argument behind spaces alone. -/
def Argument.IsSpaced (argument : Argument) : Prop :=
  ∀ placed ∈ placedAll argument.leading, placed.token.isSpace = true

instance (argument : Argument) : Decidable argument.IsSpaced :=
  inferInstanceAs (Decidable (∀ placed ∈ placedAll argument.leading, placed.token.isSpace = true))

/-- All arguments of a node, if it is a command, stand behind spaces alone. -/
def Node.IsSpaced : Node → Prop
  | .command invocation => ∀ argument ∈ invocation.arguments, argument.IsSpaced
  | _ => True

instance : (node : Node) → Decidable node.IsSpaced
  | .command invocation =>
    inferInstanceAs (Decidable (∀ argument ∈ invocation.arguments, argument.IsSpaced))
  | .leaf _ _ | .group _ _ _ _ _ _ | .math _ _ _ _ _ _ | .environment _ _ _ _ _ _ _
  | .inclusion _ _ _ _ _ _ => instDecidableTrue

namespace Parser

open Layout

/-- All arguments in what is read stand behind spaces alone. -/
def Piece.IsSpaced : Piece → Prop
  | .arguments _ _ _ found =>
    (∀ argument ∈ found, argument.IsSpaced) ∧ ∀ node ∈ walkArguments found, node.IsSpaced
  | piece => ∀ node ∈ piece.walk, node.IsSpaced

/-- The items of what is read, given the key of a command. -/
def Piece.items (options : Options) (depth : Nat) (block key : Option Text) : Piece → List Item
  | .sequence _ nodes => nodesItems options depth block nodes
  | .node content => nodeItems options depth block content
  | .bracket content => nodeItems options depth block content
  | .command invocation => commandItems options depth block key invocation
  | .arguments _ _ _ found => argumentsItems options depth block found
  | .opening invocation _ => commandItems options depth block key invocation
  | .ending invocation _ => commandItems options depth block key invocation
  | .body name nodes =>
    if options.verbatimEnvironments.contains name then
      verbatimItems (bodyDepth options depth name) nodes
    else nodesItems options (bodyDepth options depth name) block nodes
  | .behindBody found =>
    found.toList.flatMap fun found => commandItems options depth block key found.1

/-- Pieces of one sort. -/
inductive Piece.Twins : Piece → Piece → Prop where
  | sequence (closing : Closing) (nodes others : List Node) :
      Twins (.sequence closing nodes) (.sequence closing others)
  | node (content other : Node) : Twins (.node content) (.node other)
  | bracket (content other : Node) : Twins (.bracket content) (.bracket other)
  | command (invocation other : Command) : Twins (.command invocation) (.command other)
  | arguments (command other : Text) (position otherPosition : Nat) (kinds : List ArgumentKind)
      (found others : List Argument) :
      Twins (.arguments command position kinds found) (.arguments other otherPosition kinds others)
  | opening (invocation other : Command) (name otherName : Text) :
      Twins (.opening invocation name) (.opening other otherName)
  | ending (invocation other : Command) (name otherName : Text) :
      Twins (.ending invocation name) (.ending other otherName)
  | body {name otherName : Text} (same : name.SameName otherName) (nodes others : List Node) :
      Twins (.body name nodes) (.body otherName others)
  | behindBody (found other : Option (Command × Text)) :
      Twins (.behindBody found) (.behindBody other)

/-- Where a piece may be read again: the tokens ahead differ in blanks. Only nodes may be read in
the midst of blanks. -/
def Piece.Meets (first : Option Bool) (ahead later : List Token) : Piece → Prop
  | .sequence _ _ => (∃ gaps ends, Respaced gaps ahead later ends) ∧
      (first = some false ∨ Calm first ahead later)
  | .node _ => Abreast ahead later ∧ ahead.head?.any Token.isBlank = false
  | .arguments _ _ _ _ | .body _ _ | .behindBody _ => Abreast ahead later ∧ Calm first ahead later
  | _ => Abreast ahead later

/-- What names an environment, or may do so, is called the same. -/
def Piece.CalledAlike (ahead : List Token) : Piece → Piece → Prop
  | .node content, .node other => ahead.head?.any Token.isBeginGroup = true →
      Text.SameName content.innerText.strip other.innerText.strip
  | .opening _ name, .opening _ otherName => name.SameName otherName
  | _, _ => True

/-- What is read in a place is read alike where the tokens ahead differ in blanks: it is called the
same, its items are set alike, and the tokens behind it differ in blanks. -/
def Recurs (options : Options) (commands : CommandTable) (level : Nat) (mode : Mode)
    (ahead : List Token) (piece : Piece) (after : List Token) : Prop :=
  ∀ {twin : Piece} {later rest : List Token} {others : List Report} (first : Option Bool),
    piece.Twins twin → Reads commands level mode later twin rest others →
      piece.Meets first ahead later →
        Abreast after rest ∧ piece.CalledAlike ahead twin ∧ ∀ depth block key,
          Continues first (piece.items options depth block key)
            (twin.items options depth block key) after rest

section

variable {options : Options} {commands : CommandTable} {level : Nat} {mode : Mode}
  {ahead middle after rest : List Token} {reports : List Report}

/-- The next token, where something is read again. -/
theorem Piece.Meets.exists_of_cons {first : Option Bool} {token : Token} {later : List Token}
    {content : Node} (meets : (Piece.node content).Meets first (token :: rest) later) :
    ∃ other others, later = other :: others ∧ token.Same other ∧
      Follow token other rest others := by
  obtain ⟨abreast, solid⟩ := meets
  exact abreast.exists_of_cons (by simpa using solid)

/-- What is no group is called as before. -/
theorem called_of_isBeginGroup {token : Token} {content other : Node}
    (unopened : token.isBeginGroup = false) :
    (Piece.node content).CalledAlike (token :: rest) (.node other) := by
  simp [Piece.CalledAlike, unopened]

/-- A group recurs if what is in it does. -/
theorem recurs_group {id : NodeId} {opener : Placed} {children : List Node} {closer : Option Placed}
    {span : Span} (room : level < maxNesting) (opens : opener.token.isBeginGroup = true)
    (inside : Reads commands (level + 1) ⟨false, false, true⟩ rest (.sequence .never children)
      middle reports)
    (within : Recurs options commands (level + 1) ⟨false, false, true⟩ rest
      (.sequence .never children) middle)
    (closes : Takes Token.isEndGroup middle closer after) :
    Recurs options commands level mode (opener.token :: rest)
      (.node (.group id .brace (some opener) children closer span)) after := by
  intro twin later rest' others first twins reread meets
  cases twins
  obtain ⟨other, others, rfl, same, follow⟩ := meets.exists_of_cons
  have again := reread.constructed
  rw [constructAt_eq level mode same follow, constructAt, if_pos opens, if_pos room] at again
  cases again with
  | group insideOther closesOther =>
    have also := (Discerns.isBeginGroup.same _ _ same).trans opens
    obtain ⟨ends, respaced⟩ := follow
    obtain ⟨between, -, items⟩ :=
      within none (.sequence ..) insideOther ⟨⟨_, _, respaced⟩, .inr (.inl rfl)⟩
    rw [behind_of_isBeginGroup opens, behind_of_isBeginGroup also] at respaced
    have stops : ∀ {tokens : List Token}, Halts .never ⟨false, false, true⟩ tokens →
        ∀ token ∈ tokens.head?, token.isEndGroup = true := fun halts token front => by
      simpa [endsBefore, Closing.isAt] using halts token front
    have named := respaced.sameName between (inside.splits.rawText_eq.symm.trans
      (Token.rawText_append ..)) (insideOther.splits.rawText_eq.symm.trans
      (Token.rawText_append ..)) (stops inside.halts) (stops insideOther.halts)
    exact ⟨(between.takes .isEndGroup closes closesOther).2, fun _ => named, fun depth block key =>
      .delimited same (items (depth + 1) block key) between .isEndGroup closes closesOther⟩

/-- A group that is kept flat recurs. -/
theorem recurs_flatGroup {id : NodeId} {opener : Placed} {children : List Node}
    {closer : Option Placed} {span : Span} (deepest : level = maxNesting)
    (opens : opener.token.isBeginGroup = true)
    (leaves : Leaves (rest.take (flatLength 0 rest)) children)
    (closes : Takes Token.isEndGroup (rest.drop (flatLength 0 rest)) closer after) :
    Recurs options commands level mode (opener.token :: rest)
      (.node (.group id .brace (some opener) children closer span)) after := by
  intro twin later rest' others first twins reread meets
  cases twins
  obtain ⟨other, others, rfl, same, follow⟩ := meets.exists_of_cons
  have again := reread.constructed
  rw [constructAt_eq level mode same follow, constructAt, if_pos opens, if_neg (by omega)] at again
  cases again with
  | flatGroup leavesOther closesOther =>
    have also := (Discerns.isBeginGroup.same _ _ same).trans opens
    obtain ⟨ends, respaced⟩ := follow
    obtain ⟨⟨cut, inside⟩, between⟩ := respaced.flat 0
    rw [behind_of_isBeginGroup opens, behind_of_isBeginGroup also] at respaced
    have split : ∀ {tokens : List Token} {nodes : List Node},
        Leaves (tokens.take (flatLength 0 tokens)) nodes → Token.rawText tokens =
          Token.rawText ((placedAll nodes).map Placed.token) ++
            Token.rawText (tokens.drop (flatLength 0 tokens)) := fun {tokens} _ leaves => by
      rw [tokens_leaves leaves, ← Token.rawText_append, List.take_append_drop]
    have named := respaced.sameName between (split leaves) (split leavesOther)
      (head?_drop_flatLength 0 _) (head?_drop_flatLength 0 _)
    refine ⟨(between.takes .isEndGroup closes closesOther).2, fun _ => named,
      fun depth block key => .delimited same ?_ between .isEndGroup closes closesOther⟩
    obtain ⟨last, alike⟩ :=
      Alike.of_respaced inside (depth + 1) false block (.inl rfl)
    rw [nodesItems_leaves leaves, nodesItems_leaves leavesOther]
    exact ⟨last, alike, .inr ⟨head_flat 0 rest, head_flat 0 _⟩⟩

/-- A stray closing brace recurs. -/
theorem recurs_strayGroupEnd {id : NodeId} {placed : Placed}
    (ends : placed.token.isEndGroup = true) :
    Recurs options commands level mode (placed.token :: rest) (.node (.leaf id placed)) rest := by
  intro twin later rest' others first twins reread meets
  cases twins
  obtain ⟨other, others, rfl, same, follow⟩ := meets.exists_of_cons
  have unopened := Braces.isBeginGroup_of_isEndGroup ends
  have again := reread.constructed
  rw [constructAt_eq level mode same follow, constructAt, if_neg (by simp [unopened]),
    if_pos ends] at again
  cases again
  exact ⟨follow.abreast, called_of_isBeginGroup unopened, fun _ _ _ =>
    .cons ⟨same, rfl, rfl, rfl, rfl⟩ (.nil (.inl rfl))⟩

/-- A leaf recurs. -/
theorem recurs_leaf {id : NodeId} {placed : Placed}
    (single : placed.token.isControlSequence = false)
    (plain : startsConstruct level mode placed.token = false) :
    Recurs options commands level mode (placed.token :: rest) (.node (.leaf id placed)) rest := by
  intro twin later rest' others first twins reread meets
  cases twins
  obtain ⟨other, others, rfl, same, follow⟩ := meets.exists_of_cons
  have again := reread.constructed
  simp only [startsConstruct, Bool.or_eq_false_iff, Bool.and_or_distrib_left] at plain
  obtain ⟨⟨⟨unopened, unclosed⟩, unended⟩, text, begins⟩ := plain
  rw [constructAt_eq level mode same follow] at again
  simp only [constructAt, unopened, unclosed, unended, text, begins, single, Bool.false_eq_true,
    if_false] at again
  cases again
  exact ⟨follow.abreast, called_of_isBeginGroup unopened, fun _ _ _ =>
    .cons ⟨same, rfl, rfl, rfl, rfl⟩ (.nil (.inl rfl))⟩

/-- An end without its begin recurs as an end does. -/
theorem recurs_strayEnding {invocation : Command} {name : Text}
    (read : Reads commands level mode ahead (.ending invocation name) after reports)
    (within : Recurs options commands level mode ahead (.ending invocation name) after) :
    Recurs options commands level mode ahead (.node (.command invocation)) after := by
  intro twin later rest' others first twins reread meets
  cases twins
  obtain ⟨token, rest, rfl, word⟩ := read.exists_ending
  obtain ⟨other, others, rfl, same, follow⟩ := meets.exists_of_cons
  obtain ⟨unopened, unclosed⟩ := isBrace_eq_false_of_isControlWord word
  have again := reread.constructed
  rw [constructAt_eq level mode same follow] at again
  simp only [constructAt, unopened, unclosed, word, Bool.false_eq_true, if_false, if_true] at again
  cases again with
  | strayEnding readOther =>
    obtain ⟨behind, -, items⟩ := within first (.ending ..) readOther meets.1
    refine ⟨behind, called_of_isBeginGroup unopened, fun depth block key => ?_⟩
    have equal := read.name_ending.trans readOther.name_ending.symm
    rw [Piece.items, Piece.items, nodeItems, nodeItems, ← equal]
    exact items depth block _

/-- A formula recurs if what is in it does. -/
theorem recurs_math {id : NodeId} {opener : Placed} {closing : Closing} {children : List Node}
    {closer : Option Placed} {span : Span} (room : level < maxNesting) (text : mode.inMath = false)
    (opens : opensMath opener.token = true) (closed : closing = .ofOpener opener.token)
    (inside : Reads commands (level + 1) { mode with inMath := true } rest
      (.sequence closing children) middle reports)
    (within : Recurs options commands (level + 1) { mode with inMath := true } rest
      (.sequence closing children) middle)
    (closes : Takes closing.isAt (closing.ahead middle) closer after) :
    Recurs options commands level mode (opener.token :: rest)
      (.node (.math id closing.isDisplay opener children closer span)) after := by
  intro twin later rest' others first twins reread meets
  cases twins
  obtain ⟨other, others, rfl, same, follow⟩ := meets.exists_of_cons
  obtain ⟨unopened, unclosed⟩ := Token.isBrace_eq_false_iff.mp (isBrace_of_opensMath opens)
  have again := reread.constructed
  rw [constructAt_eq level mode same follow] at again
  simp only [constructAt, unopened, unclosed, isControlWord_of_opensMath opens, room, text, opens,
    Bool.false_eq_true, if_false, Bool.not_false, Bool.and_self, decide_true, if_true] at again
  cases again with
  | @math _ openerOther closingOther _ _ _ _ _ _ _ closedOther insideOther closesOther =>
    have equal : Closing.ofOpener openerOther.token = closing := by
      rw [closed, Closing.ofOpener, Closing.ofOpener, same.kind_eq (isComment_of_opensMath opens)]
    obtain rfl : closing = closingOther := (closedOther.trans equal).symm
    obtain ⟨ends, respaced⟩ := follow
    obtain ⟨between, -, items⟩ :=
      within none (.sequence ..) insideOther ⟨⟨_, _, respaced⟩, .inr (.inl rfl)⟩
    have ahead := between.ahead closing
    refine ⟨(ahead.takes (.isAt closing) closes closesOther).2, called_of_isBeginGroup unopened,
      fun depth block key => .delimited same ?_ ahead (.isAt closing) closes closesOther⟩
    obtain ⟨last, alike, -⟩ := items (depth + 1) block key
    refine ⟨last, alike, .inr ⟨?_, ?_⟩⟩
    · exact (closing.splits_ahead _).head.trans inside.halts.head
    · exact (closing.splits_ahead _).head.trans insideOther.halts.head

/-- An environment is laid out as its begin, body and end. -/
theorem nodeItems_environment (depth : Nat) (block : Option Text) (id : NodeId) (name : Text)
    (opening : Command) (body : List Node) (ending : Option (Command × Text)) (matched : Bool)
    (span : Span) :
    nodeItems options depth block
        (.environment id name opening body (ending.map Prod.fst) matched span) =
      (Piece.opening opening name).items options depth block
          (majorKey? options ("begin" ++ Problem.braced name)) ++
        ((Piece.body name body).items options depth block none ++
          (Piece.behindBody ending).items options depth block
            (majorKey? options ("end" ++ Problem.braced name))) := by
  cases ending <;> simp [nodeItems, Piece.items]

/-- An environment recurs if they do. -/
theorem recurs_environment (settled : Settled options commands) {id : NodeId} {name : Text}
    {opening : Command} {body : List Node} {ending : Option (Command × Text)} {matched : Bool}
    {span : Span} {behindHead behindBody : List Token} {head : List Report}
    (room : level < maxNesting)
    (opened : Reads commands level mode ahead (.opening opening name) behindHead head)
    (begins : Recurs options commands level mode ahead (.opening opening name) behindHead)
    (within : Recurs options commands level mode behindHead (.body name body) behindBody)
    (ends : Recurs options commands level mode behindBody (.behindBody ending) after) :
    Recurs options commands level mode ahead (.node (.environment id name opening body
      (ending.map Prod.fst) matched span)) after := by
  intro twin later rest' others first twins reread meets
  cases twins
  obtain ⟨token, rest, rfl, word, braced⟩ := opened.exists_opening
  obtain ⟨other, others, rfl, same, follow⟩ := meets.exists_of_cons
  obtain ⟨unopened, unclosed⟩ := isBrace_eq_false_of_isControlWord word
  have again := reread.constructed
  rw [constructAt_eq level mode same follow] at again
  simp only [constructAt, unopened, unclosed, isControlWord_end_of_begin word, room,
    opensMath_of_isControlWord word, word, braced, Bool.false_eq_true, if_false, Bool.and_false,
    Bool.and_self, decide_true, if_true] at again
  cases again with
  | environment openedOther contentOther endedOther =>
    obtain ⟨behindHead, named, heads⟩ := begins first (.opening ..) openedOther meets.1
    have body := fun first calm => within first (.body named ..) contentOther ⟨behindHead, calm⟩
    obtain ⟨behindBody, -, -⟩ := body none (.inl rfl)
    have foot := fun first calm => ends first (.behindBody ..) endedOther ⟨behindBody, calm⟩
    obtain ⟨behind, -, -⟩ := foot none (.inl rfl)
    refine ⟨behind, called_of_isBeginGroup unopened, fun depth block key => ?_⟩
    rw [Piece.items, Piece.items, nodeItems_environment, nodeItems_environment,
      settled.majorKey?_eq named, settled.majorKey?_eq named]
    exact (heads depth block _).append fun first calm =>
      ((body first calm).2.2 depth block none).append fun first calm =>
        (foot first calm).2.2 depth block _

/-- A command is called the same where it is read again. -/
theorem name_eq_of_same {token other : Token} (same : token.Same other)
    (sequence : token.isControlSequence = true) : other.value = token.value := by
  have code : token.isComment = false := by
    unfold Token.isControlSequence at sequence
    unfold Token.isComment
    cases kind : token.kind <;> simp_all
  rw [Token.value, same.kind_eq code, Token.value]

/-- A begin without a name recurs as a command. -/
theorem recurs_nameless {token : Token} {invocation : Command} (room : level < maxNesting)
    (word : token.isControlWord "begin" = true)
    (unbraced : (rest.drop (spacesAhead rest)).head?.any Token.isBeginGroup = false)
    (read : Reads commands level { mode with inEnvironment := false } (token :: rest)
      (.command invocation) after reports)
    (within : Recurs options commands level { mode with inEnvironment := false } (token :: rest)
      (.command invocation) after) :
    Recurs options commands level mode (token :: rest) (.node (.command invocation)) after := by
  intro twin later rest' others first twins reread meets
  cases twins
  obtain ⟨other, others, rfl, same, follow⟩ := meets.exists_of_cons
  obtain ⟨unopened, unclosed⟩ := isBrace_eq_false_of_isControlWord word
  rw [drop_spacesAhead] at unbraced
  have again := reread.constructed
  rw [constructAt_eq level mode same follow] at again
  simp only [constructAt, unopened, unclosed, isControlWord_end_of_begin word, room,
    opensMath_of_isControlWord word, word, unbraced, Bool.false_eq_true, if_false, Bool.and_false,
    Bool.and_self, decide_true, if_true] at again
  cases again with
  | nameless readOther =>
    obtain ⟨behind, -, items⟩ := within first (.command ..) readOther meets.1
    refine ⟨behind, called_of_isBeginGroup unopened, fun depth block key => ?_⟩
    have equal := readOther.name_command.trans (name_eq_of_same same read.sequence_command)
    rw [Piece.items, Piece.items, nodeItems, nodeItems, equal, ← read.name_command]
    exact items depth block _

/-- A command recurs as its arguments do. -/
theorem recurs_plainCommand {token : Token} {invocation : Command}
    (plain : startsConstruct level mode token = false)
    (read : Reads commands level mode (token :: rest) (.command invocation) after reports)
    (within : Recurs options commands level mode (token :: rest) (.command invocation) after) :
    Recurs options commands level mode (token :: rest) (.node (.command invocation)) after := by
  intro twin later rest' others first twins reread meets
  cases twins
  obtain ⟨other, others, rfl, same, follow⟩ := meets.exists_of_cons
  have sequence := read.sequence_command
  simp only [startsConstruct, Bool.or_eq_false_iff, Bool.and_or_distrib_left] at plain
  obtain ⟨⟨⟨unopened, unclosed⟩, unended⟩, text, begins⟩ := plain
  have again := reread.constructed
  rw [constructAt_eq level mode same follow] at again
  simp only [constructAt, unopened, unclosed, unended, text, begins, sequence, Bool.false_eq_true,
    if_false, if_true] at again
  cases again with
  | plainCommand readOther =>
    obtain ⟨behind, -, items⟩ := within first (.command ..) readOther meets.1
    refine ⟨behind, called_of_isBeginGroup unopened, fun depth block key => ?_⟩
    have equal := readOther.name_command.trans (name_eq_of_same same sequence)
    rw [Piece.items, Piece.items, nodeItems, nodeItems, equal, ← read.name_command]
    exact items depth block _

/-- A blank is read as a leaf. -/
theorem Reads.leaf_of_isBlank {token : Token} {node : Node}
    (read : Reads commands level mode (token :: rest) (.node node) after reports)
    (isBlank : token.isBlank = true) :
    ∃ id placed, node = .leaf id placed ∧ placed.token = token ∧ after = rest := by
  have form := read.constructed
  simp only [constructAt, Discerns.isBeginGroup.solid _ isBlank,
    Discerns.isEndGroup.solid _ isBlank, (Discerns.isControlWord _).solid _ isBlank,
    Discerns.opensMath.solid _ isBlank, Discerns.isControlSequence.solid _ isBlank, Bool.and_false,
    Bool.false_eq_true, if_false] at form
  cases form
  exact ⟨_, _, rfl, rfl, rfl⟩

/-- Blanks in front of a sequence of nodes are leaves by themselves. -/
theorem Reads.exists_behind_blanks {closing : Closing} {blanks : List Token} {nodes : List Node}
    (read : Reads commands level mode (blanks ++ rest) (.sequence closing nodes) after reports)
    (isBlank : ∀ blank ∈ blanks, blank.isBlank = true) (options : Options) :
    ∃ others found, Reads commands level mode rest (.sequence closing others) after found ∧
      ∀ depth block, nodesItems options depth block nodes =
        blanks.map (fun token => ({ token, depth, block } : Item)) ++
          nodesItems options depth block others := by
  induction blanks generalizing nodes reports with
  | nil => exact ⟨nodes, reports, read, fun _ _ => rfl⟩
  | cons blank blanks ih =>
    rw [List.forall_mem_cons] at isBlank
    cases read with
    | stop halts =>
      have closes := halts blank rfl
      rw [(discerns_endsBefore _ _).solid _ isBlank.1] at closes
      cases closes
    | next _ first later =>
      obtain ⟨id, placed, rfl, rfl, rfl⟩ := first.leaf_of_isBlank isBlank.1
      obtain ⟨others, found, behind, items⟩ := ih later isBlank.2
      exact ⟨others, found, behind, fun depth block => by
        rw [nodesItems, nodeItems, items, List.map_cons]; rfl⟩

/-- Behind the blanks that only one of two sequences has in front. -/
theorem Respaced.exists_abreast {gaps ends : Option (Gap × Gap)} {tokens others : List Token}
    (respaced : Respaced gaps tokens others ends)
    (solid : tokens.head?.any Token.isBlank = false) :
    ∃ blanks later, others = blanks ++ later ∧ (∀ blank ∈ blanks, blank.isBlank = true) ∧
      Abreast tokens later ∧ later.head?.any Token.isBlank = false := by
  cases tokens with
  | nil => exact ⟨others, [], (List.append_nil _).symm, respaced.isBlank_of_nil, .nil, rfl⟩
  | cons token rest =>
    obtain ⟨blanks, other, later, rfl, isBlank, same, -, follow⟩ :=
      respaced.exists_of_cons (by simpa using solid)
    exact ⟨blanks, other :: later, rfl, isBlank, Follow.cons ⟨_, follow⟩ same,
      by simpa using same.second.solid⟩

/-- A sequence of nodes that starts with no blank recurs if it does so where none stands in front of
it. -/
theorem recurs_sequence {closing : Closing} {nodes : List Node}
    (solid : ahead.head?.any Token.isBlank = false)
    (within : ∀ {others : List Node} {later rest : List Token} {found : List Report}
      (first : Option Bool), Reads commands level mode later (.sequence closing others) rest found →
        Abreast ahead later → later.head?.any Token.isBlank = false →
          Abreast after rest ∧ ∀ depth block, Continues first (nodesItems options depth block nodes)
            (nodesItems options depth block others) after rest) :
    Recurs options commands level mode ahead (.sequence closing nodes) after := by
  intro twin later rest others first twins reread meets
  cases twins
  obtain ⟨⟨gaps, ends, respaced⟩, calm⟩ := meets
  obtain ⟨blanks, behind, rfl, isBlank, abreast, solidBehind⟩ := respaced.exists_abreast solid
  obtain ⟨nodesBehind, found, read, items⟩ := reread.exists_behind_blanks isBlank options
  have given : first = none ∨ first = some false ∨ ([] : List Token) = [] ∧ blanks = [] := by
    rcases calm with plain | none | ⟨-, solidAhead⟩
    · exact .inr (.inl plain)
    · exact .inl none
    · cases blanks with
      | nil => exact .inr (.inr ⟨rfl, rfl⟩)
      | cons blank => simp [isBlank blank List.mem_cons_self] at solidAhead
  refine ⟨(within none read abreast solidBehind).1, trivial, fun depth block key => ?_⟩
  obtain ⟨between, skipped⟩ :=
    Alike.of_blanks depth block (List.forall_mem_nil _) isBlank given
  obtain ⟨last, alike, rests⟩ := (within between read abreast solidBehind).2 depth block
  rw [Piece.items, Piece.items, items]
  exact ⟨last, skipped.append alike, rests⟩

/-- A sequence recurs where it halts. -/
theorem recurs_stop {closing : Closing} (halts : Halts closing mode ahead) :
    Recurs options commands level mode ahead (.sequence closing []) ahead := by
  refine recurs_sequence halts.head fun first read abreast solid => ?_
  cases read with
  | stop => exact ⟨abreast, fun _ _ => .nil (.inr ⟨halts.head, solid⟩)⟩
  | @next _ _ _ token _ _ _ _ _ _ _ inside =>
    have same := abreast.any_head (discerns_endsBefore closing mode)
    cases ahead with
    | nil =>
      obtain ⟨_, _, respaced⟩ := abreast.respaced
      simp [respaced.isBlank_of_nil token List.mem_cons_self] at solid
    | cons other rest => simp [halts other rfl, inside] at same

/-- A sequence recurs node by node. -/
theorem recurs_next {closing : Closing} {token : Token} {node : Node} {nodes : List Node}
    (inside : endsBefore closing mode token = false)
    (first : Reads commands level mode (token :: rest) (.node node) middle reports)
    (head : Recurs options commands level mode (token :: rest) (.node node) middle)
    (behind : Recurs options commands level mode middle (.sequence closing nodes) after) :
    Recurs options commands level mode (token :: rest) (.sequence closing (node :: nodes))
      after := by
  cases isBlank : token.isBlank with
  | false =>
    refine recurs_sequence (by simpa using isBlank) fun start read abreast solid => ?_
    have same := abreast.any_head (discerns_endsBefore closing mode)
    cases read with
    | stop halts =>
      obtain ⟨other, others, rfl, -⟩ := abreast.exists_of_cons isBlank
      simp [halts other rfl, inside] at same
    | next _ firstOther laterOther =>
      have nodes := fun start => head start (.node ..) firstOther ⟨abreast, by simpa using isBlank⟩
      obtain ⟨between, -, -⟩ := nodes none
      have others := fun start calm =>
        behind start (.sequence ..) laterOther ⟨between.respaced, .inr calm⟩
      refine ⟨(others none (.inl rfl)).1, fun depth block => ?_⟩
      rw [nodesItems, nodesItems]
      exact ((nodes start).2.2 depth block none).append fun start calm =>
        (others start calm).2.2 depth block none
  | true =>
    intro twin later' rest' found start twins reread meets
    cases twins
    obtain ⟨id, placed, rfl, rfl, rfl⟩ := first.leaf_of_isBlank isBlank
    obtain ⟨⟨gaps, ends, respaced⟩, calm⟩ := meets
    obtain ⟨after, -, items⟩ := behind (some false) (.sequence ..) reread
      ⟨⟨_, _, respaced.of_cons_blank isBlank⟩, .inl rfl⟩
    refine ⟨after, trivial, fun depth block key => ?_⟩
    obtain ⟨last, alike, rests⟩ := items depth block key
    refine ⟨last, .left isBlank (fun given present => ?_) alike, rests⟩
    rcases calm with plain | none | ⟨solid, -⟩
    · rw [plain] at present
      exact (Option.some.inj present).symm
    · rw [none] at present
      cases present
    · simp [isBlank] at solid

end

end Parser

end TexSource
