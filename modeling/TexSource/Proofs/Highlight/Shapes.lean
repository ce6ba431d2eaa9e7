import TexSource.Proofs.Document.BraceStack
import TexSource.Proofs.Document.Segments
import TexSource.Proofs.Document.Ways

/-!
# The shape of parsed nodes

Comments delimit nothing in a parsed document, and where an environment starts or ends, the name
stands in a group behind the command, without a star (`Node.Formed`).
-/

namespace TexSource

/-- Whether a node is a group. -/
def Node.isGroup : Node → Bool
  | .group _ _ _ _ _ _ => true
  | _ => false

theorem Node.exists_of_isGroup {node : Node} (group : node.isGroup = true) :
    ∃ id delimiter opener children closer span,
      node = .group id delimiter opener children closer span := by
  unfold isGroup at group
  split at group
  · exact ⟨_, _, _, _, _, _, rfl⟩
  · cases group

/-- The head of an environment or its end: it has no star, and if it has arguments, the first of
them, the name, is a group. -/
structure Command.IsHeading (invocation : Command) : Prop where
  starless : invocation.star = none
  named : ∀ argument ∈ invocation.arguments.head?, argument.content.isGroup = true

/-- The shape of a node by itself: comments are no delimiters and no commands, and an environment
is enclosed by its heads. -/
def Node.Formed : Node → Prop
  | .group _ _ opener _ closer _ =>
    (∀ placed ∈ opener, placed.token.isComment = false) ∧
      ∀ placed ∈ closer, placed.token.isComment = false
  | .math _ _ opener _ closer _ =>
    opener.token.isComment = false ∧ ∀ placed ∈ closer, placed.token.isComment = false
  | .command invocation =>
    invocation.head.token.isComment = false ∧
      ∀ placed ∈ invocation.star, placed.token.isComment = false
  | .environment _ _ opening _ ending _ _ =>
    opening.IsHeading ∧ ∀ command ∈ ending, command.IsHeading
  | _ => True

namespace Parser

variable {commands : CommandTable} {level : Nat} {mode : Mode} {piece : Piece}
  {ahead rest after : List Token} {token : Token} {placed : Placed} {test : Token → Bool}
  {reports : List Report}

theorem isComment_of_isBrace (brace : token.isBrace = true) : token.isComment = false := by
  unfold Token.isBrace Token.isBeginGroup Token.isEndGroup at brace
  unfold Token.isComment
  cases kind : token.kind <;> simp_all

theorem isComment_of_isControlSequence (sequence : token.isControlSequence = true) :
    token.isComment = false := by
  unfold Token.isControlSequence at sequence
  unfold Token.isComment
  cases kind : token.kind <;> simp_all

theorem isComment_of_isCharacter {character : Char} (same : token.isCharacter character = true) :
    token.isComment = false := by
  obtain ⟨category, kind⟩ := Token.kind_of_isCharacter same
  simp [Token.isComment, kind]

theorem isComment_of_isAt {closing : Closing} (closes : closing.isAt token = true) :
    token.isComment = false := by
  obtain ⟨_, _, kind⟩ | ⟨_, kind⟩ | ⟨_, kind⟩ := kind_of_isAt closes <;>
    simp [Token.isComment, kind]

/-- What a piece adds to the shape of its nodes: a brace opens a group, and the heads of
environments are such. -/
@[simp] def Piece.Headed (ahead : List Token) : Piece → Prop
  | .node content => ahead.head?.any Token.isBeginGroup = true → content.isGroup = true
  | .opening invocation _ => invocation.IsHeading
  | .ending invocation _ => invocation.IsHeading
  | .behindBody found => ∀ ending ∈ found, ending.1.IsHeading
  | _ => True

def AllFormed (nodes : List Node) : Prop :=
  ∀ node ∈ nodes, node.Formed

@[simp] theorem allFormed_nil : AllFormed [] :=
  nofun

@[simp] theorem allFormed_cons {node : Node} {nodes : List Node} :
    AllFormed (node :: nodes) ↔ node.Formed ∧ AllFormed nodes :=
  List.forall_mem_cons

@[simp] theorem allFormed_append {nodes others : List Node} :
    AllFormed (nodes ++ others) ↔ AllFormed nodes ∧ AllFormed others :=
  List.forall_mem_append

theorem allFormed_leaves {tokens : List Token} {nodes : List Node} (leaves : Leaves tokens nodes) :
    AllFormed (walkAll nodes) := by
  induction leaves with
  | nil => exact allFormed_nil
  | cons id placed later ih => exact allFormed_cons.mpr ⟨trivial, ih⟩

/-- A named head of an environment. -/
theorem formed_heading {id : NodeId} {name : Text} {head : Placed} {kind : ArgumentKind}
    {blanks : List Node} {label : Node} {extra : List Argument} {tokens : List Token} (span : Span)
    (word : head.token.isControlWord name = true) (leading : Leaves tokens blanks)
    (named : AllFormed label.walk) (group : label.isGroup = true)
    (later : AllFormed (walkArguments extra)) :
    AllFormed (Command.walk ⟨id, name, head, none, ⟨kind, blanks, label⟩ :: extra, span⟩) ∧
      Command.IsHeading ⟨id, name, head, none, ⟨kind, blanks, label⟩ :: extra, span⟩ := by
  have text := isComment_of_isControlSequence (isControlSequence_of_isControlWord word)
  refine ⟨?_, rfl, by simpa using group⟩
  simp [Command.walk, walkArguments, Node.Formed, text, allFormed_leaves leading, named, later]

/-- A node that no brace opens. -/
theorem headed_of_isBrace {content : Node} (other : token.isBrace = false) :
    Piece.Headed (token :: rest) (.node content) := by
  intro braced
  simp only [List.head?_cons, Option.any_some] at braced
  simp [Token.isBrace, braced] at other

theorem Reads.formed (read : Reads commands level mode ahead piece after reports) :
    AllFormed piece.walk ∧ piece.Headed ahead := by
  induction read with
  | stop => simp
  | next _ _ _ first later => exact ⟨allFormed_append.mpr ⟨first.1, later.1⟩, trivial⟩
  | unopened _ _ _ ih => exact ih
  | group _ opens _ closes ih =>
    refine ⟨allFormed_cons.mpr ⟨⟨?_, fun placed member => ?_⟩, ih.1⟩, fun _ => rfl⟩
    · simpa using isComment_of_isBrace (by simp [Token.isBrace, opens])
    · exact isComment_of_isBrace (by simp [Token.isBrace, closes.forall_mem placed member])
  | flatGroup _ opens leaves closes =>
    refine ⟨allFormed_cons.mpr ⟨⟨?_, fun placed member => ?_⟩, allFormed_leaves leaves⟩,
      fun _ => rfl⟩
    · simpa using isComment_of_isBrace (by simp [Token.isBrace, opens])
    · exact isComment_of_isBrace (by simp [Token.isBrace, closes.forall_mem placed member])
  | strayGroupEnd ends _ =>
    refine ⟨by simp [Node.walk, Node.Formed], fun opens => ?_⟩
    simp [Braces.isBeginGroup_of_isEndGroup ends] at opens
  | strayEnding _ read ih =>
    exact ⟨ih.1, fun opens => absurd opens (by simp [read.unbraced_ending])⟩
  | math _ _ opens _ _ closes ih =>
    refine ⟨allFormed_cons.mpr ⟨⟨isComment_of_opensMath opens, fun placed member => ?_⟩, ih.1⟩,
      headed_of_isBrace (isBrace_of_opensMath opens)⟩
    exact isComment_of_isAt (closes.forall_mem placed member)
  | @environment _ _ _ _ _ _ ending _ _ _ _ _ _ _ _ _ opened _ _ head inside behind =>
    refine ⟨?_, fun opens => absurd opens (by simp [opened.unbraced_opening])⟩
    have heading : ∀ command ∈ ending.map Prod.fst, command.IsHeading := by simpa using behind.2
    cases ending with
    | none =>
      exact allFormed_cons.mpr ⟨⟨head.2, heading⟩, allFormed_append.mpr ⟨head.1, inside.1⟩⟩
    | some ending =>
      have last : AllFormed ending.1.walk := by simpa using behind.1
      exact allFormed_cons.mpr ⟨⟨head.2, heading⟩,
        allFormed_append.mpr ⟨allFormed_append.mpr ⟨head.1, inside.1⟩, last⟩⟩
  | nameless _ word _ _ ih =>
    exact ⟨ih.1, fun opens => absurd opens (by simp [isBeginGroup_of_isControlWord word])⟩
  | plainCommand plain _ ih => exact ⟨ih.1, headed_of_isBrace (isBrace_of_plain plain)⟩
  | leaf _ plain =>
    exact ⟨by simp [Node.walk, Node.Formed], headed_of_isBrace (isBrace_of_plain plain)⟩
  | command _ _ sequence starred _ ih =>
    refine ⟨allFormed_cons.mpr ⟨⟨isComment_of_isControlSequence sequence, ?_⟩, ih.1⟩, trivial⟩
    intro placed member
    exact isComment_of_isCharacter (Bool.and_eq_true_iff.mp (starred.forall_mem placed member)).2
  | noArguments => simp [walkArguments]
  | omitted _ _ ih => exact ih
  | optional _ leading _ _ first later =>
    exact ⟨allFormed_append.mpr ⟨allFormed_append.mpr ⟨allFormed_leaves leading, first.1⟩, later.1⟩,
      trivial⟩
  | bracket _ opens _ closes ih =>
    refine ⟨allFormed_cons.mpr ⟨⟨?_, fun placed member => ?_⟩, ih.1⟩, trivial⟩
    · simpa using isComment_of_isCharacter opens
    · exact isComment_of_isCharacter (closes.forall_mem placed member)
  | missing => simp [walkArguments]
  | braced leading _ _ _ first later =>
    exact ⟨allFormed_append.mpr ⟨allFormed_append.mpr ⟨allFormed_leaves leading, first.1⟩, later.1⟩,
      trivial⟩
  | single leading _ _ _ _ ih =>
    refine ⟨allFormed_append.mpr ⟨allFormed_append.mpr ⟨allFormed_leaves leading, ?_⟩, ih.1⟩,
      trivial⟩
    simp [Node.walk, Node.Formed]
  | opening _ span word leading braced _ _ _ first later =>
    exact formed_heading span word leading first.1 (first.2 braced) later.1
  | namedEnding _ span word leading braced _ ih =>
    exact formed_heading span word leading ih.1 (ih.2 braced) allFormed_nil
  | namelessEnding _ _ word _ =>
    have text := isComment_of_isControlSequence (isControlSequence_of_isControlWord word)
    exact ⟨by simp [Command.walk, walkArguments, Node.Formed, text], rfl, by simp⟩
  | verbatimBody _ leaves => exact ⟨allFormed_leaves leaves, trivial⟩
  | textBody _ _ _ ih => exact ih
  | unended => simp
  | ended read ih => simpa using ih

end Parser

/-- **The nodes of a parsed document are formed.** -/
theorem Document.formed_ofTokens (tokens : List Token) (source : Text) (fileId : FileId)
    (commands : CommandTable) :
    ∀ node ∈ (ofTokens tokens source fileId commands).walk, node.Formed := by
  obtain ⟨children, reports, derived⟩ := derived_ofTokens tokens source fileId commands
  obtain ⟨span, root⟩ := derived.root
  rw [walk, root, Node.walk]
  exact Parser.allFormed_cons.mpr ⟨⟨by simp, by simp⟩, derived.reads.formed.1⟩

end TexSource
