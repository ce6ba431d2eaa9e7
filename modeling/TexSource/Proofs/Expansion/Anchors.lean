import TexSource.Proofs.Document.Passages
import TexSource.Proofs.Expansion.Tickets

/-!
# Where directives end up in the tree

A token with a ticket stands behind an opening brace, with the group that names its file behind it
(`Guarded`). So it is never taken as an argument by itself: it is the head of a command, whose
argument is that group, or a leaf of content that is kept as it is written (`Parser.Reads.sited`).
-/

namespace TexSource

section

variable (commands : CommandTable)

/-- Whether there is a verbatim environment under a node. -/
def Node.holdsVerbatim (node : Node) : Bool :=
  node.walk.any (Node.isVerbatim commands)

variable {commands}

mutual

/-- Without verbatim environments all tokens are code. -/
theorem Node.code_eq_placed : (node : Node) →
    (∀ below ∈ node.walk, below.isVerbatim commands = false) → node.code commands = node.placed
  | .leaf _ _, _ => rfl
  | .group _ _ opener children closer _, text => by
    have inside := codeAll_eq_placedAll children (List.forall_mem_cons.mp text).2
    rw [Node.code, Node.placed, inside]
  | .math _ _ opener children closer _, text => by
    have inside := codeAll_eq_placedAll children (List.forall_mem_cons.mp text).2
    rw [Node.code, Node.placed, inside]
  | .command invocation, text => invocation.code_eq_placed text
  | .environment id name opening body ending matched span, text => by
    rw [Node.walk_environment, List.forall_mem_cons, List.forall_mem_append,
      List.forall_mem_append] at text
    obtain ⟨own, ⟨head, inside⟩, last⟩ := text
    have other : commands.isVerbatim name = false := own
    have head := opening.code_eq_placed head
    have inside := codeAll_eq_placedAll body inside
    rw [Node.code_environment, Node.placed_environment, head, inside, other]
    cases ending with
    | none => simp
    | some ending =>
      have last := ending.code_eq_placed (by simpa using last)
      simp [last]
  | .inclusion _ directive _ _ _ _, text =>
    directive.code_eq_placed (List.forall_mem_cons.mp text).2

/-- Without verbatim bodies all tokens under a command are code. -/
theorem Command.code_eq_placed : (invocation : Command) →
    (∀ below ∈ invocation.walk, below.isVerbatim commands = false) →
      invocation.code commands = invocation.placed
  | ⟨_, _, head, star, arguments, _⟩, text => by
    have inside := codeArguments_eq_placedArguments arguments (List.forall_mem_cons.mp text).2
    rw [Command.code, Command.placed, inside]

/-- Without verbatim bodies all tokens under nodes are code. -/
theorem codeAll_eq_placedAll : (nodes : List Node) →
    (∀ below ∈ walkAll nodes, below.isVerbatim commands = false) →
      codeAll commands nodes = placedAll nodes
  | [], _ => rfl
  | node :: rest, text => by
    rw [walkAll, List.forall_mem_append] at text
    rw [codeAll, placedAll, node.code_eq_placed text.1, codeAll_eq_placedAll rest text.2]

theorem codeArguments_eq_placedArguments : (arguments : List Argument) →
    (∀ below ∈ walkArguments arguments, below.isVerbatim commands = false) →
      codeArguments commands arguments = placedArguments arguments
  | [], _ => rfl
  | ⟨_, leading, content⟩ :: rest, text => by
    rw [walkArguments, List.forall_mem_append, List.forall_mem_append] at text
    rw [codeArguments, placedArguments, codeAll_eq_placedAll leading text.1.1,
      content.code_eq_placed text.1.2, codeArguments_eq_placedArguments rest text.2]

end

end

/-- Where no closing brace is stray, the depth behind tokens is the number of braces that wait. -/
theorem Braces.depthBehind_readAll {braces : Braces} {code : List Placed}
    (stray : (braces.readAll code).stray = []) :
    Token.depthBehind braces.waiting.length (code.map Placed.token) =
      some (braces.readAll code).waiting.length := by
  induction code generalizing braces with
  | nil => rfl
  | cons placed rest ih =>
    rw [Braces.readAll_cons] at stray ⊢
    rw [List.map_cons]
    by_cases opens : placed.token.isBeginGroup = true
    · rw [Token.depthBehind_beginGroup opens, ← ih stray, Braces.read_opener opens,
        List.length_cons]
    by_cases closes : placed.token.isEndGroup = true
    · cases waiting : braces.waiting with
      | nil =>
        have grown : (braces.read placed).stray <+: ((braces.read placed).readAll rest).stray :=
          Braces.stray_prefix
        rw [stray, Braces.read_stray closes waiting, List.prefix_nil] at grown
        simp at grown
      | cons opener outer =>
        rw [List.length_cons, Token.depthBehind_endGroup closes, ← ih stray,
          Braces.read_closer closes waiting]
    · have other : placed.token.isBrace = false := by simp [Token.isBrace, opens, closes]
      rw [Token.depthBehind_other other, ← ih stray, Braces.read_other other]

namespace Parser

/-- Splitting math shifts changes no depth. -/
theorem Splits.depthBehind {tokens others : List Token} (splits : Splits tokens others)
    (depth : Nat) : Token.depthBehind depth others = Token.depthBehind depth tokens := by
  induction splits generalizing depth with
  | nil => rfl
  | keep token _ ih =>
    unfold Token.depthBehind
    simp only [ih]
  | @split token doubled _ _ _ ih =>
    have whole : token.isBrace = false := by
      simp [Token.isBrace, Token.isBeginGroup, Token.isEndGroup, doubled]
    rw [Token.depthBehind_other whole, Token.depthBehind_other rfl, Token.depthBehind_other rfl, ih]

variable {commands : CommandTable} {level : Nat} {mode : Mode} {ahead rest after : List Token}
  {reports : List Report} {content : Node} {opener closer : Token} {label : List Token}

/-- **A group is read to its closing brace**, if there is no verbatim environment in it. -/
theorem Reads.closed_group (opens : opener.isBeginGroup = true) (balanced : Token.Balanced label)
    (closes : closer.isEndGroup = true)
    (read : Reads commands level mode (opener :: (label ++ closer :: rest)) (.node content) after
      reports)
    (text : content.holdsVerbatim commands = false) :
    ∃ inside last, content.placed.map Placed.token = opener :: (inside ++ [last]) ∧
      Token.Balanced inside ∧ last.isEndGroup = true := by
  have notEnd := Token.isEndGroup_of_isBeginGroup opens
  obtain ⟨glyph, kind⟩ := Token.kind_of_isBeginGroup opens
  have noWord : ∀ name, opener.isControlWord name = false := by simp [Token.isControlWord, kind]
  generalize whole : opener :: (label ++ closer :: rest) = ahead at read
  cases read with
  | unopened _ begins =>
    simp [← (List.cons_eq_cons.mp whole).1, opensNesting, opensMath, noWord, Token.isMathShift,
      kind] at begins
  | @group _ _ id placed children last span _ middle _ _ room _ inside takes =>
    obtain ⟨rfl, rfl⟩ := List.cons_eq_cons.mp whole
    have code : codeAll commands children = placedAll children := by
      apply codeAll_eq_placedAll
      simpa [Node.holdsVerbatim, Node.walk, Node.isVerbatim] using text
    have matched := inside.matched
    rw [Piece.code, code] at matched
    have stray : (Braces.of (placedAll children)).stray = [] := matched.enclosed rfl
    have depth : Token.depthBehind 0 ((placedAll children).map Placed.token) =
        some (Braces.of (placedAll children)).waiting.length := Braces.depthBehind_readAll stray
    have lacks : Token.depthBehind 0 (label ++ closer :: rest) = none := by
      rw [Token.depthBehind_append, balanced.depthBehind, Option.bind_some,
        Token.depthBehind_stray closes]
    rw [← inside.splits.depthBehind, Piece.placed, Token.depthBehind_append, depth,
      Option.bind_some] at lacks
    cases takes with
    | @taken last _ passes =>
      have done : (Braces.of (placedAll children)).waiting = [] := by
        by_contra waits
        cases matched.finished waits
      refine ⟨(placedAll children).map Placed.token, last.token, ?_, ?_, passes⟩
      · simp [Node.placed]
      · rw [Token.Balanced, depth, done, List.length_nil]
    | left fails =>
      cases after with
      | nil => cases lacks
      | cons token later =>
        have ends : token.isEndGroup = true := by
          simpa [endsBefore, Closing.isAt] using inside.halts token rfl
        simp [ends] at fails
  | @flatGroup _ _ id placed children last span _ _ deepest _ leaves takes =>
    obtain ⟨rfl, rfl⟩ := List.cons_eq_cons.mp whole
    rw [flatLength_of_depthBehind balanced closes] at leaves takes
    simp only [List.take_left, List.drop_left] at leaves takes
    cases takes with
    | @taken last _ passes =>
      refine ⟨label, last.token, ?_, balanced, passes⟩
      simp [Node.placed, tokens_leaves leaves]
    | left fails => simp [closes] at fails
  | strayGroupEnd ends => simp [← (List.cons_eq_cons.mp whole).1, notEnd] at ends
  | strayEnding _ read =>
    cases read with
    | namedEnding _ _ word => exact absurd word (by simp [← (List.cons_eq_cons.mp whole).1, noWord])
    | namelessEnding _ _ word =>
      exact absurd word (by simp [← (List.cons_eq_cons.mp whole).1, noWord])
  | math _ _ begins =>
    simp [← (List.cons_eq_cons.mp whole).1, opensMath, Token.isMathShift, kind] at begins
  | environment _ opened =>
    cases opened with
    | opening _ _ word => exact absurd word (by simp [← (List.cons_eq_cons.mp whole).1, noWord])
  | nameless _ word => exact absurd word (by simp [← (List.cons_eq_cons.mp whole).1, noWord])
  | plainCommand plain => simp [← (List.cons_eq_cons.mp whole).1, startsConstruct, opens] at plain
  | leaf _ plain => simp [← (List.cons_eq_cons.mp whole).1, startsConstruct, opens] at plain

end Parser

namespace Expansion

/-- Whether a token is a control word for inclusion. -/
def isInclusionToken (token : Token) : Bool :=
  match token.kind with
  | .controlWord word => Branch.isInclusionWord word
  | _ => false

/-- An inclusion is read as a control word. -/
theorem exists_word_of_isInclusionToken {token : Token}
    (includes : isInclusionToken token = true) :
    ∃ word, token.kind = .controlWord word ∧ Branch.isInclusionWord word = true := by
  unfold isInclusionToken at includes
  split at includes
  · rename_i word kind
    exact ⟨word, kind, includes⟩
  · cases includes

/-- A control word for inclusion, with the group that names its file behind it. -/
inductive Directs (head : Token) : List Token → Prop where
  | intro {rest : List Token} (includes : isInclusionToken head = true)
      (names : Token.NamesFile rest) (behind : List Token) : Directs head (rest ++ behind)

/-- Every token with a ticket is the control word of a directive and stands behind an opening
brace. Whether one stands in front of the first token is given. -/
def Guarded : (isOpen : Bool) → List Token → Prop
  | _, [] => True
  | isOpen, token :: rest =>
    (token.ticket ≠ none → isOpen = true ∧ Directs token rest) ∧ Guarded token.isBeginGroup rest

namespace Guarded

variable {isOpen : Bool} {token : Token} {tokens rest : List Token}

/-- What is guarded without an opening brace in front is guarded with one. -/
theorem mono (guarded : Guarded isOpen tokens) : Guarded true tokens := by
  cases tokens with
  | nil => trivial
  | cons token rest => exact ⟨fun ticket => ⟨rfl, (guarded.1 ticket).2⟩, guarded.2⟩

/-- Without an opening brace in front of it a token has no ticket. -/
theorem ticket_eq_none (guarded : Guarded false (token :: rest)) : token.ticket = none := by
  by_contra ticket
  cases (guarded.1 ticket).1

/-- No other tokens than control words for inclusion have tickets. -/
theorem ticket_of_other (guarded : Guarded isOpen (token :: rest))
    (other : isInclusionToken token = false) : token.ticket = none := by
  by_contra ticket
  cases (guarded.1 ticket).2 with
  | intro includes => simp [other] at includes

/-- Tokens that do not start with an inclusion need no opening brace in front. -/
theorem unopened (guarded : Guarded isOpen tokens)
    (other : ∀ token ∈ tokens.head?, isInclusionToken token = false) : Guarded false tokens := by
  cases tokens with
  | nil => trivial
  | cons token rest =>
    exact ⟨fun ticket => absurd (guarded.ticket_of_other (other token rfl)) ticket, guarded.2⟩

/-- What is left of guarded tokens is guarded. -/
theorem drop (guarded : Guarded isOpen tokens) (count : Nat) :
    Guarded true (tokens.drop count) := by
  induction count generalizing isOpen tokens with
  | zero => exact guarded.mono
  | succ count ih =>
    cases tokens with
    | nil => trivial
    | cons token rest => exact ih guarded.2

/-- What is skipped before an argument has no ticket, and no brace stands behind it. -/
theorem skipped (guarded : Guarded false tokens) {count : Nat}
    (skipped : ∀ token ∈ tokens.take count, Parser.isSkipped token = true) :
    Guarded false (tokens.drop count) ∧ ∀ token ∈ tokens.take count, token.ticket = none := by
  induction count generalizing tokens with
  | zero => exact ⟨guarded, by simp⟩
  | succ count ih =>
    cases tokens with
    | nil => exact ⟨trivial, by simp⟩
    | cons token rest =>
      rw [List.take_succ_cons, List.forall_mem_cons] at skipped
      have later := guarded.2
      rw [(Token.isBrace_eq_false_iff.mp (Parser.isBrace_of_isSkipped skipped.1)).1] at later
      obtain ⟨behind, plain⟩ := ih later skipped.2
      rw [List.take_succ_cons, List.forall_mem_cons]
      exact ⟨behind, guarded.ticket_eq_none, plain⟩

/-- A token that closes something has no ticket, and no brace stands behind it. -/
theorem takes {test : Token → Bool} {closer : Option Placed} {after : List Token}
    (guarded : Guarded false tokens) (takes : Parser.Takes test tokens closer after)
    (quiet : ∀ token, test token = true → token.isBeginGroup = false) :
    Guarded false after ∧ ∀ placed ∈ closer.toList, placed.token.ticket = none := by
  cases takes with
  | taken passes =>
    have later := guarded.2
    rw [quiet _ passes] at later
    exact ⟨later, List.forall_mem_singleton.mpr guarded.ticket_eq_none⟩
  | left => exact ⟨guarded, nofun⟩

/-- Splitting a shift keeps tokens guarded. -/
theorem splitFront (guarded : Guarded isOpen tokens) :
    Guarded isOpen (Parser.splitFront tokens) := by
  unfold Parser.splitFront
  split
  · trivial
  · split
    · rename_i token rest doubled
      have other : token.isBeginGroup = false := by simp [Token.isBeginGroup, doubled]
      have later : Guarded false rest := other ▸ guarded.2
      exact ⟨fun ticket => absurd rfl ticket, fun ticket => absurd rfl ticket, later⟩
    · exact guarded

/-- What a closing token makes of the tokens ahead stays guarded. -/
theorem ahead (guarded : Guarded isOpen tokens) (closing : Parser.Closing) :
    Guarded isOpen (closing.ahead tokens) := by
  unfold Parser.Closing.ahead
  split
  · exact guarded.splitFront
  · exact guarded

/-- No brace stands behind a control word. -/
theorem behindWord {name : Text} (guarded : Guarded isOpen (token :: rest))
    (word : token.isControlWord name = true) : Guarded false rest := by
  have single := Parser.isBrace_of_isControlSequence
    (Parser.isControlSequence_of_isControlWord word)
  have behind := guarded.2
  rwa [(Token.isBrace_eq_false_iff.mp single).1] at behind

/-- Tokens without tickets may stand in front. -/
theorem prepend (plain : ∀ token ∈ rest, token.ticket = none)
    (guarded : ∀ isOpen, Guarded isOpen tokens) (isOpen : Bool) :
    Guarded isOpen (rest ++ tokens) := by
  induction rest generalizing isOpen with
  | nil => exact guarded isOpen
  | cons token rest ih =>
    rw [List.forall_mem_cons] at plain
    exact ⟨fun ticket => absurd plain.1 ticket, ih plain.2 _⟩

end Guarded

/-- **What a branch writes is guarded.** -/
theorem guarded_of_proper {stretches : List Stretch}
    (proper : ∀ stretch ∈ stretches, stretch.Proper) (isOpen : Bool) :
    Guarded isOpen (stretches.flatMap Stretch.tokens) := by
  induction stretches generalizing isOpen with
  | nil => trivial
  | cons stretch rest ih =>
    rw [List.forall_mem_cons] at proper
    rw [List.flatMap_cons]
    have later := ih proper.2
    cases proper.1 with
    | plain unclaimed =>
      exact .prepend (fun token member => (unclaimed token member).ticket) later isOpen
    | @directive number head tail word kind includes names unclaimed =>
      have word : isInclusionToken { head with ticket := some number } = true := by
        simp [isInclusionToken, kind, includes]
      simp only [Stretch.tokens, Scan.enclosed, List.cons_append, List.append_assoc]
      refine ⟨fun ticket => absurd rfl ticket, fun _ => ⟨rfl, .intro word names _⟩, ?_⟩
      refine .prepend (fun token member => (unclaimed token member).ticket) ?_ _
      exact fun _ => ⟨fun ticket => absurd rfl ticket, later _⟩

section

variable {token : Token}

theorem other_of_isBrace (brace : token.isBrace = true) : isInclusionToken token = false := by
  unfold isInclusionToken
  cases kind : token.kind <;> simp_all [Token.isBrace, Token.isBeginGroup, Token.isEndGroup]

theorem other_of_isCharacter {character : Char} (same : token.isCharacter character = true) :
    isInclusionToken token = false := by
  unfold isInclusionToken
  cases kind : token.kind <;> simp_all [Token.isCharacter]

theorem other_of_opensMath (opens : Parser.opensMath token = true) :
    isInclusionToken token = false := by
  unfold isInclusionToken
  cases kind : token.kind <;> simp_all [Parser.opensMath, Token.isMathShift]

theorem other_of_isAt {closing : Parser.Closing} (closes : closing.isAt token = true) :
    isInclusionToken token = false := by
  unfold isInclusionToken
  cases closing <;> cases kind : token.kind <;>
    simp_all [Parser.Closing.isAt, Token.isCharacter, Token.isMathShift]

/-- Other control words are no inclusions. -/
theorem other_of_isControlWord {name : Text} (word : token.isControlWord name = true)
    (other : Branch.isInclusionWord name = false) : isInclusionToken token = false := by
  unfold isInclusionToken
  cases kind : token.kind <;> simp_all [Token.isControlWord]

theorem other_of_single (single : token.isControlSequence = false) :
    isInclusionToken token = false := by
  unfold isInclusionToken
  cases kind : token.kind <;> simp_all [Token.isControlSequence]

/-- No inclusion ends a sequence. -/
theorem other_of_endsBefore {closing : Parser.Closing} {mode : Parser.Mode}
    (stops : Parser.endsBefore closing mode token = true) : isInclusionToken token = false := by
  simp only [Parser.endsBefore, Bool.or_eq_true, Bool.and_eq_true] at stops
  rcases stops with (⟨-, ends⟩ | ⟨-, word⟩) | closes
  · exact other_of_isBrace (by simp [Token.isBrace, ends])
  · exact other_of_isControlWord word rfl
  · exact other_of_isAt closes

end

end Expansion

/-- A token with a ticket is the head of a command that has no star, and whose arguments are the
group that names a file if there is no verbatim environment in them; or it is a leaf of content that
is kept as it is written. -/
def Role.Sited (commands : CommandTable) : Role × Node → Prop
  | (role, .leaf _ placed) => placed.token.ticket ≠ none → role = .flattened ∨ role = .verbatim
  | (_, .command invocation) =>
    (∀ star ∈ invocation.star, star.token.ticket = none) ∧
      (invocation.head.token.ticket ≠ none → invocation.star = none ∧
        ((Node.command invocation).holdsVerbatim commands = false →
          Token.NamesFile ((placedArguments invocation.arguments).map Placed.token)))
  | (_, .environment _ _ begun _ ended _ _) =>
    begun.head.token.ticket = none ∧ ∀ last ∈ ended, last.head.token.ticket = none
  | (_, node) => ∀ placed ∈ node.marks, placed.token.ticket = none

namespace Parser

open Expansion

variable {commands : CommandTable} {level : Nat} {mode : Mode} {ahead after : List Token}
  {piece : Piece} {reports : List Report} {invocation : Command} {role : Role} {name : Text}
  {isOpen : Bool} {token : Token} {rest : List Token}

/-- Control words for inclusion take one argument, without a star. -/
def Includes (commands : CommandTable) : Prop :=
  ∀ word, Branch.isInclusionWord word = true → commands.command word = ⟨[.mandatory], false⟩

/-- The standard commands include files with a group. -/
theorem includes_standard : Includes .standard := by
  intro word includes
  simp only [Branch.isInclusionWord, Bool.or_eq_true, decide_eq_true_eq] at includes
  rcases includes with (rfl | rfl) | rfl <;> rfl

/-- Spaces are what is skipped before a brace. -/
theorem gapAhead_of_spaces {spaces : List Token} {opener : Token}
    (blank : ∀ token ∈ spaces, token.isSpace = true) (opens : opener.isBeginGroup = true)
    (behind : List Token) : gapAhead false (spaces ++ opener :: behind) = spaces.length := by
  obtain ⟨glyph, kind⟩ := Token.kind_of_isBeginGroup opens
  induction spaces with
  | nil =>
    rw [List.nil_append, gapAhead.eq_def]
    simp [Token.isSpace, Token.isComment, Token.isEndOfLine, kind]
  | cons space rest ih =>
    rw [List.forall_mem_cons] at blank
    rw [List.cons_append, gapAhead.eq_def]
    simp [blank.1, ih blank.2]

theorem cannotStartArgument_of_isBeginGroup (opens : token.isBeginGroup = true) :
    cannotStartArgument token = false := by
  obtain ⟨glyph, kind⟩ := Token.kind_of_isBeginGroup opens
  simp [cannotStartArgument, Token.isEndOfInput, Token.isEndGroup, Token.isMathShift, Token.isBlank,
    Token.Kind.isBlank, Token.isComment, Token.isControlWord, kind]

/-- **A directive has the group that names its file** as its argument. -/
theorem Reads.namesFile (includes : Includes commands)
    (read : Reads commands level mode (token :: rest) (.command invocation) after reports)
    (directs : Directs token rest) :
    invocation.star = none ∧
      ((Node.command invocation).holdsVerbatim commands = false →
        Token.NamesFile ((placedArguments invocation.arguments).map Placed.token)) := by
  cases directs with
  | intro isWord names behind =>
    cases names with
    | @intro spaces label opener closer blank opens balanced closes =>
      have gap : gapAhead false (spaces ++ opener :: (label ++ [closer]) ++ behind) =
          spaces.length := by
        simpa using gapAhead_of_spaces blank opens (label ++ [closer] ++ behind)
      have dropped : (spaces ++ opener :: (label ++ [closer]) ++ behind).drop spaces.length =
          opener :: (label ++ closer :: behind) := by simp
      have taken : (spaces ++ opener :: (label ++ [closer]) ++ behind).take spaces.length =
          spaces := by simp
      generalize spaces ++ opener :: (label ++ [closer]) ++ behind = rest at read gap dropped taken
      cases read with
      | @command _ _ _ _ head star arguments _ behindStar _ _ sequence starred read =>
        obtain ⟨word, kind, known⟩ := exists_word_of_isInclusionToken isWord
        have signature : commands.command head.token.value = ⟨[.mandatory], false⟩ := by
          rw [Token.value, kind]
          exact includes word known
        rw [signature] at starred read
        cases starred with
        | taken passes => cases passes
        | left =>
          refine ⟨rfl, fun text => ?_⟩
          cases read with
          | missing span refused =>
            rw [gap, dropped] at refused
            simp [cannotStartArgument_of_isBeginGroup opens] at refused
          | single _ stands _ unbraced =>
            rw [gap, dropped] at stands
            rw [← (List.cons_eq_cons.mp stands).1, opens] at unbraced
            cases unbraced
          | @braced _ _ _ _ _ _ blanks content _ _ _ _ _ leading _ read later =>
            rw [gap, dropped] at read
            rw [gap, taken] at leading
            cases later
            have inside : content.holdsVerbatim commands = false := by
              simp only [Node.holdsVerbatim, Node.walk, Command.walk, walkArguments,
                List.any_cons, List.any_append, Bool.or_eq_false_iff] at text
              exact text.2.1.2
            obtain ⟨name, last, same, balanced, closes⟩ :=
              read.closed_group opens balanced closes inside
            simp only [placedArguments, List.map_append, tokens_leaves leading, same,
              List.append_nil]
            exact .intro blank opens balanced closes

/-- A command with a ticket is a directive. -/
theorem Reads.sited_command (includes : Includes commands)
    (read : Reads commands level mode (token :: rest) (.command invocation) after reports)
    (guarded : Guarded true (token :: rest)) (role : Role) :
    Role.Sited commands (role, .command invocation) := by
  have head := read.head_command
  have names := read.namesFile includes
  cases read with
  | command _ _ sequence starred =>
    have unbraced := (Token.isBrace_eq_false_iff.mp (isBrace_of_isControlSequence sequence)).1
    have behind := guarded.2
    rw [unbraced] at behind
    have star := (behind.takes starred fun token passes => (Token.isBrace_eq_false_iff.mp
      (Token.isBrace_of_isCharacter (Bool.and_eq_true_iff.mp passes).2)).1).2
    exact ⟨fun placed member => star placed (Option.mem_toList.mpr member),
      fun ticket => names (guarded.1 ticket).2⟩

/-- The head of a `\begin` stands for no inclusion. -/
theorem ticket_opening
    (read : Reads commands level mode ahead (.opening invocation name) after reports)
    (guarded : Guarded isOpen ahead) :
    invocation.head.token.ticket = none ∧ invocation.star = none := by
  cases read with
  | opening _ _ word => exact ⟨guarded.ticket_of_other (other_of_isControlWord word rfl), rfl⟩

/-- The head of an `\end` stands for no inclusion. -/
theorem ticket_ending
    (read : Reads commands level mode ahead (.ending invocation name) after reports)
    (guarded : Guarded isOpen ahead) :
    invocation.head.token.ticket = none ∧ invocation.star = none := by
  cases read with
  | namedEnding _ _ word => exact ⟨guarded.ticket_of_other (other_of_isControlWord word rfl), rfl⟩
  | namelessEnding _ _ word =>
    exact ⟨guarded.ticket_of_other (other_of_isControlWord word rfl), rfl⟩

theorem tickets_behindBody {ending : Option (Command × Text)}
    (read : Reads commands level mode ahead (.behindBody ending) after reports)
    (guarded : Guarded isOpen ahead) :
    ∀ last ∈ ending.map Prod.fst, last.head.token.ticket = none := by
  cases read with
  | unended => exact nofun
  | ended read =>
    intro last same
    cases same
    exact (ticket_ending read guarded).1

/-- A command without a ticket is sited in every role. -/
theorem sited_of_unclaimed (none : invocation.head.token.ticket = none ∧ invocation.star = none)
    (role : Role) : Role.Sited commands (role, .command invocation) := by
  refine ⟨fun star member => ?_, fun ticket => absurd none.1 ticket⟩
  rw [none.2] at member
  cases member

/-- Leaves of content that is skipped or kept as it is written. -/
theorem sited_leaves {tokens : List Token} {nodes : List Node} (leaves : Leaves tokens nodes)
    (kept : role = .flattened ∨ role = .verbatim ∨ ∀ token ∈ tokens, token.ticket = none) :
    ∀ entry ∈ locatedAll commands level role nodes, Role.Sited commands entry := by
  intro entry member
  obtain ⟨id, placed, rfl, inside⟩ := locatedAll_leaves commands level role leaves entry member
  intro ticket
  rcases kept with flat | verbatim | none
  · exact .inl flat
  · exact .inr verbatim
  · exact absurd (none _ inside) ticket

/-- Whether a directive may stand in front of a piece. -/
def Piece.mayDirect : Piece → Bool
  | .arguments .. => false
  | .behindBody _ => false
  | _ => true

/-- No brace stands in front of what is read behind a piece, and its nodes with tickets are heads
of directives or kept as they are written. -/
def Piece.Sited (commands : CommandTable) (level : Nat) (piece : Piece) (after : List Token) :
    Prop :=
  Guarded false after ∧ ∀ entry ∈ piece.located commands level, Role.Sited commands entry

section

variable {opener placed : Placed} {closer : Option Placed} {middle : List Token} {id : NodeId}
  {span : Span} {children blanks : List Node} {test : Token → Bool} {content : Node}
  {arguments : List Argument}

/-- The tokens around a group, a formula or an optional argument have no tickets. -/
theorem unclaimed_enclosed (first : opener.token.ticket = none) (middle : Guarded false ahead)
    (closes : Takes test ahead closer after)
    (unbraced : ∀ token, test token = true → token.isBeginGroup = false) :
    Guarded false after ∧ ∀ placed ∈ opener :: closer.toList, placed.token.ticket = none :=
  have last := middle.takes closes unbraced
  ⟨last.1, List.forall_mem_cons.mpr ⟨first, last.2⟩⟩

/-- No brace stands for an inclusion. -/
theorem ticket_of_isBeginGroup (guarded : Guarded isOpen (token :: rest))
    (opens : token.isBeginGroup = true) : token.ticket = none :=
  guarded.ticket_of_other (other_of_isBrace (by simp [Token.isBrace, opens]))

/-- A group is sited if what is in it is. -/
theorem sited_group (room : level < maxNesting) (opens : opener.token.isBeginGroup = true)
    (guarded : Guarded isOpen (opener.token :: rest))
    (inside : Guarded true rest → Piece.Sited commands (level + 1)
      (.sequence .never children) middle)
    (closes : Takes Token.isEndGroup middle closer after) :
    Piece.Sited commands level (.node (.group id .brace (some opener) children closer span))
      after := by
  obtain ⟨middle, inside⟩ := inside guarded.2.mono
  obtain ⟨after, marks⟩ := unclaimed_enclosed (ticket_of_isBeginGroup guarded opens) middle closes
    fun _ => Braces.isBeginGroup_of_isEndGroup
  refine ⟨after, ?_⟩
  rw [Piece.located, Node.located, contentRole_of_lt room]
  exact List.forall_mem_append.mpr ⟨inside, List.forall_mem_singleton.mpr marks⟩

/-- A group at the deepest level, whose content is kept as it is written. -/
theorem sited_flatGroup (opens : opener.token.isBeginGroup = true)
    (leaves : Leaves (rest.take (flatLength 0 rest)) children)
    (guarded : Guarded isOpen (opener.token :: rest))
    (closes : Takes Token.isEndGroup (rest.drop (flatLength 0 rest)) closer after) :
    Piece.Sited commands maxNesting (.node (.group id .brace (some opener) children closer span))
      after := by
  have middle := (guarded.2.drop (flatLength 0 rest)).unopened fun token front =>
    other_of_isBrace (by simp [Token.isBrace, head?_drop_flatLength 0 rest token front])
  obtain ⟨after, marks⟩ := unclaimed_enclosed (ticket_of_isBeginGroup guarded opens) middle closes
    fun _ => Braces.isBeginGroup_of_isEndGroup
  refine ⟨after, ?_⟩
  rw [Piece.located, Node.located]
  exact List.forall_mem_append.mpr
    ⟨sited_leaves leaves (.inl rfl), List.forall_mem_singleton.mpr marks⟩

/-- A formula is sited if what is in it is. -/
theorem sited_math {closing : Closing} (opens : opensMath opener.token = true)
    (guarded : Guarded isOpen (opener.token :: rest))
    (inside : Guarded true rest → Piece.Sited commands (level + 1)
      (.sequence closing children) middle)
    (closes : Takes closing.isAt (closing.ahead middle) closer after) :
    Piece.Sited commands level (.node (.math id closing.isDisplay opener children closer span))
      after := by
  obtain ⟨middle, inside⟩ := inside guarded.2.mono
  obtain ⟨after, marks⟩ := unclaimed_enclosed
    (guarded.ticket_of_other (other_of_opensMath opens)) (middle.ahead closing) closes
    fun _ passes => (Token.isBrace_eq_false_iff.mp (isBrace_of_isAt passes)).1
  refine ⟨after, ?_⟩
  rw [Piece.located, Node.located]
  exact List.forall_mem_append.mpr ⟨inside, List.forall_mem_singleton.mpr marks⟩

/-- A group in brackets is sited if what is in it is. -/
theorem sited_bracket (opens : opener.token.isCharacter '[' = true)
    (guarded : Guarded isOpen (opener.token :: rest))
    (inside : Guarded true rest →
      Piece.Sited commands (level + 1) (.sequence .bracket children) middle)
    (closes : Takes (Token.isCharacter · ']') middle closer after) :
    Piece.Sited commands level (.bracket (.group id .bracket (some opener) children closer span))
      after := by
  obtain ⟨middle, inside⟩ := inside guarded.2.mono
  obtain ⟨after, marks⟩ := unclaimed_enclosed
    (guarded.ticket_of_other (other_of_isCharacter opens)) middle closes
    fun _ passes => (Token.isBrace_eq_false_iff.mp (Token.isBrace_of_isCharacter passes)).1
  refine ⟨after, ?_⟩
  rw [Piece.located, Node.located]
  exact List.forall_mem_append.mpr ⟨inside, List.forall_mem_singleton.mpr marks⟩

/-- A leaf that is no brace. -/
theorem sited_leaf (other : isInclusionToken placed.token = false)
    (unbraced : placed.token.isBeginGroup = false)
    (guarded : Guarded isOpen (placed.token :: rest)) :
    Piece.Sited commands level (.node (.leaf id placed)) rest := by
  have first := guarded.ticket_of_other other
  have behind := guarded.2
  rw [unbraced] at behind
  exact ⟨behind, List.forall_mem_singleton.mpr fun ticket => absurd first ticket⟩

/-- A command stands behind the nodes of its arguments. -/
theorem sited_invocation (role : Role) (head : Role.Sited commands (role, .command invocation))
    (inside : ∀ entry ∈ locatedArguments commands level invocation.arguments,
      Role.Sited commands entry) :
    ∀ entry ∈ invocation.located commands level role, Role.Sited commands entry := by
  rw [Command.located_eq]
  exact List.forall_mem_append.mpr ⟨inside, List.forall_mem_singleton.mpr head⟩

/-- An environment is sited if its begin, body and end are. -/
theorem sited_environment {ending : Option (Command × Text)} {body : List Node}
    {behindHead behindBody : List Token} {reports others : List Report} {isMatched : Bool}
    (opened : Reads commands level mode ahead (.opening invocation name) behindHead reports)
    (ended : Reads commands level mode behindBody (.behindBody ending) after others)
    (guarded : Guarded true ahead)
    (head : Guarded true ahead → Piece.Sited commands level (.opening invocation name) behindHead)
    (inside : Guarded true behindHead → Piece.Sited commands level (.body name body) behindBody)
    (behind : Guarded false behindBody → Piece.Sited commands level (.behindBody ending) after) :
    Piece.Sited commands level
      (.node (.environment id name invocation body (ending.map Prod.fst) isMatched span))
        after := by
  have first := ticket_opening opened guarded
  obtain ⟨behindHead, head⟩ := head guarded
  obtain ⟨behindBody, inside⟩ := inside behindHead.mono
  obtain ⟨after, behind⟩ := behind behindBody
  have last := tickets_behindBody ended behindBody
  refine ⟨after, ?_⟩
  rw [Piece.located, Node.located_environment, Option.toList_map, List.flatMap_map]
  refine List.forall_mem_append.mpr ⟨List.forall_mem_append.mpr ⟨List.forall_mem_append.mpr
    ⟨sited_invocation _ (sited_of_unclaimed first _) head, inside⟩, behind⟩, ?_⟩
  exact List.forall_mem_singleton.mpr ⟨first.1, last⟩

/-- An argument, behind what is skipped before it, and the arguments behind it. -/
theorem sited_argument {count : Nat} {behind : List Token}
    (leading : Leaves (ahead.take count) blanks)
    (skipped : ∀ token ∈ ahead.take count, isSkipped token = true) (guarded : Guarded false ahead)
    (first : Guarded true (ahead.drop count) → Guarded false behind ∧
      ∀ entry ∈ content.located commands level .text, Role.Sited commands entry)
    (later : Guarded false behind → Guarded false after ∧
      ∀ entry ∈ locatedArguments commands level arguments, Role.Sited commands entry) :
    Guarded false after ∧
      ∀ entry ∈ locatedAll commands level .text blanks ++ content.located commands level .text ++
        locatedArguments commands level arguments, Role.Sited commands entry := by
  obtain ⟨middle, plain⟩ := guarded.skipped skipped
  obtain ⟨behind, content⟩ := first middle.mono
  obtain ⟨after, others⟩ := later behind
  exact ⟨after, List.forall_mem_append.mpr ⟨List.forall_mem_append.mpr
    ⟨sited_leaves leading (.inr (.inr plain)), content⟩, others⟩⟩

/-- A single token as an argument; as no brace stands in front of it, it has no ticket. -/
theorem sited_single {count : Nat} (leading : Leaves (ahead.take count) blanks)
    (skipped : ∀ token ∈ ahead.take count, isSkipped token = true)
    (stands : ahead.drop count = placed.token :: rest)
    (unbraced : placed.token.isBeginGroup = false) (guarded : Guarded false ahead)
    (later : Guarded false rest → Guarded false after ∧
      ∀ entry ∈ locatedArguments commands level arguments, Role.Sited commands entry) :
    Guarded false after ∧
      ∀ entry ∈ locatedAll commands level .text blanks ++
          (Node.leaf id placed).located commands level .text ++
        locatedArguments commands level arguments, Role.Sited commands entry := by
  obtain ⟨middle, plain⟩ := guarded.skipped skipped
  rw [stands] at middle
  have behind := middle.2
  rw [unbraced] at behind
  obtain ⟨after, others⟩ := later behind
  exact ⟨after, List.forall_mem_append.mpr ⟨List.forall_mem_append.mpr
    ⟨sited_leaves leading (.inr (.inr plain)),
      List.forall_mem_singleton.mpr fun ticket => absurd middle.ticket_eq_none ticket⟩, others⟩⟩

/-- A verbatim body is sited, as no directive is in it. -/
theorem sited_verbatimBody {body : List Node} (verbatim : commands.isVerbatim name = true)
    (leaves : Leaves (ahead.take (verbatimLength name ahead)) body)
    (guarded : Guarded isOpen ahead) :
    Piece.Sited commands level (.body name body) (ahead.drop (verbatimLength name ahead)) := by
  refine ⟨(guarded.drop _).unopened fun token front => ?_, ?_⟩
  · rcases startsWithEnd_drop name ahead with finished | ends
    · simp [finished] at front
    · have word := isControlWord_of_startsWithEnd ends
      rw [front] at word
      exact other_of_isControlWord word rfl
  · have kept : commands.bodyRole name = .verbatim := by simp [CommandTable.bodyRole, verbatim]
    exact sited_leaves leaves (.inr (.inl kept))

end

/-- **Whatever is read**, its tokens with tickets are heads of directives or kept as they are
written. -/
theorem Reads.sited (includes : Includes commands)
    (read : Reads commands level mode ahead piece after reports)
    (guarded : Guarded piece.mayDirect ahead) : piece.Sited commands level after := by
  induction read with
  | stop halts =>
    exact ⟨guarded.unopened fun token front => other_of_endsBefore (halts token front),
      List.forall_mem_nil _⟩
  | next _ _ _ first later =>
    obtain ⟨middle, here⟩ := first guarded
    obtain ⟨after, there⟩ := later middle.mono
    exact ⟨after, List.forall_mem_append.mpr ⟨here, there⟩⟩
  | unopened _ _ _ ih => exact ih guarded
  | group room opens _ closes ih => exact sited_group room opens guarded ih closes
  | flatGroup deepest opens leaves closes =>
    subst deepest
    exact sited_flatGroup opens leaves guarded closes
  | strayGroupEnd ends =>
    exact sited_leaf (other_of_isBrace (by simp [Token.isBrace, ends]))
      (Braces.isBeginGroup_of_isEndGroup ends) guarded
  | strayEnding _ read ih =>
    obtain ⟨after, inside⟩ := ih guarded
    exact ⟨after, sited_invocation _ (sited_of_unclaimed (ticket_ending read guarded) _) inside⟩
  | math _ _ opens _ _ closes ih => exact sited_math opens guarded ih closes
  | environment _ opened _ ended head inside behind =>
    exact sited_environment opened ended guarded head inside behind
  | nameless _ _ _ read ih =>
    obtain ⟨after, inside⟩ := ih guarded
    exact ⟨after, sited_invocation _ (read.sited_command includes guarded _) inside⟩
  | plainCommand _ read ih =>
    obtain ⟨after, inside⟩ := ih guarded
    exact ⟨after, sited_invocation _ (read.sited_command includes guarded _) inside⟩
  | leaf single plain =>
    exact sited_leaf (other_of_single single)
      (Token.isBrace_eq_false_iff.mp (isBrace_of_plain plain)).1 guarded
  | command _ _ sequence starred _ ih =>
    have behind := guarded.2
    rw [(Token.isBrace_eq_false_iff.mp (isBrace_of_isControlSequence sequence)).1] at behind
    exact ih (behind.takes starred fun _ passes => (Token.isBrace_eq_false_iff.mp
      (Token.isBrace_of_isCharacter (Bool.and_eq_true_iff.mp passes).2)).1).1
  | noArguments => exact ⟨guarded, List.forall_mem_nil _⟩
  | omitted _ _ ih => exact ih guarded
  | optional _ leading _ _ first later =>
    exact sited_argument leading (skipped_spacesAhead _) guarded first later
  | bracket _ opens _ closes ih => exact sited_bracket opens guarded ih closes
  | missing => exact ⟨guarded, List.forall_mem_nil _⟩
  | braced leading _ _ _ first later =>
    exact sited_argument leading (skipped_gapAhead false _) guarded first later
  | single leading stands _ unbraced _ ih =>
    exact sited_single leading (skipped_gapAhead false _) stands unbraced guarded ih
  | opening _ _ word leading _ _ _ _ first later =>
    exact sited_argument leading (skipped_spacesAhead _) (guarded.behindWord word) first later
  | namedEnding _ _ word leading _ _ ih =>
    exact sited_argument leading (skipped_spacesAhead _) (guarded.behindWord word) ih
      fun behind => ⟨behind, List.forall_mem_nil _⟩
  | namelessEnding _ _ word => exact ⟨guarded.behindWord word, List.forall_mem_nil _⟩
  | verbatimBody verbatim leaves => exact sited_verbatimBody verbatim leaves guarded
  | @textBody _ _ name _ _ _ _ _ text _ ih =>
    obtain ⟨after, inside⟩ := ih guarded
    have read : commands.bodyRole name = .text := by simp [CommandTable.bodyRole, text]
    refine ⟨after, ?_⟩
    rw [Piece.located, read]
    exact inside
  | unended => exact ⟨guarded, List.forall_mem_nil _⟩
  | ended read ih =>
    obtain ⟨after, inside⟩ := ih guarded.mono
    refine ⟨after, ?_⟩
    rw [Piece.located, Option.toList_some, List.flatMap_singleton]
    exact sited_invocation _ (sited_of_unclaimed (ticket_ending read guarded) _) inside

end Parser

end TexSource
