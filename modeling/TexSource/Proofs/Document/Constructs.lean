import TexSource.Proofs.Document.Passages
import TexSource.Proofs.Document.Respacing

/-!
# Constructs

What a node is read as is settled by the tokens ahead (`Parser.Reads.constructed`): by the first of
them, by the depth of the reading and whether it is in a formula, and for an environment by whether
a brace follows (`Parser.constructAt`). So the same construct stands ahead where the tokens differ
in blanks alone (`Parser.constructAt_eq`).
-/

namespace TexSource

namespace Parser

variable {commands : CommandTable} {level : Nat} {mode : Mode}

/-- What a node is read as. -/
inductive Construct where
  | group
  | flatGroup
  | strayGroupEnd
  | strayEnding
  | math
  | environment
  | nameless
  | plainCommand
  | leaf

/-- The construct that the tokens ahead start with. -/
def constructAt (level : Nat) (mode : Mode) : List Token → Construct
  | [] => .leaf
  | token :: rest =>
    if token.isBeginGroup then if level < maxNesting then .group else .flatGroup
    else if token.isEndGroup then .strayGroupEnd
    else if token.isControlWord "end" then .strayEnding
    else if level < maxNesting && (!mode.inMath && opensMath token) then .math
    else if level < maxNesting && token.isControlWord "begin" then
      if (rest.dropWhile Token.isSpace).head?.any Token.isBeginGroup then .environment
      else .nameless
    else if token.isControlSequence then .plainCommand
    else .leaf

/-- What is read as a node, by its construct. -/
inductive Constructed (commands : CommandTable) (level : Nat) (mode : Mode) :
    List Token → Node → List Token → Construct → Prop where
  | group {id : NodeId} {opener : Placed} {children : List Node} {closer : Option Placed}
      {span : Span} {rest middle after : List Token} {reports : List Report}
      (inside : Reads commands (level + 1) ⟨false, false, true⟩ rest (.sequence .never children)
        middle reports)
      (closes : Takes Token.isEndGroup middle closer after) :
      Constructed commands level mode (opener.token :: rest)
        (.group id .brace (some opener) children closer span) after .group
  | flatGroup {id : NodeId} {opener : Placed} {children : List Node} {closer : Option Placed}
      {span : Span} {rest after : List Token}
      (leaves : Leaves (rest.take (flatLength 0 rest)) children)
      (closes : Takes Token.isEndGroup (rest.drop (flatLength 0 rest)) closer after) :
      Constructed commands level mode (opener.token :: rest)
        (.group id .brace (some opener) children closer span) after .flatGroup
  | strayGroupEnd {id : NodeId} {placed : Placed} {rest : List Token} :
      Constructed commands level mode (placed.token :: rest) (.leaf id placed) rest .strayGroupEnd
  | strayEnding {invocation : Command} {name : Text} {ahead after : List Token}
      {reports : List Report}
      (read : Reads commands level mode ahead (.ending invocation name) after reports) :
      Constructed commands level mode ahead (.command invocation) after .strayEnding
  | math {id : NodeId} {opener : Placed} {closing : Closing} {children : List Node}
      {closer : Option Placed} {span : Span} {rest middle after : List Token}
      {reports : List Report} (closed : closing = .ofOpener opener.token)
      (inside : Reads commands (level + 1) { mode with inMath := true } rest
        (.sequence closing children) middle reports)
      (closes : Takes closing.isAt (closing.ahead middle) closer after) :
      Constructed commands level mode (opener.token :: rest)
        (.math id closing.isDisplay opener children closer span) after .math
  | environment {id : NodeId} {name : Text} {opening : Command} {body : List Node}
      {ending : Option (Command × Text)} {matched : Bool} {span : Span}
      {ahead behindHead behindBody after : List Token} {head inside behind : List Report}
      (opened : Reads commands level mode ahead (.opening opening name) behindHead head)
      (content : Reads commands level mode behindHead (.body name body) behindBody inside)
      (ended : Reads commands level mode behindBody (.behindBody ending) after behind) :
      Constructed commands level mode ahead
        (.environment id name opening body (ending.map Prod.fst) matched span) after .environment
  | nameless {invocation : Command} {ahead after : List Token} {reports : List Report}
      (read : Reads commands level { mode with inEnvironment := false } ahead
        (.command invocation) after reports) :
      Constructed commands level mode ahead (.command invocation) after .nameless
  | plainCommand {invocation : Command} {ahead after : List Token} {reports : List Report}
      (read : Reads commands level mode ahead (.command invocation) after reports) :
      Constructed commands level mode ahead (.command invocation) after .plainCommand
  | leaf {id : NodeId} {placed : Placed} {rest : List Token} :
      Constructed commands level mode (placed.token :: rest) (.leaf id placed) rest .leaf

/-- What an `\end` is read from. -/
theorem Reads.exists_ending {ahead after : List Token} {invocation : Command} {name : Text}
    {reports : List Report}
    (read : Reads commands level mode ahead (.ending invocation name) after reports) :
    ∃ token rest, ahead = token :: rest ∧ token.isControlWord "end" = true := by
  cases read with
  | namedEnding _ _ word => exact ⟨_, _, rfl, word⟩
  | namelessEnding _ _ word => exact ⟨_, _, rfl, word⟩

/-- What a `\begin` is read from. -/
theorem Reads.exists_opening {ahead after : List Token} {invocation : Command} {name : Text}
    {reports : List Report}
    (read : Reads commands level mode ahead (.opening invocation name) after reports) :
    ∃ token rest, ahead = token :: rest ∧ token.isControlWord "begin" = true ∧
      (rest.dropWhile Token.isSpace).head?.any Token.isBeginGroup = true := by
  cases read with
  | opening _ _ word _ braced =>
    rw [drop_spacesAhead] at braced
    exact ⟨_, _, rfl, word, braced⟩

theorem opensMath_of_isControlWord {token : Token} {name : Text}
    (word : token.isControlWord name = true) : opensMath token = false := by
  by_contra opens
  simp [isControlWord_of_opensMath (Bool.not_eq_false _ ▸ opens)] at word

theorem isBrace_eq_false_of_isControlWord {token : Token} {name : Text}
    (word : token.isControlWord name = true) :
    token.isBeginGroup = false ∧ token.isEndGroup = false :=
  Token.isBrace_eq_false_iff.mp
    (isBrace_of_isControlSequence (isControlSequence_of_isControlWord word))

/-- **One reading.** What is read as a node is settled by the tokens ahead. -/
theorem Reads.constructed {ahead after : List Token} {node : Node} {reports : List Report}
    (read : Reads commands level mode ahead (.node node) after reports) :
    Constructed commands level mode ahead node after (constructAt level mode ahead) := by
  generalize whole : Piece.node node = piece at read
  induction read with
  | stop | next | command | noArguments | omitted | optional | bracket | missing | braced | single
  | opening | namedEnding | namelessEnding | verbatimBody | textBody | unended | ended =>
    cases whole
  | unopened _ _ _ ih => exact ih whole
  | group room opens inside closes =>
    cases whole
    rw [constructAt, if_pos opens, if_pos room]
    exact .group inside closes
  | @flatGroup level _ _ _ _ _ _ _ _ deepest opens leaves closes =>
    cases whole
    rw [constructAt, if_pos opens, if_neg (by omega)]
    exact .flatGroup leaves closes
  | strayGroupEnd ends outside =>
    cases whole
    have unopened := Braces.isBeginGroup_of_isEndGroup ends
    simp only [constructAt, unopened, ends, Bool.false_eq_true, if_false, if_true]
    exact .strayGroupEnd
  | strayEnding outside read =>
    cases whole
    obtain ⟨token, rest, rfl, word⟩ := read.exists_ending
    obtain ⟨unopened, unclosed⟩ := isBrace_eq_false_of_isControlWord word
    simp only [constructAt, unopened, unclosed, word, Bool.false_eq_true, if_false, if_true]
    exact .strayEnding read
  | math room text opens closed inside closes =>
    cases whole
    obtain ⟨unopened, unclosed⟩ := Token.isBrace_eq_false_iff.mp (isBrace_of_opensMath opens)
    simp only [constructAt, unopened, unclosed, isControlWord_of_opensMath opens, room, text, opens,
      Bool.false_eq_true, if_false, Bool.not_false, Bool.and_self, decide_true, if_true]
    exact .math closed inside closes
  | environment room opened content ended =>
    cases whole
    obtain ⟨token, rest, rfl, word, braced⟩ := opened.exists_opening
    obtain ⟨unopened, unclosed⟩ := isBrace_eq_false_of_isControlWord word
    have text := opensMath_of_isControlWord word
    simp only [constructAt, unopened, unclosed, isControlWord_end_of_begin word, room, text, word,
      braced, Bool.false_eq_true, if_false, Bool.and_false, Bool.and_self, decide_true, if_true]
    exact .environment opened content ended
  | nameless room word unbraced read =>
    cases whole
    obtain ⟨unopened, unclosed⟩ := isBrace_eq_false_of_isControlWord word
    have text := opensMath_of_isControlWord word
    rw [drop_spacesAhead] at unbraced
    simp only [constructAt, unopened, unclosed, isControlWord_end_of_begin word, room, text, word,
      unbraced, Bool.false_eq_true, if_false, Bool.and_false, Bool.and_self, decide_true, if_true]
    exact .nameless read
  | plainCommand plain read =>
    cases whole
    have sequence := read.sequence_command
    simp only [startsConstruct, Bool.or_eq_false_iff, Bool.and_or_distrib_left] at plain
    obtain ⟨⟨⟨unopened, unclosed⟩, unended⟩, text, other⟩ := plain
    simp only [constructAt, unopened, unclosed, unended, text, other, sequence, Bool.false_eq_true,
      if_false, if_true]
    exact .plainCommand read
  | leaf single plain =>
    cases whole
    simp only [startsConstruct, Bool.or_eq_false_iff, Bool.and_or_distrib_left] at plain
    obtain ⟨⟨⟨unopened, unclosed⟩, unended⟩, text, other⟩ := plain
    simp only [constructAt, unopened, unclosed, unended, text, other, single, Bool.false_eq_true,
      if_false]
    exact .leaf

/-- In front of the same token the same construct stands ahead. -/
theorem constructAt_eq (level : Nat) (mode : Mode) {token other : Token} {rest later : List Token}
    (same : token.Same other) (follow : Follow token other rest later) :
    constructAt level mode (other :: later) = constructAt level mode (token :: rest) := by
  rw [constructAt, constructAt, Discerns.isBeginGroup.same _ _ same,
    Discerns.isEndGroup.same _ _ same, (Discerns.isControlWord "end").same _ _ same,
    Discerns.opensMath.same _ _ same, (Discerns.isControlWord "begin").same _ _ same,
    Discerns.isControlSequence.same _ _ same, follow.abreast.any_dropSpaces .isBeginGroup]

end Parser

end TexSource
