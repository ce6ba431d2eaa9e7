import TexSource.Proofs.Document.Built

/-!
# What the parser reads

The tokens ahead settle what is read next, whatever was read before. `Parser.Reads` says so
construct by construct: the tokens ahead of it, what is built, the tokens behind it, and the
problems that are reported on the way. The parser keeps to it (`Parser.reads_nodesOf`), with
content that lies too deep reported once (`Parser.Report.made`). Numbers, indices and spans of
nodes are left open.
-/

namespace TexSource

/-- Whether a problem is that content lies too deep. -/
def Problem.isNesting : Problem → Bool
  | nestingTooDeep _ => true
  | _ => false

namespace Parser

/-- A problem that is reported at a span, and at a node where there is one. -/
structure Report where
  problem : Problem
  span : Span
  node : Option NodeId

namespace Report

def diagnostic (report : Report) : Diagnostic :=
  report.problem.reportAt report.span report.node

/-- Whether a report says that content lies too deep. -/
def isNesting (report : Report) : Bool :=
  report.problem.isNesting

/-- The reports that are made of those found: content that lies too deep is reported once. -/
def made : (nestingReported : Bool) → List Report → List Report
  | _, [] => []
  | nestingReported, report :: rest =>
    if report.isNesting then
      if nestingReported then made true rest else report :: made true rest
    else report :: made nestingReported rest

theorem made_append (nestingReported : Bool) (reports others : List Report) :
    made nestingReported (reports ++ others) =
      made nestingReported reports ++ made (nestingReported || reports.any isNesting) others := by
  induction reports generalizing nestingReported with
  | nil => simp [made]
  | cons report rest ih =>
    cases nesting : report.isNesting with
    | true => cases nestingReported <;> simp [made, nesting, ih]
    | false => simp [made, nesting, ih]

end Report

/-- The report on a construct whose closing token is missing. -/
def unfinished (closer : Option Placed) (missing : Problem) (span : Span) (node : NodeId) :
    List Report :=
  if closer.isSome then [] else [⟨missing, span, some node⟩]

theorem isControlSequence_of_isControlWord {token : Token} {name : Text}
    (word : token.isControlWord name = true) : token.isControlSequence = true := by
  unfold Token.isControlWord at word
  unfold Token.isControlSequence
  split at word
  · simp [*]
  · cases word

/-- The next token is taken if it satisfies a test. -/
inductive Takes (test : Token → Bool) : List Token → Option Placed → List Token → Prop where
  | taken {placed : Placed} {rest : List Token} (passes : test placed.token = true) :
      Takes test (placed.token :: rest) (some placed) rest
  | left {ahead : List Token} (fails : ahead.head?.any test = false) : Takes test ahead none ahead

/-- Tokens that are kept as leaves. -/
inductive Leaves : List Token → List Node → Prop where
  | nil : Leaves [] []
  | cons (id : NodeId) (placed : Placed) {tokens : List Token} {nodes : List Node}
      (later : Leaves tokens nodes) : Leaves (placed.token :: tokens) (.leaf id placed :: nodes)

/-- The tokens ahead when a formula ends: the parser splits a doubled math shift at the end
of an inline formula. -/
def Closing.ahead (closing : Closing) (tokens : List Token) : List Token :=
  if closing = .shift then splitFront tokens else tokens

theorem Closing.ahead_nil (closing : Closing) {tokens : List Token} (ends : tokens = []) :
    closing.ahead tokens = [] := by
  unfold Closing.ahead
  split <;> simp [ends, splitFront]

/-- What is read of a document. -/
inductive Piece where
  /-- Nodes up to a closing. -/
  | sequence (closing : Closing) (nodes : List Node)
  | node (node : Node)
  /-- An optional argument. -/
  | bracket (node : Node)
  /-- A control sequence with its arguments. -/
  | command (invocation : Command)
  /-- The arguments of a command from a position of its signature on. -/
  | arguments (command : Text) (position : Nat) (kinds : List ArgumentKind)
      (arguments : List Argument)
  /-- A `\begin` with its name and the arguments that the name calls for. -/
  | opening (invocation : Command) (name : Text)
  /-- An `\end`, with the name that it ends. -/
  | ending (invocation : Command) (name : Text)
  /-- The body of the named environment. -/
  | body (name : Text) (nodes : List Node)
  /-- The `\end` behind a body, if one stands there. -/
  | behindBody (ending : Option (Command × Text))

/-- Whether a token starts a construct other than a command without a region. -/
def startsConstruct (level : Nat) (mode : Mode) (token : Token) : Bool :=
  token.isBeginGroup || token.isEndGroup || token.isControlWord "end" ||
    (level < maxNesting &&
      ((!mode.inMath && opensMath token) || token.isControlWord "begin"))

/-- What is read at a nesting level in a mode: the tokens ahead, what is built, the tokens
that are left, and the reports. -/
inductive Reads (commands : CommandTable) :
    (level : Nat) → Mode → List Token → Piece → List Token → List Report → Prop where
  | stop {level : Nat} {mode : Mode} {closing : Closing} {ahead : List Token}
      (halts : Halts closing mode ahead) :
      Reads commands level mode ahead (.sequence closing []) ahead []
  | next {level : Nat} {mode : Mode} {closing : Closing} {token : Token}
      {rest middle after : List Token} {node : Node} {nodes : List Node}
      {reports others : List Report} (inside : endsBefore closing mode token = false)
      (first : Reads commands level mode (token :: rest) (.node node) middle reports)
      (later : Reads commands level mode middle (.sequence closing nodes) after others) :
      Reads commands level mode (token :: rest) (.sequence closing (node :: nodes)) after
        (reports ++ others)
  /-- A token that would open a level where there is room for none is reported. -/
  | unopened {level : Nat} {mode : Mode} {token : Token} {rest after : List Token} {node : Node}
      {reports : List Report} (deepest : level = maxNesting)
      (opens : opensNesting token mode.inMath = true)
      (read : Reads commands level mode (token :: rest) (.node node) after reports) :
      Reads commands level mode (token :: rest) (.node node) after
        (⟨.nestingTooDeep maxNesting, token.span, none⟩ :: reports)
  | group {level : Nat} {mode : Mode} {id : NodeId} {opener : Placed} {children : List Node}
      {closer : Option Placed} {span : Span} {rest middle after : List Token}
      {reports : List Report} (room : level < maxNesting)
      (opens : opener.token.isBeginGroup = true)
      (inside : Reads commands (level + 1) ⟨false, false, true⟩ rest (.sequence .never children)
        middle reports)
      (closes : Takes Token.isEndGroup middle closer after) :
      Reads commands level mode (opener.token :: rest)
        (.node (.group id .brace (some opener) children closer span)) after
        (reports ++ unfinished closer .unterminatedGroup opener.token.span id)
  | flatGroup {level : Nat} {mode : Mode} {id : NodeId} {opener : Placed} {children : List Node}
      {closer : Option Placed} {span : Span} {rest after : List Token}
      (deepest : level = maxNesting) (opens : opener.token.isBeginGroup = true)
      (leaves : Leaves (rest.take (flatLength 0 rest)) children)
      (closes : Takes Token.isEndGroup (rest.drop (flatLength 0 rest)) closer after) :
      Reads commands level mode (opener.token :: rest)
        (.node (.group id .brace (some opener) children closer span)) after
        (⟨.nestingTooDeep maxNesting, opener.token.span, some id⟩ ::
          unfinished closer .unterminatedGroup opener.token.span id)
  | strayGroupEnd {level : Nat} {mode : Mode} {id : NodeId} {placed : Placed} {rest : List Token}
      (ends : placed.token.isEndGroup = true) (outside : mode.inGroup = false) :
      Reads commands level mode (placed.token :: rest) (.node (.leaf id placed)) rest
        [⟨.unexpectedGroupEnd, placed.token.span, some id⟩]
  | strayEnding {level : Nat} {mode : Mode} {invocation : Command} {name : Text}
      {ahead after : List Token} {reports : List Report} (outside : mode.inEnvironment = false)
      (read : Reads commands level mode ahead (.ending invocation name) after reports) :
      Reads commands level mode ahead (.node (.command invocation)) after
        (reports ++ [⟨.unmatchedEnd name, invocation.span, some invocation.id⟩])
  | math {level : Nat} {mode : Mode} {id : NodeId} {opener : Placed} {closing : Closing}
      {children : List Node} {closer : Option Placed} {span : Span}
      {rest middle after : List Token} {reports : List Report} (room : level < maxNesting)
      (text : mode.inMath = false) (opens : opensMath opener.token = true)
      (closed : closing = .ofOpener opener.token)
      (inside : Reads commands (level + 1) { mode with inMath := true } rest
        (.sequence closing children) middle reports)
      (closes : Takes closing.isAt (closing.ahead middle) closer after) :
      Reads commands level mode (opener.token :: rest)
        (.node (.math id closing.isDisplay opener children closer span)) after
        (reports ++ unfinished closer (.unterminatedMath closing.isDisplay closing.text)
          opener.token.span id)
  | environment {level : Nat} {mode : Mode} {id : NodeId} {name : Text} {opening : Command}
      {body : List Node} {ending : Option (Command × Text)} {span : Span}
      {ahead behindHead behindBody after : List Token} {head inside behind : List Report}
      (room : level < maxNesting)
      (opened : Reads commands level mode ahead (.opening opening name) behindHead head)
      (content : Reads commands level mode behindHead (.body name body) behindBody inside)
      (ended : Reads commands level mode behindBody (.behindBody ending) after behind) :
      Reads commands level mode ahead
        (.node (.environment id name opening body (ending.map Prod.fst)
          (mismatch name opening ending).isNone span)) after
        (head ++ inside ++ behind ++
          (mismatch name opening ending).toList.map fun defect => ⟨defect.1, defect.2, some id⟩)
  /-- A `\begin` without a name is a plain command. -/
  | nameless {level : Nat} {mode : Mode} {token : Token} {invocation : Command}
      {rest after : List Token} {reports : List Report} (room : level < maxNesting)
      (word : token.isControlWord "begin" = true)
      (unbraced : (rest.drop (spacesAhead rest)).head?.any Token.isBeginGroup = false)
      (read : Reads commands level { mode with inEnvironment := false } (token :: rest)
        (.command invocation) after reports) :
      Reads commands level mode (token :: rest) (.node (.command invocation)) after reports
  | plainCommand {level : Nat} {mode : Mode} {token : Token} {invocation : Command}
      {rest after : List Token} {reports : List Report}
      (plain : startsConstruct level mode token = false)
      (read : Reads commands level mode (token :: rest) (.command invocation) after reports) :
      Reads commands level mode (token :: rest) (.node (.command invocation)) after reports
  | leaf {level : Nat} {mode : Mode} {id : NodeId} {placed : Placed} {rest : List Token}
      (single : placed.token.isControlSequence = false)
      (plain : startsConstruct level mode placed.token = false) :
      Reads commands level mode (placed.token :: rest) (.node (.leaf id placed)) rest []
  | command {level : Nat} {mode : Mode} (id : NodeId) (span : Span) {head : Placed}
      {star : Option Placed} {arguments : List Argument} {rest behindStar after : List Token}
      {reports : List Report} (sequence : head.token.isControlSequence = true)
      (starred : Takes (fun token => (commands.command head.token.value).starred &&
        token.isCharacter '*') rest star behindStar)
      (read : Reads commands level mode behindStar (.arguments head.token.value 1
        (commands.command head.token.value).arguments arguments) after reports) :
      Reads commands level mode (head.token :: rest)
        (.command ⟨id, head.token.value, head, star, arguments, span⟩) after reports
  | noArguments {level : Nat} {mode : Mode} {command : Text} {position : Nat}
      {ahead : List Token} :
      Reads commands level mode ahead (.arguments command position [] []) ahead []
  | omitted {level : Nat} {mode : Mode} {command : Text} {position : Nat}
      {kinds : List ArgumentKind} {arguments : List Argument} {ahead after : List Token}
      {reports : List Report}
      (absent : (level < maxNesting &&
        (ahead.drop (spacesAhead ahead)).head?.any (Token.isCharacter · '[')) = false)
      (later : Reads commands level mode ahead (.arguments command (position + 1) kinds arguments)
        after reports) :
      Reads commands level mode ahead (.arguments command position (.optional :: kinds) arguments)
        after reports
  | optional {level : Nat} {mode : Mode} {command : Text} {position : Nat}
      {kinds : List ArgumentKind} {arguments : List Argument} {blanks : List Node}
      {content : Node} {ahead behind after : List Token} {reports others : List Report}
      (room : level < maxNesting) (leading : Leaves (ahead.take (spacesAhead ahead)) blanks)
      (read : Reads commands level mode (ahead.drop (spacesAhead ahead)) (.bracket content) behind
        reports)
      (later : Reads commands level mode behind
        (.arguments command (position + 1) kinds arguments) after others) :
      Reads commands level mode ahead
        (.arguments command position (.optional :: kinds)
          (⟨.optional, blanks, content⟩ :: arguments)) after (reports ++ others)
  | bracket {level : Nat} {mode : Mode} {id : NodeId} {opener : Placed} {children : List Node}
      {closer : Option Placed} {span : Span} {rest middle after : List Token}
      {reports : List Report} (room : level < maxNesting)
      (opens : opener.token.isCharacter '[' = true)
      (inside : Reads commands (level + 1) mode rest (.sequence .bracket children) middle reports)
      (closes : Takes (Token.isCharacter · ']') middle closer after) :
      Reads commands level mode (opener.token :: rest)
        (.bracket (.group id .bracket (some opener) children closer span)) after
        (reports ++ unfinished closer .unterminatedOptional opener.token.span id)
  | missing {level : Nat} {mode : Mode} {command : Text} {position : Nat}
      {kinds : List ArgumentKind} (span : Span) {ahead : List Token}
      (refused : (ahead.drop (gapAhead false ahead)).head?.all cannotStartArgument = true) :
      Reads commands level mode ahead (.arguments command position (.mandatory :: kinds) []) ahead
        [⟨.missingArgument position command, span, none⟩]
  | braced {level : Nat} {mode : Mode} {command : Text} {position : Nat}
      {kinds : List ArgumentKind} {arguments : List Argument} {blanks : List Node}
      {content : Node} {ahead behind after : List Token} {reports others : List Report}
      (leading : Leaves (ahead.take (gapAhead false ahead)) blanks)
      (opens : (ahead.drop (gapAhead false ahead)).head?.any Token.isBeginGroup = true)
      (read : Reads commands level mode (ahead.drop (gapAhead false ahead)) (.node content)
        behind reports)
      (later : Reads commands level mode behind
        (.arguments command (position + 1) kinds arguments) after others) :
      Reads commands level mode ahead
        (.arguments command position (.mandatory :: kinds)
          (⟨.mandatory, blanks, content⟩ :: arguments)) after (reports ++ others)
  | single {level : Nat} {mode : Mode} {command : Text} {position : Nat}
      {kinds : List ArgumentKind} {arguments : List Argument} {blanks : List Node}
      {id : NodeId} {placed : Placed} {ahead rest after : List Token} {others : List Report}
      (leading : Leaves (ahead.take (gapAhead false ahead)) blanks)
      (stands : ahead.drop (gapAhead false ahead) = placed.token :: rest)
      (accepted : cannotStartArgument placed.token = false)
      (unbraced : placed.token.isBeginGroup = false)
      (later : Reads commands level mode rest
        (.arguments command (position + 1) kinds arguments) after others) :
      Reads commands level mode ahead
        (.arguments command position (.mandatory :: kinds)
          (⟨.mandatory, blanks, .leaf id placed⟩ :: arguments)) after others
  | opening {level : Nat} {mode : Mode} (id : NodeId) (span : Span) {head : Placed}
      {blanks : List Node} {nameGroup : Node} {name : Text} {extra : List Argument}
      {rest behindName after : List Token} {reports others : List Report}
      (word : head.token.isControlWord "begin" = true)
      (leading : Leaves (rest.take (spacesAhead rest)) blanks)
      (braced : (rest.drop (spacesAhead rest)).head?.any Token.isBeginGroup = true)
      (named : Reads commands level mode (rest.drop (spacesAhead rest)) (.node nameGroup)
        behindName reports)
      (called : name = nameGroup.innerText.strip)
      (read : Reads commands level { mode with inEnvironment := false } behindName
        (.arguments ("begin" ++ Problem.braced name) 1 (commands.environment name).arguments extra)
        after others) :
      Reads commands level mode (head.token :: rest)
        (.opening ⟨id, "begin", head, none, ⟨.mandatory, blanks, nameGroup⟩ :: extra, span⟩ name)
        after (reports ++ others)
  | namedEnding {level : Nat} {mode : Mode} (id : NodeId) (span : Span) {head : Placed}
      {blanks : List Node} {nameGroup : Node} {rest after : List Token} {reports : List Report}
      (word : head.token.isControlWord "end" = true)
      (leading : Leaves (rest.take (spacesAhead rest)) blanks)
      (braced : (rest.drop (spacesAhead rest)).head?.any Token.isBeginGroup = true)
      (named : Reads commands level mode (rest.drop (spacesAhead rest)) (.node nameGroup) after
        reports) :
      Reads commands level mode (head.token :: rest)
        (.ending ⟨id, "end", head, none, [⟨.mandatory, blanks, nameGroup⟩], span⟩
          nameGroup.innerText.strip) after reports
  | namelessEnding {level : Nat} {mode : Mode} (id : NodeId) (span : Span) {head : Placed}
      {rest : List Token} (word : head.token.isControlWord "end" = true)
      (unbraced : (rest.drop (spacesAhead rest)).head?.any Token.isBeginGroup = false) :
      Reads commands level mode (head.token :: rest) (.ending ⟨id, "end", head, none, [], span⟩ [])
        rest []
  | verbatimBody {level : Nat} {mode : Mode} {name : Text} {body : List Node}
      {ahead : List Token} (verbatim : commands.isVerbatim name = true)
      (leaves : Leaves (ahead.take (verbatimLength name ahead)) body) :
      Reads commands level mode ahead (.body name body) (ahead.drop (verbatimLength name ahead)) []
  | textBody {level : Nat} {mode : Mode} {name : Text} {body : List Node}
      {ahead after : List Token} {reports : List Report} (room : level < maxNesting)
      (text : commands.isVerbatim name = false)
      (read : Reads commands (level + 1) { mode with inEnvironment := true } ahead
        (.sequence .never body) after reports) :
      Reads commands level mode ahead (.body name body) after reports
  | unended {level : Nat} {mode : Mode} {ahead : List Token}
      (absent : ahead.head?.any (Token.isControlWord · "end") = false) :
      Reads commands level mode ahead (.behindBody none) ahead []
  | ended {level : Nat} {mode : Mode} {invocation : Command} {name : Text}
      {ahead after : List Token} {reports : List Report}
      (read : Reads commands level mode ahead (.ending invocation name) after reports) :
      Reads commands level mode ahead (.behindBody (some (invocation, name))) after reports

end Parser

end TexSource
