import TexSource.Document.Step

/-!
# Reading constructs

A construct starts at a token and ends with its closing token, with the end of an
enclosing construct, or with the input. The functions for one level are written over
the reader of the next level (`Parser.Nested`), which is absent at the deepest one:
there groups keep their tokens as leaves and nothing else opens a level.
-/

namespace TexSource

namespace Parser

/-- What, apart from the end of an enclosing construct, ends a sequence of nodes. -/
inductive Closing where
  | never
  | bracket
  | shift
  | displayShift
  | symbol (glyph : Glyph)
deriving DecidableEq

namespace Closing

/-- Whether a sequence of nodes ends before a token. -/
def isAt : Closing → Token → Bool
  | never, _ => false
  | bracket, token => token.isCharacter ']'
  | shift, token => token.isMathShift
  | displayShift, token => token.kind = .mathShift true
  | symbol glyph, token => token.kind = .controlSymbol (some glyph)

/-- The closing of a formula as messages name it. -/
def text : Closing → Text
  | never => []
  | bracket => "]"
  | shift => "$"
  | displayShift => "$$"
  | symbol glyph => [glyph]

/-- The closing of the formula that a token opens. -/
def ofOpener (opener : Token) : Closing :=
  match opener.kind with
  | .mathShift true => displayShift
  | .mathShift false => shift
  | .controlSymbol (some (.char '[')) => symbol (.char ']')
  | _ => symbol (.char ')')

/-- Whether a closing is that of a displayed formula. -/
def isDisplay (closing : Closing) : Bool :=
  closing = displayShift || closing = symbol (.char ']')

end Closing

/-- The constructs around the reading head. -/
structure Mode where
  inEnvironment : Bool
  inMath : Bool
  inGroup : Bool
deriving DecidableEq

/-- A reader of the nodes of a level. -/
structure Nested where
  read : Closing → Mode → Parse (List Node)
  shrinks : ∀ closing mode, Shrinks (read closing mode)

/-- The reader of the next level, absent at the deepest one. -/
abbrev Inner := Option Nested

/-- The reader of the next level where one opens. -/
def Inner.when (inner : Inner) (opens : Bool) : Inner :=
  if opens then inner else none

/-- The number of spaces at the front of tokens. -/
def spacesAhead (tokens : List Token) : Nat :=
  (tokens.takeWhile Token.isSpace).length

/-- The number of tokens ahead that may be skipped before a mandatory argument:
spaces, comments with their line ends, and one line end of its own. -/
def gapAhead : (lineEndSeen : Bool) → List Token → Nat
  | _, [] => 0
  | lineEndSeen, token :: rest =>
    if token.isSpace then gapAhead lineEndSeen rest + 1
    else if token.isComment then
      match rest with
      | [] => 1
      | next :: later =>
        if next.isEndOfLine then gapAhead lineEndSeen later + 2
        else gapAhead lineEndSeen (next :: later) + 1
    else if token.isEndOfLine && !lineEndSeen then gapAhead true rest + 1
    else 0

/-- The number of tokens before the end of a group whose content is kept flat. -/
def flatLength : (depth : Nat) → List Token → Nat
  | _, [] => 0
  | depth, token :: rest =>
    if token.isEndGroup then
      match depth with
      | 0 => 0
      | outer + 1 => flatLength outer rest + 1
    else if token.isBeginGroup then flatLength (depth + 1) rest + 1
    else flatLength depth rest + 1

/-- Whether the tokens start with the `\end` of the named environment. -/
def startsWithEnd (name : Text) (tokens : List Token) : Bool :=
  match tokens with
  | [] => false
  | token :: rest =>
    token.isControlWord "end" &&
      match rest.dropWhile Token.isSpace with
      | [] => false
      | brace :: inner =>
        brace.isBeginGroup &&
          (Token.rawText (inner.takeWhile fun token => !token.isEndGroup)).strip = name

/-- The number of tokens in the verbatim body of the named environment. -/
def verbatimLength (name : Text) : List Token → Nat
  | [] => 0
  | token :: rest =>
    if startsWithEnd name (token :: rest) then 0 else verbatimLength name rest + 1

/-- Whether a token cannot be an argument by itself or open one. -/
def cannotStartArgument (token : Token) : Bool :=
  token.isEndOfInput || token.isEndGroup || token.isMathShift || token.isBlank ||
    token.isComment || token.isControlWord "begin" || token.isControlWord "end"

/-- Whether a token opens a formula. -/
def opensMath (token : Token) : Bool :=
  token.isMathShift || token.kind = .controlSymbol (some (.char '(')) ||
    token.kind = .controlSymbol (some (.char '['))

/-- Whether a token would open a level other than a group. -/
def opensNesting (token : Token) (inMath : Bool) : Bool :=
  token.isControlWord "begin" || (!inMath && opensMath token)

section

variable (context : Context)

/-- Ends a group, with a report when its closing token is missing. -/
def finishGroup (delimiter : Delimiter) (opener : Placed) (children : List Node)
    (closer : Option Placed) (missing : Problem) : Parse Node := do
  let span ← spanFrom context opener.token.span.start
  let id ← newId
  reportUnless closer.isSome missing opener.token.span id
  return .group id delimiter opener children closer span

/-- Finishing a group takes no token. -/
theorem keeps_finishGroup (delimiter : Delimiter) (opener : Placed) (children : List Node)
    (closer : Option Placed) (missing : Problem) :
    Keeps (finishGroup context delimiter opener children closer missing) :=
  .bind (keeps_spanFrom ..) fun _ => .bind keeps_newId fun _ =>
    .bind (remarks_reportUnless ..).keeps fun _ => .pure _

/-- Reports that the group that is about to be created lies too deep. -/
def reportFlattened (opener : Token) : Parse Unit := do
  reportNesting opener.span (← get).created

theorem remarks_reportFlattened (opener : Token) : Remarks (reportFlattened opener) :=
  ⟨fun state => (remarks_reportNesting opener.span state.created).unchanged state⟩

/-- A group at the deepest level, whose tokens are kept as leaves. -/
def flatGroup : Parse Node := do
  let opener ← take context
  let children ← leavesAhead context (flatLength 0)
  let closer ← takeIf context Token.isEndGroup
  reportFlattened opener.token
  finishGroup context .brace opener children closer .unterminatedGroup

/-- A group in braces, which is kept flat at the deepest level. -/
def group : Inner → Parse Node
  | none => flatGroup context
  | some nested => do
    let opener ← take context
    let children ← nested.read .never ⟨false, false, true⟩
    let closer ← takeIf context Token.isEndGroup
    finishGroup context .brace opener children closer .unterminatedGroup

/-- Reading a group takes its opener at least. -/
theorem advances_group (inner : Inner) : Advances (group context inner) := by
  cases inner with
  | none =>
    exact (advances_take context).bind fun _ => .bind (shrinks_leavesAhead ..) fun _ =>
      .bind (shrinks_takeIf ..) fun _ =>
        (remarks_reportFlattened ..).keeps.bind (fun _ => keeps_finishGroup ..) |>.shrinks
  | some nested =>
    exact (advances_take context).bind fun _ => .bind (nested.shrinks ..) fun _ =>
      .bind (shrinks_takeIf ..) fun _ => (keeps_finishGroup ..).shrinks

/-- A group in brackets; its content ends at the first closing bracket that is not nested deeper. -/
def optionalGroup (nested : Nested) (mode : Mode) : Parse Node := do
  let opener ← take context
  let children ← nested.read .bracket mode
  let closer ← takeIf context (Token.isCharacter · ']')
  finishGroup context .bracket opener children closer .unterminatedOptional

/-- Reading a group in brackets leaves no more than there was. -/
theorem shrinks_optionalGroup (nested : Nested) (mode : Mode) :
    Shrinks (optionalGroup context nested mode) :=
  .bind (advances_take context).toShrinks fun _ => .bind (nested.shrinks ..) fun _ =>
    .bind (shrinks_takeIf ..) fun _ => (keeps_finishGroup ..).shrinks

/-- The halves of a doubled math shift, as two single ones. -/
def splitShift (token : Token) : Token × Token :=
  let start := token.span.start
  let middle : Position := ⟨start.line, start.column + 1, start.offset + 1⟩
  let half (raw : Text) (span : Span) : Token :=
    { kind := .mathShift false, raw := raw, span := span, expanded := token.expanded }
  (half (token.raw.take 1) ⟨start, middle, token.span.fileId⟩,
    half (token.raw.drop 1) ⟨middle, token.span.stop, token.span.fileId⟩)

/-- The tokens with a doubled math shift at their front split. -/
def splitFront : List Token → List Token
  | [] => []
  | token :: rest =>
    if token.kind = .mathShift true then (splitShift token).1 :: (splitShift token).2 :: rest
    else token :: rest

/-- Splitting a doubled math shift leaves the weight of the tokens as it is. -/
theorem weight_splitFront (tokens : List Token) : weight (splitFront tokens) = weight tokens := by
  unfold splitFront
  split
  · rfl
  · rename_i token rest
    split
    · rename_i doubled
      simp [doubled, splitShift, ← Nat.add_assoc]
    · rfl

/-- Splits a doubled math shift ahead where an inline formula ends, so that its first
half closes the formula and its second half opens the next. -/
def splitAhead (closing : Closing) : Parse Unit :=
  modify fun state =>
    if closing = .shift then { state with rest := splitFront state.rest } else state

/-- Splitting a math shift takes no token, and adds none. -/
theorem shrinks_splitAhead (closing : Closing) : Shrinks (splitAhead closing) := by
  constructor
  intro state
  change weight (if closing = .shift then { state with rest := splitFront state.rest }
    else state).rest ≤ weight state.rest
  split
  · exact Nat.le_of_eq (weight_splitFront state.rest)
  · exact Nat.le_refl _

/-- Ends a formula, with a report when its closing token is missing. -/
def finishMath (closing : Closing) (opener : Placed) (children : List Node)
    (closer : Option Placed) : Parse Node := do
  let span ← spanFrom context opener.token.span.start
  let id ← newId
  reportUnless closer.isSome (.unterminatedMath closing.isDisplay closing.text) opener.token.span id
  return .math id closing.isDisplay opener children closer span

/-- Finishing a formula takes no token. -/
theorem keeps_finishMath (closing : Closing) (opener : Placed) (children : List Node)
    (closer : Option Placed) : Keeps (finishMath context closing opener children closer) :=
  .bind (keeps_spanFrom ..) fun _ => .bind keeps_newId fun _ =>
    .bind (remarks_reportUnless ..).keeps fun _ => .pure _

/-- The content of a formula and the token that closes it. -/
def formula (nested : Nested) (closing : Closing) (mode : Mode) :
    Parse (List Node × Option Placed) := do
  let children ← nested.read closing mode
  splitAhead closing
  return (children, ← takeIf context closing.isAt)

/-- Reading a formula leaves no more than there was. -/
theorem shrinks_formula (nested : Nested) (closing : Closing) (mode : Mode) :
    Shrinks (formula context nested closing mode) :=
  .bind (nested.shrinks ..) fun _ => .bind (shrinks_splitAhead _) fun _ =>
    .bind (shrinks_takeIf ..) fun _ => .pure _

/-- A formula, from its opening token to the one that closes it. -/
def math (nested : Nested) (mode : Mode) : Parse Node := do
  let opener ← take context
  let closing := Closing.ofOpener opener.token
  let (children, closer) ← formula context nested closing { mode with inMath := true }
  finishMath context closing opener children closer

/-- Reading a formula takes its opener at least. -/
theorem advances_math (nested : Nested) (mode : Mode) : Advances (math context nested mode) :=
  (advances_take context).bind fun _ => .bind (shrinks_formula ..) fun _ =>
    (keeps_finishMath ..).shrinks

/-- Reports that a command lacks an argument, at the token that stands in its place. -/
def reportMissing (position : Nat) (command : Text) (target : Token) : Parse Unit := do
  let next ← look context 0
  report (.missingArgument position command) (if target.isEndOfInput then next else target).span

theorem remarks_reportMissing (position : Nat) (command : Text) (target : Token) :
    Remarks (reportMissing context position command target) :=
  ⟨fun _ => ⟨_, _, rfl⟩⟩

/-- The content of a mandatory argument: a group, or a single token. -/
def argumentContent (inner : Inner) (target : Token) : Parse Node :=
  if target.isBeginGroup then group context inner else leaf context

/-- Reading an argument leaves no more than there was. -/
theorem shrinks_argumentContent (inner : Inner) (target : Token) :
    Shrinks (argumentContent context inner target) := by
  unfold argumentContent
  split
  · exact (advances_group context inner).toShrinks
  · exact (advances_leaf context).toShrinks

/-- The arguments of a command from a position of its signature on. A mandatory
argument that is missing ends them. -/
def arguments (inner : Inner) (mode : Mode) (command : Text) :
    Nat → List ArgumentKind → Parse (List Argument)
  | _, [] => return []
  | position, .optional :: kinds => do
    let skipped := spacesAhead (← get).rest
    match inner.when ((← look context skipped).isCharacter '[') with
    | none => arguments inner mode command (position + 1) kinds
    | some nested =>
      let leading ← leaves context skipped
      let content ← optionalGroup context nested mode
      return ⟨.optional, leading, content⟩ :: (← arguments inner mode command (position + 1) kinds)
  | position, .mandatory :: kinds => do
    let skipped := gapAhead false (← get).rest
    let target ← look context skipped
    if cannotStartArgument target then
      reportMissing context position command target
      return []
    else
      let leading ← leaves context skipped
      let content ← argumentContent context inner target
      return ⟨.mandatory, leading, content⟩ :: (← arguments inner mode command (position + 1) kinds)

/-- Arguments take tokens from the front alone. -/
theorem shrinks_arguments (inner : Inner) (mode : Mode) (command : Text) (position : Nat)
    (kinds : List ArgumentKind) :
    Shrinks (arguments context inner mode command position kinds) := by
  induction kinds generalizing position with
  | nil => exact .pure _
  | cons kind kinds ih =>
    cases kind with
    | optional =>
      refine .bind .get fun state => .bind (keeps_look ..).shrinks fun target => ?_
      split
      · exact ih _
      · exact .bind (shrinks_leaves ..) fun _ => .bind (shrinks_optionalGroup ..) fun _ =>
          .bind (ih _) fun _ => .pure _
    | mandatory =>
      refine .bind .get fun state => .bind (keeps_look ..).shrinks fun target => ?_
      split
      · exact .bind (remarks_reportMissing ..).keeps.shrinks fun _ => .pure _
      · exact .bind (shrinks_leaves ..) fun _ => .bind (shrinks_argumentContent ..) fun _ =>
          .bind (ih _) fun _ => .pure _

/-- The star of a command whose signature allows one. -/
def starAhead (signature : Signature) : Parse (Option Placed) :=
  if signature.starred then takeIf context (Token.isCharacter · '*') else pure none

theorem shrinks_starAhead (signature : Signature) : Shrinks (starAhead context signature) := by
  unfold starAhead
  split
  · exact shrinks_takeIf ..
  · exact .pure _

/-- The command of a control sequence that has been taken, with the arguments of its
signature. -/
def commandBehind (inner : Inner) (mode : Mode) (head : Placed) : Parse Command := do
  let name := head.token.value
  let signature := context.commands.command name
  let star ← starAhead context signature
  let arguments ← arguments context inner mode name 1 signature.arguments
  let span ← spanFrom context head.token.span.start
  return ⟨← newId, name, head, star, arguments, span⟩

theorem shrinks_commandBehind (inner : Inner) (mode : Mode) (head : Placed) :
    Shrinks (commandBehind context inner mode head) :=
  .bind (shrinks_starAhead ..) fun _ => .bind (shrinks_arguments ..) fun _ =>
    .bind (keeps_spanFrom ..).shrinks fun _ => .bind keeps_newId.shrinks fun _ => .pure _

/-- A control sequence with its star and its arguments. -/
def command (inner : Inner) (mode : Mode) : Parse Node := do
  let head ← take context
  return .command (← commandBehind context inner mode head)

/-- Reading a command takes its head at least. -/
theorem advances_command (inner : Inner) (mode : Mode) :
    Advances (command context inner mode) :=
  (advances_take context).bind fun _ => .bind (shrinks_commandBehind ..) fun _ => .pure _

/-- An `\end` with its name, which is empty when no group follows. -/
def ending (inner : Inner) : Parse (Command × Text) := do
  let head ← take context
  let skipped := spacesAhead (← get).rest
  if (← look context skipped).isBeginGroup then
    let leading ← leaves context skipped
    let nameGroup ← group context inner
    let span ← spanFrom context head.token.span.start
    return (⟨← newId, "end", head, none, [⟨.mandatory, leading, nameGroup⟩], span⟩,
      nameGroup.innerText.strip)
  else
    let span ← spanFrom context head.token.span.start
    return (⟨← newId, "end", head, none, [], span⟩, [])

/-- Reading an end takes its head at least. -/
theorem advances_ending (inner : Inner) : Advances (ending context inner) := by
  refine (advances_take context).bind fun head => .bind .get fun state =>
    .bind (keeps_look ..).shrinks fun target => ?_
  split
  · exact .bind (shrinks_leaves ..) fun _ => .bind (advances_group context inner).toShrinks
      fun _ => .bind (keeps_spanFrom ..).shrinks fun _ => .bind keeps_newId.shrinks fun _ => .pure _
  · exact .bind (keeps_spanFrom ..).shrinks fun _ => .bind keeps_newId.shrinks fun _ => .pure _

/-- An `\end` without an environment to close, which is reported and kept as a command. -/
def strayEnding (inner : Inner) : Parse Node := do
  let ended ← ending context inner
  report (.unmatchedEnd ended.2) ended.1.span ended.1.id
  return .command ended.1

theorem advances_strayEnding (inner : Inner) : Advances (strayEnding context inner) :=
  (advances_ending context inner).bind fun _ =>
    .bind (remarks_report ..).keeps.shrinks fun _ => .pure _

/-- The `\end` behind the body of an environment, if one stands there. -/
def endingAhead (inner : Inner) : Parse (Option (Command × Text)) := do
  if (← look context 0).isControlWord "end" then
    return some (← ending context inner)
  else
    return none

theorem shrinks_endingAhead (inner : Inner) : Shrinks (endingAhead context inner) := by
  apply Shrinks.bind (keeps_look ..).shrinks
  intro token
  split
  · exact .bind (advances_ending context inner).toShrinks fun _ => .pure _
  · exact .pure _

/-- The report on an environment that its own `\end` does not close. -/
def mismatch (name : Text) (opening : Command) : Option (Command × Text) → Option (Problem × Span)
  | none => some (.environmentNeverClosed name, opening.span)
  | some (invocation, endName) =>
    if endName = name then none else some (.environmentEndedBy name endName, invocation.span)

/-- The head of an environment behind `\begin`: the name, and the arguments that the name
calls for. The spaces before the name have been counted. -/
def opening (nested : Nested) (mode : Mode) (head : Placed) (skipped : Nat) :
    Parse (Command × Text) := do
  let leading ← leaves context skipped
  let nameGroup ← group context (some nested)
  let name := nameGroup.innerText.strip
  let extra ← arguments context (some nested) { mode with inEnvironment := false }
    ("begin" ++ Problem.braced name) 1 (context.commands.environment name).arguments
  let span ← spanFrom context head.token.span.start
  return (⟨← newId, "begin", head, none, ⟨.mandatory, leading, nameGroup⟩ :: extra, span⟩, name)

/-- Reading a begin leaves no more than there was. -/
theorem shrinks_opening (nested : Nested) (mode : Mode) (head : Placed) (skipped : Nat) :
    Shrinks (opening context nested mode head skipped) :=
  .bind (shrinks_leaves ..) fun _ => .bind (advances_group context _).toShrinks fun _ =>
    .bind (shrinks_arguments ..) fun _ => .bind (keeps_spanFrom ..).shrinks fun _ =>
      .bind keeps_newId.shrinks fun _ => .pure _

/-- The body of an environment. That of a verbatim one runs to its end as it is written. -/
def environmentBody (nested : Nested) (mode : Mode) (name : Text) : Parse (List Node) :=
  if context.commands.isVerbatim name then leavesAhead context (verbatimLength name)
  else nested.read .never { mode with inEnvironment := true }

/-- Reading a body leaves no more than there was. -/
theorem shrinks_environmentBody (nested : Nested) (mode : Mode) (name : Text) :
    Shrinks (environmentBody context nested mode name) := by
  unfold environmentBody
  split
  · exact shrinks_leavesAhead ..
  · exact nested.shrinks ..

/-- Reports what is wrong with an environment, if anything is. -/
def reportDefect (defect : Option (Problem × Span)) (node : NodeId) : Parse Unit :=
  match defect with
  | none => pure ()
  | some (problem, place) => report problem place node

theorem remarks_reportDefect (defect : Option (Problem × Span)) (node : NodeId) :
    Remarks (reportDefect defect node) := by
  cases defect with
  | none => exact ⟨fun _ => ⟨_, _, rfl⟩⟩
  | some defect => exact remarks_report ..

/-- Ends an environment, with a report when its own `\end` does not close it. -/
def finishEnvironment (name : Text) (opening : Command) (body : List Node)
    (ending : Option (Command × Text)) : Parse Node := do
  let span ← spanFrom context opening.span.start
  let id ← newId
  let defect := mismatch name opening ending
  reportDefect defect id
  return .environment id name opening body (ending.map Prod.fst) defect.isNone span

/-- Finishing an environment takes no token. -/
theorem keeps_finishEnvironment (name : Text) (opening : Command) (body : List Node)
    (ending : Option (Command × Text)) :
    Keeps (finishEnvironment context name opening body ending) :=
  .bind (keeps_spanFrom ..) fun _ => .bind keeps_newId fun _ =>
    .bind (remarks_reportDefect ..).keeps fun _ => .pure _

/-- An environment whose `\begin` has a name. -/
def namedEnvironment (nested : Nested) (mode : Mode) (head : Placed) (skipped : Nat) :
    Parse Node := do
  let opened ← opening context nested mode head skipped
  let body ← environmentBody context nested mode opened.2
  let ending ← endingAhead context (some nested)
  finishEnvironment context opened.2 opened.1 body ending

theorem shrinks_namedEnvironment (nested : Nested) (mode : Mode) (head : Placed)
    (skipped : Nat) : Shrinks (namedEnvironment context nested mode head skipped) :=
  .bind (shrinks_opening ..) fun _ => .bind (shrinks_environmentBody ..) fun _ =>
    .bind (shrinks_endingAhead ..) fun _ => (keeps_finishEnvironment ..).shrinks

/-- What `\begin` starts: an environment, or a plain command when no name follows. -/
def environmentBehind (nested : Nested) (mode : Mode) (head : Placed) : Parse Node := do
  let skipped := spacesAhead (← get).rest
  if (← look context skipped).isBeginGroup then
    namedEnvironment context nested mode head skipped
  else
    let mode := { mode with inEnvironment := false }
    return .command (← commandBehind context (some nested) mode head)

theorem shrinks_environmentBehind (nested : Nested) (mode : Mode) (head : Placed) :
    Shrinks (environmentBehind context nested mode head) := by
  refine .bind .get fun state => .bind (keeps_look ..).shrinks fun target => ?_
  split
  · exact shrinks_namedEnvironment ..
  · exact .bind (shrinks_commandBehind ..) fun _ => .pure _

/-- An environment; a `\begin` without a name is a command. -/
def environment (nested : Nested) (mode : Mode) : Parse Node := do
  environmentBehind context nested mode (← take context)

/-- An environment takes its `\begin` at least. -/
theorem advances_environment (nested : Nested) (mode : Mode) :
    Advances (environment context nested mode) :=
  (advances_take context).bind fun _ => shrinks_environmentBehind ..

/-- A closing brace outside of all groups, which is reported and kept as a leaf. -/
def strayGroupEnd : Parse Node := do
  let token ← take context
  let id ← newId
  report .unexpectedGroupEnd token.token.span id
  return .leaf id token

/-- A stray closing brace is taken. -/
theorem advances_strayGroupEnd : Advances (strayGroupEnd context) :=
  (advances_take context).bind fun _ => .bind keeps_newId.shrinks fun _ =>
    .bind (remarks_report ..).keeps.shrinks fun _ => .pure _

/-- Reports a token that would open a level where there is room for none. -/
def reportUnopened (inner : Inner) (mode : Mode) (token : Token) : Parse Unit :=
  if inner.isNone && opensNesting token mode.inMath then reportNesting token.span else pure ()

/-- A level that is too deep is reported once and changes nothing else. -/
theorem remarks_reportUnopened (inner : Inner) (mode : Mode) (token : Token) :
    Remarks (reportUnopened inner mode token) := by
  unfold reportUnopened
  split
  · exact remarks_reportNesting ..
  · exact ⟨fun _ => ⟨_, _, rfl⟩⟩

/-- The construct that starts at a token. -/
def construct (inner : Inner) (mode : Mode) (token : Token) : Parse Node :=
  if token.isBeginGroup then
    group context inner
  else if token.isEndGroup then
    strayGroupEnd context
  else if token.isControlWord "end" then
    strayEnding context inner
  else
    match inner.when (!mode.inMath && opensMath token) with
    | some nested => math context nested mode
    | none =>
      match inner.when (token.isControlWord "begin") with
      | some nested => environment context nested mode
      | none =>
        if token.isControlSequence then command context inner mode
        else leaf context

/-- Every construct takes at least the token that it starts with. -/
theorem advances_construct (inner : Inner) (mode : Mode) (token : Token) :
    Advances (construct context inner mode token) := by
  unfold construct
  split
  · exact advances_group context inner
  · split
    · exact advances_strayGroupEnd context
    · split
      · exact advances_strayEnding context inner
      · split
        · exact advances_math ..
        · split
          · exact advances_environment ..
          · split
            · exact advances_command ..
            · exact advances_leaf context

/-- The next node of a sequence. -/
def node (inner : Inner) (mode : Mode) : Parse Node := do
  let token ← look context 0
  reportUnopened inner mode token
  construct context inner mode token

/-- Every node takes a token, so that a sequence of nodes comes to its end. -/
theorem advances_node (inner : Inner) (mode : Mode) : Advances (node context inner mode) :=
  .after (keeps_look ..) fun token => .after (remarks_reportUnopened ..).keeps fun _ =>
    advances_construct context inner mode token

end

end Parser

end TexSource
