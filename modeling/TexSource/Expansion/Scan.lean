import TexSource.Diagnostic
import TexSource.Expansion.Stream
import TexSource.Macro
import TexSource.Text.Blank

/-!
# Scanning constructs

A scan reads what follows the first token of a construct: the rest of a definition,
the arguments of a macro, the name of a file. It keeps the tokens it consumes, so
that a construct that turns out not to have the required shape can be given up and
its tokens read again. No scan makes the stream and the consumed tokens together
longer, or calls a macro (`Scan.Shrinks`).
-/

namespace TexSource

namespace Expansion

/-- A stream under a scan, with the tokens consumed and the problems found so far. -/
structure Scanner where
  stream : Stream
  consumed : List Token
  reports : Array Diagnostic

/-- The number of items that are left when everything consumed is put back. -/
def Scanner.extent (scanner : Scanner) : Nat :=
  scanner.stream.items.length + scanner.consumed.length

/-- A computation that reads tokens behind a command. -/
abbrev Scan := StateM Scanner

namespace Scan

/-- Reads tokens until one stops the scan, which is consumed as well. -/
def readUntil {Memory : Type} (test : Memory → Token → Memory × Bool) (memory : Memory) :
    Scan (Reading Memory) :=
  fun scanner =>
    let reading := scanner.stream.readUntil test memory
    (reading, { scanner with
      stream := reading.stream
      consumed := scanner.consumed ++ reading.before ++ reading.stop.toList })

/-- Puts the last token that was consumed back in front of the others. -/
def unread : Scan Unit :=
  fun scanner =>
    match scanner.consumed.getLast? with
    | none => ((), scanner)
    | some token =>
      ((), { scanner with
        stream := scanner.stream.push [token]
        consumed := scanner.consumed.dropLast })

/-- Leaves a report for the branch. -/
def report (problem : Problem) (span : Span) : Scan Unit :=
  modify fun scanner => { scanner with reports := scanner.reports.push (problem.reportAt span) }

/-- The next token of the stream, if there is one. -/
def next : Scan (Option Token) := do
  return (← readUntil (fun _ _ => ((), true)) ()).stop

/-- Whether a token is skipped before something is expected. -/
def isSkipped (spacesOnly : Bool) (token : Token) : Bool :=
  token.isSpace || (!spacesOnly && (token.isEndOfLine || token.isComment))

/-- Reads past blanks, and past comments unless only spaces are to be skipped, to the
token behind them. -/
def nextSignificant (spacesOnly : Bool) : Scan (Option Token) := do
  return (← readUntil (fun _ token => ((), !isSkipped spacesOnly token)) ()).stop

/-- The depth of braces behind a token, and whether the token ends the group. -/
def groupTest (depth : Nat) (token : Token) : Nat × Bool :=
  if token.isBeginGroup then (depth + 1, false)
  else if token.isEndGroup then
    match depth with
    | 0 => (0, true)
    | outer + 1 => (outer, false)
  else (depth, false)

/-- Reads the content of a group whose opening brace has been read. -/
def group : Scan (Reading Nat) :=
  readUntil groupTest 0

/-- The content of a group whose opening brace has been read, if the group ends. -/
def closedGroup : Scan (Option (List Token)) := do
  let body ← group
  return body.stop.map fun _ => body.before

/-- The depth of braces behind a token, and whether the token is the bracket that
ends an optional argument. -/
def bracketTest (depth : Int) (token : Token) : Int × Bool :=
  if token.isBeginGroup then (depth + 1, false)
  else if token.isEndGroup then (depth - 1, false)
  else (depth, depth = 0 && token.isCharacter ']')

/-- The content of brackets whose opening one has been read, if they end. -/
def bracket : Scan (Option (List Token)) := do
  let body ← readUntil bracketTest 0
  return body.stop.map fun _ => body.before

/-- The name of an environment in braces, as its text without blanks at the ends. -/
def environmentName : Scan (Option Text) := do
  match ← nextSignificant true with
  | none => return none
  | some token =>
    if token.isBeginGroup then
      return (← closedGroup).map fun body => (Token.rawText body).strip
    else
      unread
      return none

/-- The rest of a definition with a parameter text. A body that the input cuts short
is taken as far as it goes. -/
def definition (isGlobal : Bool) : Scan (Option Macro) := do
  match ← nextSignificant false with
  | none => return none
  | some name =>
    if name.isDefinable then
      let parameterText ← readUntil (fun _ token => ((), token.isBeginGroup)) ()
      if parameterText.stop.isSome then
        let body ← group
        if body.stop.isNone then
          report (.unterminatedReplacement name.value) name.span
        return some
          (Macro.ofParameterText name.macroName parameterText.before body.before isGlobal)
      else
        return none
    else
      return none

/-- The token whose meaning is copied, behind an optional equals sign and one space. -/
def letSource : Scan (Option Token) := do
  match ← nextSignificant true with
  | none => return none
  | some first =>
    if first.isCharacter '=' then
      match ← next with
      | none => return none
      | some second => if second.isSpace then next else return some second
    else
      return some first

/-- The macro that gives a name the present meaning of a token. A token without a
meaning of its own is replaced by itself. -/
def meaningOf (scope : Scope) (name : Text) (source : Token) (isGlobal : Bool) : Macro :=
  let existing := if source.isDefinable then scope.lookup source.macroName else none
  match existing with
  | some definition => { definition with name := name, isGlobal := isGlobal }
  | none => { name := name, parameters := [], replacement := [source.markExpanded], isGlobal }

/-- What a `\let` binds: a name, and the meaning of its source. -/
def letBinding (scope : Scope) (isGlobal : Bool) : Scan (Option Macro) := do
  match ← nextSignificant false with
  | none => return none
  | some target =>
    if target.isDefinable then
      return (← letSource).map fun source => meaningOf scope target.macroName source isGlobal
    else
      return none

/-- The next token, or the one behind it if it is a star. -/
def nextPastStar : Scan (Option Token) := do
  let first ← nextSignificant false
  if first.any (Token.isCharacter · '*') then nextSignificant false else return first

/-- The only token of a group that is no blank. -/
def soleToken? (tokens : List Token) : Option Token :=
  match tokens.filter fun token => !token.isBlank with
  | [single] => some single
  | _ => none

/-- The control sequence that a new command defines, alone or in braces, behind an
optional star. -/
def newCommandName : Scan (Option Token) := do
  match ← nextPastStar with
  | none => return none
  | some token =>
    if token.isBeginGroup then
      return (((← closedGroup).bind soleToken?).filter Token.isDefinable)
    else
      return (some token).filter Token.isDefinable

/-- The number of arguments of a new command, the default of the first one, and the
token behind them. -/
structure ArgumentList where
  arity : Nat
  default : Option (List Token)
  next : Option Token

/-- The bracketed parts of a new command. A number that is no decimal number fails,
other ill-formed parts give nothing. -/
def argumentList : Scan (Except NumberError (Option ArgumentList)) := do
  let first ← nextSignificant false
  if first.any (Token.isCharacter · '[') then
    let written := Text.strip (((← bracket).getD []).flatMap Token.value)
    if written ≠ [] && written.all Glyph.isDigit then
      match readNumber written with
      | .error error => return .error error
      | .ok arity =>
        let second ← nextSignificant false
        if second.any (Token.isCharacter · '[') && 0 < arity then
          match ← bracket with
          | none => return .ok none
          | some default => return .ok (some ⟨arity, some default, ← nextSignificant false⟩)
        else
          return .ok (some ⟨arity, none, second⟩)
    else
      return .ok none
  else
    return .ok (some ⟨0, none, first⟩)

/-- The body of a new command: a group, or a single token. -/
def newCommandBody (first : Option Token) : Scan (Option (List Token)) := do
  match first with
  | none => return none
  | some token => if token.isBeginGroup then closedGroup else return some [token]

/-- The parameters of a command with an arity, the first of which may have a default. -/
def newCommandParameters (arity : Nat) (default : Option (List Token)) : List Parameter :=
  match default with
  | some tokens => .optional tokens :: List.replicate (arity - 1) .undelimited
  | none => List.replicate arity .undelimited

/-- The rest of the definition of a new command. -/
def newCommand : Scan (Except NumberError (Option Macro)) := do
  match ← newCommandName with
  | none => return .ok none
  | some name =>
    match ← argumentList with
    | .error error => return .error error
    | .ok none => return .ok none
    | .ok (some list) =>
      return .ok <| (← newCommandBody list.next).map fun body =>
        { name := name.macroName
          parameters := newCommandParameters list.arity list.default
          replacement := body }

/-- Whether a definer with a parameter text defines globally. -/
def definer? (word : Text) : Option Bool :=
  if word = "def" || word = "edef" then some false
  else if word = "gdef" || word = "xdef" then some true
  else none

/-- Whether a control word may stand before a definer. -/
def isDefinitionMark (word : Text) : Bool :=
  word = "global" || word = "long" || word = "outer" || word = "protected"

/-- Whether a definition is global after a token, and whether the token ends the
marks before a definer. A mark that is bound as a macro is none. -/
def markTest (scope : Scope) (isGlobal : Bool) (token : Token) : Bool × Bool :=
  match token.kind with
  | .controlWord word =>
    if !scope.binds word && isDefinitionMark word then (isGlobal || word = "global", false)
    else (isGlobal, true)
  | _ => (isGlobal, !isSkipped false token)

/-- What became of a construct that starts with marks before a definer. -/
inductive Marked where
  | defines (definition : Macro)
  | givenUp
  /-- The marks and what was consumed with them belong to no definition. -/
  | notOurs

/-- What becomes of the marks that have been read: the rest of a definition, or nothing. -/
def markedBehind (scope : Scope) (marks : Reading Bool) : Scan Marked := do
  let outcome (definition : Option Macro) : Marked :=
    match definition with
    | some definition => .defines definition
    | none => .givenUp
  match marks.stop with
  | none => return .notOurs
  | some token =>
    match token.kind with
    | .controlWord word =>
      if scope.binds word then
        unread
        return .notOurs
      else
        match definer? word with
        | some global => return outcome (← definition (marks.memory || global))
        | none =>
          if word = "let" then return outcome (← letBinding scope marks.memory)
          else return .notOurs
    | _ =>
      unread
      return .notOurs

/-- The rest of a definition that starts with marks. -/
def marked (scope : Scope) (isGlobal : Bool) : Scan Marked := do
  markedBehind scope (← readUntil (markTest scope) isGlobal)

/-- Whether the tokens ahead are the expected ones; they are read up to the first that is not. -/
def literal : List Token → Scan Bool
  | [] => return true
  | expected :: rest => do
    match ← next with
    | none => return false
    | some actual => if actual.sameAs expected then literal rest else return false

/-- A search for a delimiter: the depth of braces, the tokens seen (the latest
first) with whether each stood outside braces, and the first closing brace without
an opening one. -/
structure DelimiterSearch where
  depth : Nat
  seen : List (Token × Bool)
  extra : Option Span

/-- Whether the latest tokens, outside braces, are the given ones (the last first). -/
def endsWith : List Token → List (Token × Bool) → Bool
  | [], _ => true
  | _ :: _, [] => false
  | expected :: rest, (token, outside) :: seen =>
    outside && token.sameAs expected && endsWith rest seen

/-- The search behind a token, and whether the token completes the delimiter. -/
def delimiterTest (reversedStop : List Token) (search : DelimiterSearch) (token : Token) :
    DelimiterSearch × Bool :=
  let seen := (token, decide (search.depth = 0)) :: search.seen
  let later : DelimiterSearch :=
    if token.isBeginGroup then { search with depth := search.depth + 1, seen }
    else if token.isEndGroup then
      match search.depth with
      | 0 => { search with seen, extra := search.extra <|> some token.span }
      | outer + 1 => { search with depth := outer, seen }
    else { search with seen }
  (later, endsWith reversedStop seen)

/-- The argument before the delimiter that a search found. -/
def delimitedArgument (stop : List Token) (name : Text) (use : Token)
    (search : Reading DelimiterSearch) : Scan (Option (List Token)) := do
  match search.stop with
  | none =>
    report (.delimiterNotFound name) use.span
    return none
  | some last =>
    let collected := search.before ++ [last]
    return some (Macro.stripBraces (collected.take (collected.length - stop.length)))

/-- Reports a closing brace that was met outside of all groups. -/
def reportExtra (name : Text) : Option Span → Scan Unit
  | some span => report (.extraGroupEnd name) span
  | none => return

/-- An argument that runs to the tokens that delimit it. -/
def delimited (stop : List Token) (name : Text) (use : Token) : Scan (Option (List Token)) := do
  let search ← readUntil (delimiterTest stop.reverse) ⟨0, [], none⟩
  reportExtra name search.memory.extra
  delimitedArgument stop name use search

/-- The argument of a macro for one of its parameters. -/
def argument (name : Text) (use : Token) : Parameter → Scan (Option (List Token))
  | .optional default => do
    match ← nextSignificant true with
    | none => return some default
    | some token =>
      if token.isCharacter '[' then
        bracket
      else
        unread
        return some default
  | .undelimited => do
    match ← nextSignificant false with
    | none => return none
    | some token =>
      if token.isEndGroup then
        unread
        return none
      else if token.isBeginGroup then
        closedGroup
      else
        return some [token]
  | .delimited stop => delimited stop name use

/-- The arguments of a macro after those already found (the latest first), or the
number found before one is missing. -/
def arguments (name : Text) (use : Token) (found : List (List Token)) :
    List Parameter → Scan (Except Nat (List (List Token)))
  | [] => return .ok found.reverse
  | parameter :: rest => do
    match ← argument name use parameter with
    | none => return .error found.length
    | some tokens => arguments name use (tokens :: found) rest

/-- What follows the name of a macro in its use: the arguments, or the complaint. -/
def invocation (definition : Macro) (use : Token) : Scan (Except Problem (List (List Token))) := do
  if ← literal definition.literal then
    match ← arguments definition.name use [] definition.parameters with
    | .ok found => return .ok found
    | .error count =>
      return .error (.argumentsMissing definition.name definition.parameters.length count)
  else
    return .error (.useDoesNotMatch definition.name)

/-- Tokens between braces that take no room in the text. -/
def enclosed (first : Token) (rest : List Token) : List Token :=
  let last := (rest.getLast?).getD first
  let opener : Token :=
    { kind := .beginGroup (.char '\x7b'), raw := []
      span := Span.emptyAt first.span.start first.span.fileId, expanded := true }
  let closer : Token :=
    { kind := .endGroup (.char '\x7d'), raw := []
      span := Span.emptyAt last.span.stop last.span.fileId, expanded := true }
  opener :: first :: rest ++ [closer]

/-- The tokens of an inclusion directive behind its control word, and the name of the
file. -/
structure Directive where
  name : Text
  tokens : List Token

/-- Whether a token is a character of any category. -/
def isAnyCharacter (token : Token) : Bool :=
  match token.kind with
  | .character _ _ => true
  | _ => false

/-- The rest of an inclusion directive. A name without braces is put between braces
of no width, so that it stays one argument. -/
def inclusion : Scan (Option Directive) := do
  match ← nextSignificant true with
  | none => return none
  | some token =>
    if token.isBeginGroup then
      match ← closedGroup with
      | none => return none
      | some body =>
        let name := (Token.rawText body).strip
        let consumed := (← get).consumed
        return if name = [] then none else some ⟨name, consumed⟩
    else if isAnyCharacter token then
      let blanks := (← get).consumed.dropLast
      let more ← readUntil (fun _ token => ((), !isAnyCharacter token)) ()
      if more.stop.isSome then
        unread
      return some ⟨(token :: more.before).flatMap Token.value,
        blanks ++ enclosed token more.before⟩
    else
      return none

/-- A scan leaves no more than it found, counting what it consumed, and calls nothing. -/
structure Shrinks {Result : Type} (scan : Scan Result) : Prop where
  extent_le : ∀ scanner, (scan scanner).2.extent ≤ scanner.extent
  calls_le : ∀ scanner, (scan scanner).2.stream.calls.length ≤ scanner.stream.calls.length

namespace Shrinks

/-- A result without a reading takes nothing. -/
theorem pure {Result : Type} (result : Result) : Shrinks (Pure.pure result) :=
  ⟨fun _ => Nat.le_refl _, fun _ => Nat.le_refl _⟩

/-- Scans that take tokens from the front alone do so one after another. -/
theorem bind {First Second : Type} {first : Scan First} {second : First → Scan Second}
    (hfirst : Shrinks first) (hsecond : ∀ result, Shrinks (second result)) :
    Shrinks (first >>= second) :=
  ⟨fun scanner => Nat.le_trans ((hsecond _).extent_le _) (hfirst.extent_le scanner),
    fun scanner => Nat.le_trans ((hsecond _).calls_le _) (hfirst.calls_le scanner)⟩

/-- Looking at the scanner takes nothing. -/
theorem get : Shrinks (MonadState.get : Scan Scanner) :=
  ⟨fun _ => Nat.le_refl _, fun _ => Nat.le_refl _⟩

/-- Reading with a test takes tokens from the front alone. -/
theorem readUntil {Memory : Type} (test : Memory → Token → Memory × Bool) (memory : Memory) :
    Shrinks (Scan.readUntil test memory) := by
  refine ⟨fun scanner => ?_, fun scanner => Stream.calls_readUntil test memory scanner.stream⟩
  have bound := Stream.length_readUntil test memory scanner.stream
  simp only [Scan.readUntil, Scanner.extent, List.length_append]
  omega

/-- Putting the last token back leaves no more than there was, as it is consumed no longer. -/
theorem unread : Shrinks Scan.unread where
  extent_le scanner := by
    simp only [Scan.unread, Scanner.extent]
    cases found : scanner.consumed.getLast? with
    | none => exact Nat.le_refl _
    | some token =>
      have nonempty : scanner.consumed ≠ [] := by
        intro empty
        simp [empty] at found
      have positive := List.length_pos_iff.mpr nonempty
      simp only [Stream.push, List.map_cons, List.map_nil, List.length_append, List.length_cons,
        List.length_nil, List.length_dropLast]
      omega
  calls_le scanner := by
    simp only [Scan.unread]
    cases scanner.consumed.getLast? <;> exact Nat.le_refl _

/-- A report takes nothing. -/
theorem report (problem : Problem) (span : Span) : Shrinks (Scan.report problem span) :=
  ⟨fun _ => Nat.le_refl _, fun _ => Nat.le_refl _⟩

end Shrinks

/-- Reading a token leaves no more than there was. -/
theorem shrinks_next : Shrinks next :=
  .bind (.readUntil ..) fun _ => .pure _

theorem shrinks_nextSignificant (spacesOnly : Bool) : Shrinks (nextSignificant spacesOnly) :=
  .bind (.readUntil ..) fun _ => .pure _

/-- Reading a group leaves no more tokens than there were. -/
theorem shrinks_closedGroup : Shrinks closedGroup :=
  .bind (.readUntil ..) fun _ => .pure _

/-- Reading a group in brackets leaves no more tokens than there were. -/
theorem shrinks_bracket : Shrinks bracket :=
  .bind (.readUntil ..) fun _ => .pure _

theorem shrinks_environmentName : Shrinks environmentName := by
  apply Shrinks.bind (shrinks_nextSignificant _)
  intro token
  cases token with
  | none => exact .pure _
  | some token =>
    dsimp only
    split
    · exact .bind shrinks_closedGroup fun _ => .pure _
    · exact .bind .unread fun _ => .pure _

/-- Reading a definition leaves no more tokens than there were. -/
theorem shrinks_definition (isGlobal : Bool) : Shrinks (definition isGlobal) := by
  apply Shrinks.bind (shrinks_nextSignificant _)
  intro name
  cases name with
  | none => exact .pure _
  | some name =>
    dsimp only
    split
    · apply Shrinks.bind (.readUntil ..)
      intro parameterText
      split
      · apply Shrinks.bind (.readUntil ..)
        intro body
        split
        · exact .bind (.report ..) fun _ => .pure _
        · exact .bind (.pure _) fun _ => .pure _
      · exact .pure _
    · exact .pure _

theorem shrinks_letSource : Shrinks letSource := by
  apply Shrinks.bind (shrinks_nextSignificant _)
  intro first
  cases first with
  | none => exact .pure _
  | some first =>
    dsimp only
    split
    · apply Shrinks.bind shrinks_next
      intro second
      cases second with
      | none => exact .pure _
      | some second =>
        dsimp only
        split
        · exact shrinks_next
        · exact .pure _
    · exact .pure _

/-- Reading a `\let` leaves no more tokens than there were. -/
theorem shrinks_letBinding (scope : Scope) (isGlobal : Bool) :
    Shrinks (letBinding scope isGlobal) := by
  apply Shrinks.bind (shrinks_nextSignificant _)
  intro target
  cases target with
  | none => exact .pure _
  | some target =>
    dsimp only
    split
    · exact .bind shrinks_letSource fun _ => .pure _
    · exact .pure _

theorem shrinks_nextPastStar : Shrinks nextPastStar := by
  apply Shrinks.bind (shrinks_nextSignificant _)
  intro first
  split
  · exact shrinks_nextSignificant _
  · exact .pure _

theorem shrinks_newCommandName : Shrinks newCommandName := by
  apply Shrinks.bind shrinks_nextPastStar
  intro name
  cases name with
  | none => exact .pure _
  | some token =>
    dsimp only
    split
    · exact .bind shrinks_closedGroup fun _ => .pure _
    · exact .pure _

theorem shrinks_argumentList : Shrinks argumentList := by
  apply Shrinks.bind (shrinks_nextSignificant _)
  intro first
  split
  · apply Shrinks.bind shrinks_bracket
    intro digits
    dsimp only
    split
    · split
      · exact .pure _
      · apply Shrinks.bind (shrinks_nextSignificant _)
        intro second
        split
        · apply Shrinks.bind shrinks_bracket
          intro default
          split
          · exact .pure _
          · exact .bind (shrinks_nextSignificant _) fun _ => .pure _
        · exact .pure _
    · exact .pure _
  · exact .pure _

theorem shrinks_newCommandBody (first : Option Token) : Shrinks (newCommandBody first) := by
  cases first with
  | none => exact .pure _
  | some token =>
    unfold newCommandBody
    dsimp only
    split
    · exact shrinks_closedGroup
    · exact .pure _

/-- Reading a `\newcommand` leaves no more tokens than there were. -/
theorem shrinks_newCommand : Shrinks newCommand := by
  apply Shrinks.bind shrinks_newCommandName
  intro name
  cases name with
  | none => exact .pure _
  | some name =>
    apply Shrinks.bind shrinks_argumentList
    intro list
    split
    · exact .pure _
    · exact .pure _
    · exact .bind (shrinks_newCommandBody _) fun _ => .pure _

theorem shrinks_markedBehind (scope : Scope) (marks : Reading Bool) :
    Shrinks (markedBehind scope marks) := by
  unfold markedBehind
  dsimp only
  split
  · exact .pure _
  · split
    · split
      · exact .bind .unread fun _ => .pure _
      · split
        · exact .bind (shrinks_definition _) fun _ => .pure _
        · split
          · exact .bind (shrinks_letBinding ..) fun _ => .pure _
          · exact .pure _
    · exact .bind .unread fun _ => .pure _

/-- Marks and the definition behind them take tokens from the front alone. -/
theorem shrinks_marked (scope : Scope) (isGlobal : Bool) : Shrinks (marked scope isGlobal) :=
  .bind (.readUntil ..) fun marks => shrinks_markedBehind scope marks

theorem shrinks_literal (expected : List Token) : Shrinks (literal expected) := by
  induction expected with
  | nil => exact .pure _
  | cons token rest ih =>
    apply Shrinks.bind shrinks_next
    intro actual
    cases actual with
    | none => exact .pure _
    | some actual =>
      dsimp only
      split
      · exact ih
      · exact .pure _

theorem shrinks_reportExtra (name : Text) (extra : Option Span) :
    Shrinks (reportExtra name extra) := by
  cases extra with
  | none => exact .pure _
  | some span => exact .report ..

/-- A delimited argument takes tokens from the front alone, also if its delimiter is met within
braces. -/
theorem shrinks_delimitedArgument (stop : List Token) (name : Text) (use : Token)
    (search : Reading DelimiterSearch) : Shrinks (delimitedArgument stop name use search) := by
  unfold delimitedArgument
  split
  · exact .bind (.report ..) fun _ => .pure _
  · exact .pure _

/-- Reading a delimited argument leaves no more tokens than there were. -/
theorem shrinks_delimited (stop : List Token) (name : Text) (use : Token) :
    Shrinks (delimited stop name use) :=
  .bind (.readUntil ..) fun _ => .bind (shrinks_reportExtra ..) fun _ =>
    shrinks_delimitedArgument ..

/-- Reading an argument leaves no more tokens than there were. -/
theorem shrinks_argument (name : Text) (use : Token) (parameter : Parameter) :
    Shrinks (argument name use parameter) := by
  cases parameter with
  | undelimited =>
    apply Shrinks.bind (shrinks_nextSignificant _)
    intro token
    cases token with
    | none => exact .pure _
    | some token =>
      dsimp only
      split
      · exact .bind .unread fun _ => .pure _
      · split
        · exact shrinks_closedGroup
        · exact .pure _
  | delimited stop => exact shrinks_delimited ..
  | optional default =>
    apply Shrinks.bind (shrinks_nextSignificant _)
    intro token
    cases token with
    | none => exact .pure _
    | some token =>
      dsimp only
      split
      · exact shrinks_bracket
      · exact .bind .unread fun _ => .pure _

/-- The arguments of a macro take tokens from the front alone. -/
theorem shrinks_arguments (name : Text) (use : Token) (found : List (List Token))
    (parameters : List Parameter) : Shrinks (arguments name use found parameters) := by
  induction parameters generalizing found with
  | nil => exact .pure _
  | cons parameter rest ih =>
    apply Shrinks.bind (shrinks_argument ..)
    intro tokens
    cases tokens with
    | none => exact .pure _
    | some tokens => exact ih _

/-- A use of a macro takes tokens from the front alone. -/
theorem shrinks_invocation (definition : Macro) (use : Token) :
    Shrinks (invocation definition use) := by
  apply Shrinks.bind (shrinks_literal _)
  intro agrees
  split
  · apply Shrinks.bind (shrinks_arguments ..)
    intro found
    split <;> exact .pure _
  · exact .pure _

/-- The group behind a directive takes tokens from the front alone. -/
theorem shrinks_inclusion : Shrinks inclusion := by
  apply Shrinks.bind (shrinks_nextSignificant _)
  intro token
  cases token with
  | none => exact .pure _
  | some token =>
    dsimp only
    split
    · apply Shrinks.bind shrinks_closedGroup
      intro body
      cases body with
      | none => exact .pure _
      | some body =>
        apply Shrinks.bind .get
        intro scanner
        exact .pure _
    · split
      · refine .bind .get fun scanner => .bind (.readUntil ..) fun more => ?_
        split
        · exact .bind .unread fun _ => .pure _
        · exact .bind (.pure _) fun _ => .pure _
      · exact .pure _

end Scan

end Expansion

end TexSource
