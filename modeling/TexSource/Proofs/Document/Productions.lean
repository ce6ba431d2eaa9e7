import TexSource.Proofs.Document.Coverage
import TexSource.Proofs.Document.Derivation

/-!
# The parser keeps to its grammar

Every function of the parser reads what the relation `Parser.Reads` says of the tokens ahead, and
reports what it says (`Parser.Records`): one lemma for each construct, written over the reader of
the next level, and from them the whole document by recursion on the room that is left.
-/

namespace TexSource

namespace Parser

/-- What a step adds to the reports. -/
structure Logged (before : State) (reports : List Report) (after : State) : Prop where
  diagnostics : after.diagnostics.toList = before.diagnostics.toList ++
    (Report.made before.nestingReported reports).map Report.diagnostic
  nestingReported :
    after.nestingReported = (before.nestingReported || reports.any Report.isNesting)

namespace Logged

variable {before middle after : State} {reports others : List Report}

/-- A step that leaves the diagnostics and the mark as they are logs nothing. -/
theorem unchanged (diagnostics : after.diagnostics = before.diagnostics)
    (nestingReported : after.nestingReported = before.nestingReported) :
    Logged before [] after :=
  ⟨by simp [diagnostics, Report.made], by simp [nestingReported]⟩

/-- What is logged by one step and by the next is logged by both. -/
theorem append (first : Logged before reports middle) (second : Logged middle others after) :
    Logged before (reports ++ others) after where
  diagnostics := by
    rw [second.diagnostics, first.diagnostics, first.nestingReported, Report.made_append,
      List.map_append, List.append_assoc]
  nestingReported := by
    rw [second.nestingReported, first.nestingReported, List.any_append, Bool.or_assoc]

theorem appendNone (first : Logged before reports middle) (second : Logged middle [] after) :
    Logged before reports after := by
  have both := first.append second
  rwa [List.append_nil] at both

end Logged

/-- A step that takes nothing and adds reports. -/
structure Notes (before : State) (reports : List Report) (after : State) : Prop
    extends Logged before reports after where
  rest : after.rest = before.rest

/-- A step reads a piece. -/
def Records (commands : CommandTable) (level : Nat) (mode : Mode) (before : State)
    (piece : Piece) (after : State) : Prop :=
  ∃ reports, Reads commands level mode before.rest piece after.rest reports ∧
    Logged before reports after

section

variable (context : Context)

/-- A test of a token ahead that the end of input fails. -/
theorem test_getD_eq_any (test : Token → Bool) (ends : test context.endOfInput = false)
    (distance : Nat) (tokens : List Token) :
    test (tokens.getD distance context.endOfInput) =
      (tokens.drop distance).head?.any test := by
  rw [List.getD_eq_getElem?_getD, List.head?_drop]
  cases tokens[distance]? with
  | none => simp [ends]
  | some token => rfl

/-- A test of a token ahead that the end of input passes. -/
theorem test_getD_eq_all (test : Token → Bool) (ends : test context.endOfInput = true)
    (distance : Nat) (tokens : List Token) :
    test (tokens.getD distance context.endOfInput) =
      (tokens.drop distance).head?.all test := by
  rw [List.getD_eq_getElem?_getD, List.head?_drop]
  cases tokens[distance]? with
  | none => simp [ends]
  | some token => rfl

/-- Taking a token logs nothing. -/
theorem logged_take (state : State) : Logged state [] (take context state).2 := by
  unfold take
  split
  · exact .unchanged rfl rfl
  · exact .unchanged rfl rfl

theorem logged_leaf (state : State) : Logged state [] (leaf context state).2 :=
  (logged_take context state).append (.unchanged rfl rfl)

/-- What is left starts with the token that is taken. -/
theorem rest_eq_take {state : State} (ahead : state.rest ≠ []) :
    state.rest = (take context state).1.token :: (take context state).2.rest := by
  unfold take
  split
  · contradiction
  · rename_i token rest split
    exact split

/-- A token is taken if it is of the kind that is asked for. -/
theorem takes_takeIf (test : Token → Bool) (ends : test context.endOfInput = false)
    (state : State) :
    Takes test state.rest (takeIf context test state).1 (takeIf context test state).2.rest ∧
      Logged state [] (takeIf context test state).2 := by
  by_cases passes : test (state.rest.getD 0 context.endOfInput) = true
  · have inBounds := lt_length_of_look context test ends passes
    have split := rest_eq_take context (List.ne_nil_of_length_pos inBounds)
    rw [takeIf_of_passes context passes]
    refine ⟨?_, logged_take context state⟩
    rw [split] at passes ⊢
    exact .taken passes
  · have fails := Bool.not_eq_true _ ▸ passes
    rw [takeIf_of_fails context fails]
    rw [test_getD_eq_any context test ends] at fails
    exact ⟨.left fails, .unchanged rfl rfl⟩

/-- Leaves are made of the tokens that are taken, without a report. -/
theorem leaves_leaves {count : Nat} {state : State} (ahead : count ≤ state.rest.length) :
    Leaves (state.rest.take count) (leaves context count state).1 ∧
      Logged state [] (leaves context count state).2 := by
  induction count generalizing state with
  | zero => exact ⟨.nil, .unchanged rfl rfl⟩
  | succ count ih =>
    have split := rest_eq_take context (List.ne_nil_of_length_pos (Nat.zero_lt_of_lt ahead))
    have left : count ≤ (leaf context state).2.rest.length := by
      rw [rest_leaf, List.length_tail]
      omega
    obtain ⟨later, logged⟩ := ih left
    refine ⟨?_, .append (logged_leaf context state) logged⟩
    rw [split, List.take_succ_cons]
    exact .cons _ _ later

/-- A report of another kind than nesting is noted as it is. -/
theorem notes_report {problem : Problem} (other : problem.isNesting = false) (span : Span)
    (node : Option NodeId) (state : State) :
    Notes state [⟨problem, span, node⟩] (report problem span node state).2 where
  diagnostics := by
    simp [Report.made, Report.isNesting, other, Report.diagnostic, report, modify, modifyGet,
      MonadStateOf.modifyGet, StateT.modifyGet, pure]
  nestingReported := by
    simp [Report.isNesting, other, report, modify, modifyGet, MonadStateOf.modifyGet,
      StateT.modifyGet, pure]
  rest := rfl

/-- That nesting is too deep is noted at most once. -/
theorem notes_reportNesting (span : Span) (node : Option NodeId) (state : State) :
    Notes state [⟨.nestingTooDeep maxNesting, span, node⟩] (reportNesting span node state).2 ∧
      (reportNesting span node state).2.created = state.created := by
  have run : (reportNesting span node state).2 =
      if state.nestingReported then state
      else { state with
        nestingReported := true
        diagnostics :=
          state.diagnostics.push ((Problem.nestingTooDeep maxNesting).reportAt span node) } := rfl
  rw [run]
  cases seen : state.nestingReported with
  | true =>
    refine ⟨⟨⟨?_, ?_⟩, rfl⟩, rfl⟩
    · simp [seen, Report.made, Report.isNesting, Problem.isNesting]
    · simp [seen]
  | false =>
    refine ⟨⟨⟨?_, ?_⟩, rfl⟩, rfl⟩
    · simp [seen, Report.made, Report.isNesting, Problem.isNesting, Report.diagnostic]
    · simp [Report.isNesting, Problem.isNesting]

/-- A missing argument is noted without a node. -/
theorem notes_reportMissing (position : Nat) (command : Text) (target : Token) (state : State) :
    ∃ span, Notes state [⟨.missingArgument position command, span, none⟩]
      (reportMissing context position command target state).2 :=
  ⟨_, notes_report rfl _ none state⟩

/-- A group that is kept flat is noted on the node that is made next. -/
theorem notes_reportFlattened (opener : Token) (state : State) :
    Notes state [⟨.nestingTooDeep maxNesting, opener.span, some state.created⟩]
      (reportFlattened opener state).2 :=
  (notes_reportNesting opener.span (some state.created) state).1

theorem created_reportFlattened (opener : Token) (state : State) :
    (reportFlattened opener state).2.created = state.created :=
  (notes_reportNesting opener.span (some state.created) state).2

theorem Notes.ofSame {before other after : State} {reports : List Report}
    (notes : Notes before reports after) (diagnostics : other.diagnostics = before.diagnostics)
    (nestingReported : other.nestingReported = before.nestingReported)
    (rest : other.rest = before.rest) : Notes other reports after where
  diagnostics := by rw [diagnostics, nestingReported, notes.diagnostics]
  nestingReported := by rw [nestingReported, notes.nestingReported]
  rest := notes.rest.trans rest.symm

/-- A construct is reported only if its end is missing. -/
theorem notes_reportUnless (closer : Option Placed) {missing : Problem}
    (other : missing.isNesting = false) (span : Span) (node : NodeId) (state : State) :
    Notes state (unfinished closer missing span node)
      (reportUnless closer.isSome missing span node state).2 := by
  cases closer with
  | none => exact notes_report other span node state
  | some closer => exact ⟨.unchanged rfl rfl, rfl⟩

/-- Reports behind a piece that has been read. -/
theorem Records.ofNotes {commands : CommandTable} {level : Nat} {mode : Mode}
    {before state after : State} {piece : Piece} {reports others : List Report}
    (read : Reads commands level mode before.rest piece state.rest (reports ++ others))
    (logged : Logged before reports state) (notes : Notes state others after) :
    Records commands level mode before piece after :=
  ⟨_, notes.rest.symm ▸ read, logged.append notes.toLogged⟩

variable {level : Nat} (mode : Mode)

/-- A group that is read up to its closer is recorded with what it holds. -/
theorem records_finishGroup {before state : State} {delimiter : Delimiter} {opener : Placed}
    {children : List Node} {closer : Option Placed} {missing : Problem} {reports : List Report}
    (piece : Node → Piece) (other : missing.isNesting = false)
    (logged : Logged before reports state)
    (read : ∀ span, Reads context.commands level mode before.rest
      (piece (.group state.created delimiter opener children closer span)) state.rest
      (reports ++ unfinished closer missing opener.token.span state.created)) :
    Records context.commands level mode before
      (piece (finishGroup context delimiter opener children closer missing state).1)
      (finishGroup context delimiter opener children closer missing state).2 :=
  .ofNotes (read _) logged
    ((notes_reportUnless closer other opener.token.span state.created
      { state with created := state.created + 1 }).ofSame rfl rfl rfl)

/-- A reader reads sequences at a level. -/
def Nested.ReadsAt (nested : Nested) (commands : CommandTable) (level : Nat) : Prop :=
  ∀ closing mode state, Records commands level mode state
    (.sequence closing (nested.read closing mode state).1) (nested.read closing mode state).2

/-- The reader of the next level reads at this level, and is absent at the deepest one only. -/
def Inner.ReadsBelow (inner : Inner) (commands : CommandTable) (level : Nat) : Prop :=
  match inner with
  | none => level = maxNesting
  | some nested => level < maxNesting ∧ nested.ReadsAt commands (level + 1)

/-- What the reader of the next level leaves unread when it opens nothing. -/
theorem Inner.when_eq_none {commands : CommandTable} {inner : Inner}
    (below : inner.ReadsBelow commands level)
    {opens : Bool} (none : inner.when opens = none) : (level < maxNesting && opens) = false := by
  cases inner with
  | none =>
    have deepest : level = maxNesting := below
    simp [deepest]
  | some nested => cases opens <;> simp_all [Inner.when]

/-- A level that is open has room and reads as the level below says. -/
theorem Inner.when_eq_some_of_below {commands : CommandTable} {inner : Inner}
    (below : inner.ReadsBelow commands level) {opens : Bool} {nested : Nested}
    (present : inner.when opens = some nested) :
    opens = true ∧ level < maxNesting ∧ nested.ReadsAt commands (level + 1) := by
  obtain ⟨opened, rfl⟩ := Inner.when_eq_some.mp present
  exact ⟨opened, below⟩

/-- A construct starts by taking the token ahead. -/
theorem rest_eq_take_of_head {test : Token → Bool} {state : State}
    (stands : state.rest.head?.any test = true) :
    state.rest = (take context state).1.token :: (take context state).2.rest ∧
      test (take context state).1.token = true := by
  have ahead : state.rest ≠ [] := by
    intro none
    rw [none] at stands
    cases stands
  have split := rest_eq_take context ahead
  rw [split] at stands
  exact ⟨split, stands⟩

/-- **A group** that is read is a piece of the derivation. -/
theorem records_group (ends : context.endOfInput.kind = .endOfInput) {inner : Inner}
    (below : inner.ReadsBelow context.commands level) {state : State}
    (opens : state.rest.head?.any Token.isBeginGroup = true) :
    Records context.commands level mode state (.node (group context inner state).1)
      (group context inner state).2 := by
  obtain ⟨split, brace⟩ := rest_eq_take_of_head context opens
  have notEnd : Token.isEndGroup context.endOfInput = false := by simp [Token.isEndGroup, ends]
  cases inner with
  | none =>
    obtain ⟨leaves, inside⟩ := leaves_leaves context (flatLength_le 0 (take context state).2.rest)
    obtain ⟨closes, closed⟩ := takes_takeIf context Token.isEndGroup notEnd
      (Parser.leaves context (flatLength 0 (take context state).2.rest) (take context state).2).2
    rw [rest_leaves] at closes
    have flattened := notes_reportFlattened (take context state).1.token
      (takeIf context Token.isEndGroup (Parser.leaves context
        (flatLength 0 (take context state).2.rest) (take context state).2).2).2
    have logged := (((logged_take context state).append inside).append closed).append
      flattened.toLogged
    have whole := records_finishGroup context mode .node rfl logged fun span => by
      rw [flattened.rest, created_reportFlattened, split]
      exact .flatGroup below brace leaves closes
    exact whole
  | some nested =>
    obtain ⟨room, reads⟩ := below
    obtain ⟨reports, inside, within⟩ := reads .never ⟨false, false, true⟩ (take context state).2
    obtain ⟨closes, closed⟩ := takes_takeIf context Token.isEndGroup notEnd
      (nested.read .never ⟨false, false, true⟩ (take context state).2).2
    have logged := ((logged_take context state).append within).appendNone closed
    have whole := records_finishGroup context mode .node rfl logged fun span => by
      rw [split]
      exact .group room brace inside closes
    exact whole

/-- **A group in brackets** that is read is a piece of the derivation. -/
theorem records_optionalGroup (ends : context.endOfInput.kind = .endOfInput) {nested : Nested}
    (room : level < maxNesting) (reads : nested.ReadsAt context.commands (level + 1))
    {state : State} (opens : state.rest.head?.any (Token.isCharacter · '[') = true) :
    Records context.commands level mode state (.bracket (optionalGroup context nested mode state).1)
      (optionalGroup context nested mode state).2 := by
  obtain ⟨split, bracket⟩ := rest_eq_take_of_head context opens
  have notEnd : Token.isCharacter context.endOfInput ']' = false := by
    simp [Token.isCharacter, ends]
  obtain ⟨reports, inside, within⟩ := reads .bracket mode (take context state).2
  obtain ⟨closes, closed⟩ := takes_takeIf context (Token.isCharacter · ']') notEnd
    (nested.read .bracket mode (take context state).2).2
  have logged := ((logged_take context state).append within).appendNone closed
  have whole := records_finishGroup context mode .bracket rfl logged fun span => by
    rw [split]
    exact .bracket room bracket inside closes
  exact whole

/-- Splitting a shift changes what is ahead, as the closing says. -/
theorem rest_splitAhead (closing : Closing) (state : State) :
    (splitAhead closing state).2.rest = closing.ahead state.rest := by
  change (if closing = .shift then { state with rest := splitFront state.rest } else state).rest = _
  unfold Closing.ahead
  split <;> rfl

/-- Splitting a shift logs nothing. -/
theorem logged_splitAhead (closing : Closing) (state : State) :
    Logged state [] (splitAhead closing state).2 := by
  change Logged state [] (if closing = .shift then { state with rest := splitFront state.rest }
    else state)
  split <;> exact .unchanged rfl rfl

theorem records_finishMath {before state : State} {closing : Closing} {opener : Placed}
    {children : List Node} {closer : Option Placed} {reports : List Report}
    (logged : Logged before reports state)
    (read : ∀ span, Reads context.commands level mode before.rest
      (.node (.math state.created closing.isDisplay opener children closer span)) state.rest
      (reports ++ unfinished closer (.unterminatedMath closing.isDisplay closing.text)
        opener.token.span state.created)) :
    Records context.commands level mode before
      (.node (finishMath context closing opener children closer state).1)
      (finishMath context closing opener children closer state).2 :=
  .ofNotes (read _) logged
    ((notes_reportUnless closer rfl opener.token.span state.created
      { state with created := state.created + 1 }).ofSame rfl rfl rfl)

/-- **A formula** that is read is a piece of the derivation. -/
theorem records_math (ends : context.endOfInput.kind = .endOfInput) {nested : Nested}
    (room : level < maxNesting) (reads : nested.ReadsAt context.commands (level + 1))
    (text : mode.inMath = false) {state : State} (opens : state.rest.head?.any opensMath = true) :
    Records context.commands level mode state (.node (math context nested mode state).1)
      (math context nested mode state).2 := by
  obtain ⟨split, opener⟩ := rest_eq_take_of_head context opens
  generalize closed : Closing.ofOpener (take context state).1.token = closing
  obtain ⟨reports, inside, within⟩ := reads closing { mode with inMath := true }
    (take context state).2
  have cut := logged_splitAhead closing
    (nested.read closing { mode with inMath := true } (take context state).2).2
  obtain ⟨closes, ended⟩ := takes_takeIf context closing.isAt (closing.isAt_eq_false ends)
    (splitAhead closing (nested.read closing { mode with inMath := true }
      (take context state).2).2).2
  rw [rest_splitAhead] at closes
  have logged := (((logged_take context state).append within).appendNone cut).appendNone ended
  have whole := records_finishMath context mode logged fun span => by
    rw [split]
    exact .math room text opener closed.symm inside closes
  subst closed
  exact whole

/-- Skipped tokens leave those behind them ahead. -/
theorem head?_rest_leaves {count : Nat} {state : State} (test : Token → Bool)
    (ends : test context.endOfInput = false)
    (passes : test (state.rest.getD count context.endOfInput) = true) :
    (leaves context count state).2.rest.head?.any test = true := by
  rwa [rest_leaves, ← test_getD_eq_any context test ends]

/-- The token behind skipped ones is taken next. -/
theorem stands_of_lt {count : Nat} {state : State} (ahead : count < state.rest.length) :
    state.rest.drop count = (take context (leaves context count state).2).1.token ::
        (take context (leaves context count state).2).2.rest ∧
      state.rest.getD count context.endOfInput =
        (take context (leaves context count state).2).1.token := by
  have split := rest_eq_take context (rest_leaves_ne_nil context ahead)
  rw [rest_leaves] at split
  refine ⟨split, ?_⟩
  rw [List.getD_eq_getElem?_getD, ← List.head?_drop, split]
  rfl

theorem takes_starAhead (ends : context.endOfInput.kind = .endOfInput) (name : Text)
    (state : State) :
    Takes (fun token => (context.commands.command name).starred && token.isCharacter '*') state.rest
        (starAhead context (context.commands.command name) state).1
        (starAhead context (context.commands.command name) state).2.rest ∧
      Logged state [] (starAhead context (context.commands.command name) state).2 := by
  unfold starAhead
  cases (context.commands.command name).starred with
  | true =>
    have notEnd : Token.isCharacter context.endOfInput '*' = false := by
      simp [Token.isCharacter, ends]
    simpa using takes_takeIf context (Token.isCharacter · '*') notEnd state
  | false => exact ⟨.left (by simp), .unchanged rfl rfl⟩

/-- The arguments that are read are those of the kinds of the command, one after another. -/
theorem records_arguments (ends : context.endOfInput.kind = .endOfInput) {inner : Inner}
    (below : inner.ReadsBelow context.commands level) (command : Text) (position : Nat)
    (kinds : List ArgumentKind) (state : State) :
    Records context.commands level mode state
      (.arguments command position kinds
        (arguments context inner mode command position kinds state).1)
      (arguments context inner mode command position kinds state).2 := by
  induction kinds generalizing position state with
  | nil => exact ⟨[], .noArguments, .unchanged rfl rfl⟩
  | cons kind kinds ih =>
    cases kind with
    | optional =>
      have notEnd : Token.isCharacter context.endOfInput '[' = false := by
        simp [Token.isCharacter, ends]
      simp only [arguments, bind_apply, get_apply, look_apply]
      cases opens : inner.when
          ((state.rest.getD (spacesAhead state.rest) context.endOfInput).isCharacter '[') with
      | none =>
        obtain ⟨reports, later, logged⟩ := ih (position + 1) state
        have closed := Inner.when_eq_none below opens
        rw [test_getD_eq_any context (Token.isCharacter · '[') notEnd] at closed
        exact ⟨reports, .omitted closed later, logged⟩
      | some nested =>
        obtain ⟨bracket, room, reads⟩ := Inner.when_eq_some_of_below below opens
        have inBounds := lt_length_of_look context (Token.isCharacter · '[') notEnd bracket
        obtain ⟨leading, skipped⟩ := leaves_leaves context (Nat.le_of_lt inBounds)
        obtain ⟨reports, content, within⟩ := records_optionalGroup context mode ends room
          reads (head?_rest_leaves context (Token.isCharacter · '[') notEnd bracket)
        rw [rest_leaves] at content
        obtain ⟨others, later, logged⟩ := ih (position + 1) (optionalGroup context nested mode
          (leaves context (spacesAhead state.rest) state).2).2
        exact ⟨_, .optional room leading content later, (skipped.append within).append logged⟩
    | mandatory =>
      simp only [arguments, bind_apply, get_apply, look_apply]
      have refusesEnd : cannotStartArgument context.endOfInput = true := by
        simp [cannotStartArgument, Token.isEndOfInput, ends]
      have notBrace : Token.isBeginGroup context.endOfInput = false := by
        simp [Token.isBeginGroup, ends]
      by_cases refused : cannotStartArgument
          (state.rest.getD (gapAhead false state.rest) context.endOfInput) = true
      · rw [if_pos refused]
        rw [test_getD_eq_all context cannotStartArgument refusesEnd] at refused
        obtain ⟨span, reported⟩ := notes_reportMissing context position command
          (state.rest.getD (gapAhead false state.rest) context.endOfInput) state
        exact .ofNotes (.missing span refused) (.unchanged rfl rfl) reported
      · rw [if_neg refused]
        have accepted := Bool.not_eq_true _ ▸ refused
        have inBounds := lt_length_of_look context (fun token => !cannotStartArgument token)
          (by simp [refusesEnd]) (by simpa using refused)
        obtain ⟨leading, skipped⟩ := leaves_leaves context (Nat.le_of_lt inBounds)
        obtain ⟨others, later, logged⟩ := ih (position + 1) (argumentContent context inner
          (state.rest.getD (gapAhead false state.rest) context.endOfInput)
          (leaves context (gapAhead false state.rest) state).2).2
        by_cases brace : Token.isBeginGroup
            (state.rest.getD (gapAhead false state.rest) context.endOfInput) = true
        · rw [argumentContent, if_pos brace] at later logged ⊢
          obtain ⟨reports, content, within⟩ := records_group context mode ends below
            (head?_rest_leaves context Token.isBeginGroup notBrace brace)
          rw [rest_leaves] at content
          rw [test_getD_eq_any context Token.isBeginGroup notBrace] at brace
          exact ⟨_, .braced leading brace content later, (skipped.append within).append logged⟩
        · rw [argumentContent, if_neg brace] at later logged ⊢
          obtain ⟨stands, same⟩ := stands_of_lt context inBounds
          rw [same] at accepted brace
          exact ⟨_, .single leading stands accepted (Bool.not_eq_true _ ▸ brace) later,
            (skipped.append (logged_leaf context _)).append logged⟩

/-- A command is created after its arguments. -/
theorem records_commandBehind (ends : context.endOfInput.kind = .endOfInput) {inner : Inner}
    (below : inner.ReadsBelow context.commands level) {before state : State} {head : Placed}
    (sequence : head.token.isControlSequence = true)
    (taken : before.rest = head.token :: state.rest) (opened : Logged before [] state) :
    Records context.commands level mode before
      (.command (commandBehind context inner mode head state).1)
      (commandBehind context inner mode head state).2 := by
  obtain ⟨starred, marked⟩ := takes_starAhead context ends head.token.value state
  obtain ⟨reports, read, logged⟩ := records_arguments context mode ends below
    head.token.value 1 (context.commands.command head.token.value).arguments
    (starAhead context (context.commands.command head.token.value) state).2
  have whole := (opened.append marked).append logged
  have finished := fun id span => Reads.command id span sequence starred read
  rw [← taken] at finished
  exact ⟨_, finished _ _, whole.appendNone (.unchanged rfl rfl)⟩

/-- The end of an environment is recorded with its name. -/
theorem records_ending (ends : context.endOfInput.kind = .endOfInput) {inner : Inner}
    (below : inner.ReadsBelow context.commands level) {state : State}
    (word : state.rest.head?.any (Token.isControlWord · "end") = true) :
    Records context.commands level mode state
      (.ending (ending context inner state).1.1 (ending context inner state).1.2)
      (ending context inner state).2 := by
  obtain ⟨split, last⟩ := rest_eq_take_of_head context word
  have opened := logged_take context state
  have notBrace : Token.isBeginGroup context.endOfInput = false := by
    simp [Token.isBeginGroup, ends]
  simp only [ending, bind_apply, get_apply, look_apply]
  by_cases brace : Token.isBeginGroup ((take context state).2.rest.getD
      (spacesAhead (take context state).2.rest) context.endOfInput) = true
  · rw [if_pos brace]
    have inBounds := lt_length_of_look context Token.isBeginGroup notBrace brace
    obtain ⟨leading, skipped⟩ := leaves_leaves context (Nat.le_of_lt inBounds)
    obtain ⟨reports, named, within⟩ := records_group context mode ends below
      (head?_rest_leaves context Token.isBeginGroup notBrace brace)
    rw [rest_leaves] at named
    rw [test_getD_eq_any context Token.isBeginGroup notBrace] at brace
    have finished := fun id span => Reads.namedEnding id span last leading brace named
    rw [← split] at finished
    have whole := (opened.append skipped).append within
    exact ⟨_, finished _ _, whole.appendNone (.unchanged rfl rfl)⟩
  · rw [if_neg brace]
    have absent := Bool.not_eq_true _ ▸ brace
    rw [test_getD_eq_any context Token.isBeginGroup notBrace] at absent
    refine ⟨[], ?_, opened.appendNone (.unchanged rfl rfl)⟩
    rw [split]
    exact .namelessEnding _ _ last absent

theorem records_strayEnding (ends : context.endOfInput.kind = .endOfInput) {inner : Inner}
    (below : inner.ReadsBelow context.commands level) (outside : mode.inEnvironment = false)
    {state : State} (word : state.rest.head?.any (Token.isControlWord · "end") = true) :
    Records context.commands level mode state (.node (strayEnding context inner state).1)
      (strayEnding context inner state).2 := by
  obtain ⟨reports, read, logged⟩ := records_ending context mode ends below word
  have whole := Records.ofNotes (.strayEnding outside read) logged
    (notes_report rfl (ending context inner state).1.1.span
      (some (ending context inner state).1.1.id) _)
  exact whole

/-- Behind a body there is an end or nothing. -/
theorem records_endingAhead (ends : context.endOfInput.kind = .endOfInput) {inner : Inner}
    (below : inner.ReadsBelow context.commands level) (state : State) :
    Records context.commands level mode state
      (.behindBody (endingAhead context inner state).1) (endingAhead context inner state).2 := by
  have notEnd : Token.isControlWord context.endOfInput "end" = false := by
    simp [Token.isControlWord, ends]
  have same := test_getD_eq_any context (Token.isControlWord · "end") notEnd 0 state.rest
  simp only [endingAhead, bind_apply, look_apply]
  by_cases last : Token.isControlWord (state.rest.getD 0 context.endOfInput) "end" = true
  · rw [if_pos last]
    obtain ⟨reports, read, logged⟩ := records_ending context mode ends below
      (same.symm.trans last)
    exact ⟨reports, .ended read, logged⟩
  · rw [if_neg last]
    exact ⟨[], .unended (same.symm.trans (Bool.not_eq_true _ ▸ last)), .unchanged rfl rfl⟩

/-- The begin of an environment is recorded with its name. -/
theorem records_opening (ends : context.endOfInput.kind = .endOfInput) {nested : Nested}
    (room : level < maxNesting) (reads : nested.ReadsAt context.commands (level + 1))
    {before state : State} {head : Placed} (word : head.token.isControlWord "begin" = true)
    (taken : before.rest = head.token :: state.rest) (opened : Logged before [] state)
    (brace : Token.isBeginGroup
      (state.rest.getD (spacesAhead state.rest) context.endOfInput) = true) :
    Records context.commands level mode before
      (.opening (opening context nested mode head (spacesAhead state.rest) state).1.1
        (opening context nested mode head (spacesAhead state.rest) state).1.2)
      (opening context nested mode head (spacesAhead state.rest) state).2 := by
  have below : Inner.ReadsBelow (some nested) context.commands level := ⟨room, reads⟩
  have notBrace : Token.isBeginGroup context.endOfInput = false := by
    simp [Token.isBeginGroup, ends]
  have inBounds := lt_length_of_look context Token.isBeginGroup notBrace brace
  obtain ⟨leading, skipped⟩ := leaves_leaves context (Nat.le_of_lt inBounds)
  obtain ⟨reports, named, within⟩ := records_group context mode ends below
    (head?_rest_leaves context Token.isBeginGroup notBrace brace)
  obtain ⟨others, extra, logged⟩ := records_arguments context
    { mode with inEnvironment := false } ends below _ 1 _
    (group context (some nested) (leaves context (spacesAhead state.rest) state).2).2
  rw [rest_leaves] at named
  rw [test_getD_eq_any context Token.isBeginGroup notBrace] at brace
  have finished := fun id span => Reads.opening id span word leading brace named rfl extra
  rw [← taken] at finished
  have whole := ((opened.append skipped).append within).append logged
  exact ⟨_, finished _ _, whole.appendNone (.unchanged rfl rfl)⟩

/-- The body of a verbatim environment is made of leaves, and every other one of nodes. -/
theorem records_environmentBody {nested : Nested} (room : level < maxNesting)
    (reads : nested.ReadsAt context.commands (level + 1)) (name : Text) (state : State) :
    Records context.commands level mode state
      (.body name (environmentBody context nested mode name state).1)
      (environmentBody context nested mode name state).2 := by
  unfold environmentBody
  cases verbatim : context.commands.isVerbatim name with
  | true =>
    obtain ⟨leaves, logged⟩ := leaves_leaves context (verbatimLength_le name state.rest)
    refine ⟨[], ?_, logged⟩
    rw [if_pos rfl]
    exact rest_leaves context _ state ▸ .verbatimBody verbatim leaves
  | false =>
    obtain ⟨reports, read, logged⟩ := reads .never { mode with inEnvironment := true } state
    exact ⟨reports, .textBody room verbatim read, logged⟩

theorem notes_reportDefect (defect : Option (Problem × Span)) (node : NodeId)
    (other : ∀ found ∈ defect, found.1.isNesting = false) (state : State) :
    Notes state (defect.toList.map fun found => ⟨found.1, found.2, some node⟩)
      (reportDefect defect node state).2 := by
  cases defect with
  | none => exact ⟨.unchanged rfl rfl, rfl⟩
  | some defect => exact notes_report (other defect rfl) defect.2 (some node) state

/-- Ends that do not match are no matter of nesting. -/
theorem isNesting_mismatch (name : Text) (opening : Command) (ending : Option (Command × Text)) :
    ∀ found ∈ mismatch name opening ending, found.1.isNesting = false := by
  intro found present
  unfold mismatch at present
  cases ending with
  | none => cases present; rfl
  | some ending =>
    dsimp only at present
    split at present
    · cases present
    · cases present; rfl

/-- An environment is recorded with its begin, body and end. -/
theorem records_finishEnvironment {before state : State} {name : Text} {opening : Command}
    {body : List Node} {ending : Option (Command × Text)} {reports : List Report}
    (logged : Logged before reports state)
    (read : ∀ span, Reads context.commands level mode before.rest
      (.node (.environment state.created name opening body (ending.map Prod.fst)
        (mismatch name opening ending).isNone span)) state.rest
      (reports ++ (mismatch name opening ending).toList.map fun defect =>
        ⟨defect.1, defect.2, some state.created⟩)) :
    Records context.commands level mode before
      (.node (finishEnvironment context name opening body ending state).1)
      (finishEnvironment context name opening body ending state).2 :=
  .ofNotes (read _) logged
    ((notes_reportDefect (mismatch name opening ending) state.created
      (isNesting_mismatch name opening ending)
      { state with created := state.created + 1 }).ofSame rfl rfl rfl)

theorem records_namedEnvironment (ends : context.endOfInput.kind = .endOfInput) {nested : Nested}
    (room : level < maxNesting) (reads : nested.ReadsAt context.commands (level + 1))
    {before state : State} {head : Placed} (word : head.token.isControlWord "begin" = true)
    (taken : before.rest = head.token :: state.rest) (opened : Logged before [] state)
    (brace : Token.isBeginGroup
      (state.rest.getD (spacesAhead state.rest) context.endOfInput) = true) :
    Records context.commands level mode before
      (.node (namedEnvironment context nested mode head (spacesAhead state.rest) state).1)
      (namedEnvironment context nested mode head (spacesAhead state.rest) state).2 := by
  obtain ⟨head', opening, begun⟩ := records_opening context mode ends room reads word
    taken opened brace
  generalize run : Parser.opening context nested mode head (spacesAhead state.rest) state = start
    at opening begun
  obtain ⟨inside, content, within⟩ := records_environmentBody context mode room reads
    start.1.2 start.2
  have below : Inner.ReadsBelow (some nested) context.commands level := ⟨room, reads⟩
  obtain ⟨behind, ended, closed⟩ := records_endingAhead context mode ends below
    (environmentBody context nested mode start.1.2 start.2).2
  have logged := (begun.append within).append closed
  have whole := records_finishEnvironment context mode logged fun span =>
    .environment room opening content ended
  simp only [namedEnvironment, bind_apply, run]
  exact whole

/-- **An environment** that is read is a piece of the derivation. -/
theorem records_environment (ends : context.endOfInput.kind = .endOfInput) {nested : Nested}
    (room : level < maxNesting) (reads : nested.ReadsAt context.commands (level + 1))
    {state : State} (word : state.rest.head?.any (Token.isControlWord · "begin") = true) :
    Records context.commands level mode state (.node (environment context nested mode state).1)
      (environment context nested mode state).2 := by
  obtain ⟨split, begins⟩ := rest_eq_take_of_head context word
  have opened := logged_take context state
  have notBrace : Token.isBeginGroup context.endOfInput = false := by
    simp [Token.isBeginGroup, ends]
  simp only [environment, bind_apply]
  generalize (take context state).2 = behind at split opened ⊢
  simp only [environmentBehind, bind_apply, get_apply, look_apply]
  by_cases brace : Token.isBeginGroup
      (behind.rest.getD (spacesAhead behind.rest) context.endOfInput) = true
  · rw [if_pos brace]
    exact records_namedEnvironment context mode ends room reads begins split opened brace
  · rw [if_neg brace]
    have below : Inner.ReadsBelow (some nested) context.commands level := ⟨room, reads⟩
    obtain ⟨reports, read, logged⟩ := records_commandBehind context
      { mode with inEnvironment := false } ends below (isControlSequence_of_isControlWord begins)
      split opened
    have unbraced := Bool.not_eq_true _ ▸ brace
    rw [test_getD_eq_any context Token.isBeginGroup notBrace] at unbraced
    rw [split] at read
    refine ⟨reports, ?_, logged⟩
    rw [split]
    exact .nameless room begins unbraced read

theorem records_strayGroupEnd (outside : mode.inGroup = false) {state : State}
    (stray : state.rest.head?.any Token.isEndGroup = true) :
    Records context.commands level mode state (.node (strayGroupEnd context state).1)
      (strayGroupEnd context state).2 := by
  obtain ⟨split, closes⟩ := rest_eq_take_of_head context stray
  refine .ofNotes ?_ (logged_leaf context state) (notes_report rfl
    (take context state).1.token.span (some (take context state).2.created) (leaf context state).2)
  rw [split]
  exact .strayGroupEnd closes outside

/-- A token that starts no construct is recorded as a leaf. -/
theorem records_leaf {state : State} {token : Token} {rest : List Token}
    (ahead : state.rest = token :: rest) (single : token.isControlSequence = false)
    (plain : startsConstruct level mode token = false) :
    Records context.commands level mode state (.node (leaf context state).1)
      (leaf context state).2 := by
  have left : state.rest ≠ [] := by simp [ahead]
  have split := rest_eq_take context left
  have taken : (take context state).1.token = token :=
    (List.cons_eq_cons.mp (split.symm.trans ahead)).1
  rw [← taken] at single plain
  refine ⟨[], ?_, logged_leaf context state⟩
  rw [split]
  exact .leaf single plain

/-- **A command** that is read is a piece of the derivation. -/
theorem records_command (ends : context.endOfInput.kind = .endOfInput) {inner : Inner}
    (below : inner.ReadsBelow context.commands level) {state : State} {token : Token}
    {rest : List Token} (ahead : state.rest = token :: rest)
    (sequence : token.isControlSequence = true)
    (plain : startsConstruct level mode token = false) :
    Records context.commands level mode state (.node (command context inner mode state).1)
      (command context inner mode state).2 := by
  have left : state.rest ≠ [] := by simp [ahead]
  have split := rest_eq_take context left
  have taken : (take context state).1.token = token :=
    (List.cons_eq_cons.mp (split.symm.trans ahead)).1
  obtain ⟨reports, read, logged⟩ := records_commandBehind context mode ends below
    (taken.symm ▸ sequence) split (logged_take context state)
  rw [ahead] at read
  have whole := Reads.plainCommand plain read
  rw [← ahead] at whole
  exact ⟨reports, whole, logged⟩

/-- Whatever construct a token starts is a piece of the derivation. -/
theorem records_construct (ends : context.endOfInput.kind = .endOfInput) {inner : Inner}
    (below : inner.ReadsBelow context.commands level) {closing : Closing} {state : State}
    {token : Token} {rest : List Token} (ahead : state.rest = token :: rest)
    (inside : endsBefore closing mode token = false) :
    Records context.commands level mode state (.node (construct context inner mode token state).1)
      (construct context inner mode token state).2 := by
  have stands : ∀ test : Token → Bool, test token = true → state.rest.head?.any test = true := by
    intro test passes
    simpa [ahead] using passes
  simp only [endsBefore, Bool.or_eq_false_iff, Bool.and_eq_false_iff] at inside
  obtain ⟨⟨group, environment⟩, -⟩ := inside
  unfold construct
  by_cases begins : token.isBeginGroup = true
  · rw [if_pos begins]
    exact records_group context mode ends below (stands _ begins)
  rw [if_neg begins]
  by_cases closes : token.isEndGroup = true
  · rw [if_pos closes]
    exact records_strayGroupEnd context mode (group.resolve_right (by simp [closes]))
      (stands _ closes)
  rw [if_neg closes]
  by_cases last : token.isControlWord "end" = true
  · rw [if_pos last]
    exact records_strayEnding context mode ends below (environment.resolve_right (by simp [last]))
      (stands (Token.isControlWord · "end") last)
  rw [if_neg last]
  cases formula : inner.when (!mode.inMath && opensMath token) with
  | some nested =>
    obtain ⟨opens, room, reads⟩ := Inner.when_eq_some_of_below below formula
    rw [Bool.and_eq_true, Bool.not_eq_true'] at opens
    exact records_math context mode ends room reads opens.1 (stands _ opens.2)
  | none =>
    cases region : inner.when (token.isControlWord "begin") with
    | some nested =>
      obtain ⟨opens, room, reads⟩ := Inner.when_eq_some_of_below below region
      exact records_environment context mode ends room reads
        (stands (Token.isControlWord · "begin") opens)
    | none =>
      have plain : startsConstruct level mode token = false := by
        have first := Inner.when_eq_none below formula
        have second := Inner.when_eq_none below region
        simp only [startsConstruct, Bool.and_or_distrib_left, first, second]
        simp [begins, closes, last]
      dsimp only
      by_cases sequence : token.isControlSequence = true
      · rw [if_pos sequence]
        exact records_command context mode ends below ahead sequence plain
      · rw [if_neg sequence]
        exact records_leaf context mode ahead (Bool.not_eq_true _ ▸ sequence) plain

theorem records_node (ends : context.endOfInput.kind = .endOfInput) {inner : Inner}
    (below : inner.ReadsBelow context.commands level) {closing : Closing} {state : State}
    {token : Token} {rest : List Token} (ahead : state.rest = token :: rest)
    (inside : endsBefore closing mode token = false) :
    Records context.commands level mode state (.node (node context inner mode state).1)
      (node context inner mode state).2 := by
  have same : state.rest.getD 0 context.endOfInput = token := by simp [ahead]
  simp only [node, bind_apply, look_apply, same]
  unfold reportUnopened
  split
  · rename_i opens
    rw [Bool.and_eq_true] at opens
    have deepest : level = maxNesting := by
      cases inner with
      | none => exact below
      | some nested => cases opens.1
    have noted := (notes_reportNesting token.span none state).1
    obtain ⟨reports, read, logged⟩ := records_construct context mode ends below
      (noted.rest.trans ahead) inside
    rw [noted.rest, ahead] at read
    have whole := Reads.unopened deepest opens.2 read
    rw [← ahead] at whole
    exact ⟨_, whole, noted.toLogged.append logged⟩
  · exact records_construct context mode ends below ahead inside

/-- **A sequence** is recorded. -/
theorem records_nodesUntil (ends : context.endOfInput.kind = .endOfInput) {inner : Inner}
    (below : inner.ReadsBelow context.commands level) (closing : Closing) (mode : Mode)
    (nodes : Array Node) (state : State) :
    ∃ more, (nodesUntil context inner closing mode nodes state).1 = nodes.toList ++ more ∧
      Records context.commands level mode state (.sequence closing more)
        (nodesUntil context inner closing mode nodes state).2 := by
  fun_induction nodesUntil context inner closing mode nodes state with
  | case1 nodes state none =>
    exact ⟨[], (List.append_nil _).symm, [], .stop (by simp [Halts, none]), .unchanged rfl rfl⟩
  | case2 nodes state token rest ahead stops =>
    exact ⟨[], (List.append_nil _).symm, [], .stop (by simp [Halts, ahead, stops]),
      .unchanged rfl rfl⟩
  | case3 nodes state token rest ahead stops read later =>
    obtain ⟨more, same, others, behind, closed⟩ := later
    have inside := Bool.not_eq_true _ ▸ stops
    obtain ⟨reports, first, logged⟩ := records_node context mode ends below ahead inside
    rw [ahead] at first
    have whole := Reads.next inside first behind
    rw [← ahead] at whole
    exact ⟨read.1 :: more, by simp [same], _, whole, logged.append closed⟩

/-- A level that is open reads sequences of nodes. -/
theorem readsAt_nodesUntil (ends : context.endOfInput.kind = .endOfInput) {inner : Inner}
    (below : inner.ReadsBelow context.commands level) (closing : Closing) (mode : Mode)
    (state : State) :
    Records context.commands level mode state
      (.sequence closing (nodesUntil context inner closing mode #[] state).1)
      (nodesUntil context inner closing mode #[] state).2 := by
  obtain ⟨more, same, read⟩ := records_nodesUntil context ends below closing mode #[] state
  rw [same]
  exact read

/-- The reader with room for some levels reads at the level that leaves this room. -/
theorem readsAt_level (ends : context.endOfInput.kind = .endOfInput) {room level : Nat}
    (whole : level + room = maxNesting) :
    (Parser.level context room).ReadsAt context.commands level := by
  induction room generalizing level with
  | zero =>
    have below : Inner.ReadsBelow none context.commands level := whole
    exact readsAt_nodesUntil context ends below
  | succ room ih =>
    have below : Inner.ReadsBelow (some (Parser.level context room)) context.commands level :=
      ⟨by omega, ih (by omega)⟩
    exact readsAt_nodesUntil context ends below

end

/-- What is read of a whole document, and what is reported. -/
theorem reads_nodesOf (context : Context) (ends : context.endOfInput.kind = .endOfInput)
    (content : List Token) :
    ∃ reports, Reads context.commands 0 ⟨false, false, false⟩ content
        (.sequence .never (nodesOf context content).1) [] reports ∧
      (nodesOf context content).2.diagnostics.toList =
        (Report.made false reports).map Report.diagnostic := by
  obtain ⟨reports, read, logged⟩ := readsAt_level context ends (Nat.zero_add maxNesting) .never
    ⟨false, false, false⟩ ⟨#[], content, 0, #[], false⟩
  refine ⟨reports, ?_, ?_⟩
  · rw [← rest_nodesOf context content]
    exact read
  · simpa [nodesOf] using logged.diagnostics

end Parser

namespace Document

/-- A document as it is read from tokens: the nodes below its root, and the reports. -/
structure Derived (commands : CommandTable) (tokens : List Token) (document : Document)
    (children : List Node) (reports : List Parser.Report) : Prop where
  root : ∃ span, document.root = .group document.root.id .root none children none span
  reads : Parser.Reads commands 0 ⟨false, false, false⟩ (contentOf tokens)
    (.sequence .never children) [] reports
  diagnostics : document.diagnostics =
    (Parser.Report.made false reports).map Parser.Report.diagnostic
  ids : (document.walk.map Node.id).Nodup
  kept : Parser.Splits (contentOf tokens) (document.root.placed.map Placed.token)
  indices : (document.root.placed.map Placed.index).Nodup

/-- **Every document is derived** from its tokens, with its nodes and its reports. -/
theorem derived_ofTokens (tokens : List Token) (source : Text) (fileId : FileId)
    (commands : CommandTable) :
    ∃ children reports, Derived commands tokens (ofTokens tokens source fileId commands) children
      reports := by
  have ends : (endOf tokens fileId).kind = .endOfInput := by
    simpa [Token.isEndOfInput] using isEndOfInput_endOf tokens fileId
  obtain ⟨reports, reads, diagnostics⟩ := Parser.reads_nodesOf
    ⟨fileId, commands, endOf tokens fileId⟩ ends (contentOf tokens)
  have built := Parser.built_nodesOf ⟨fileId, commands, endOf tokens fileId⟩ ends (contentOf tokens)
  have whole := built.toNumbered.create (ofTokens tokens source fileId commands).root rfl rfl rfl
  have placed : (ofTokens tokens source fileId commands).root.placed = placedAll
      (Parser.nodesOf ⟨fileId, commands, endOf tokens fileId⟩ (contentOf tokens)).1 := by
    simp [ofTokens, Node.placed]
  refine ⟨_, reports, ⟨_, rfl⟩, reads, diagnostics, ?_, ?_, ?_⟩
  · exact whole.ids.nodup_iff.mpr List.nodup_range'
  · simpa [placed, Parser.rest_nodesOf] using built.rest
  · rw [placed, built.indices]
    exact List.nodup_range'

end Document

end TexSource
