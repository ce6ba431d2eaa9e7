import TexSource.Proofs.Document.Built
import TexSource.Proofs.Document.Lookahead
import TexSource.Proofs.Lexer.Displacement

/-!
# Trees of tokens at other places

What the parser makes of the tokens ahead depends neither on where they stand nor on what has been
read before them. Readers that start from states with the same tokens ahead, but for their places,
build the same nodes, but for places and numbers (`Parser.Parallel`), and every step of the parser
is parallel to itself.
-/

namespace TexSource

/-- A placed token without its place, at the index that it has. -/
def Placed.unplaced (placed : Placed) : Placed :=
  ⟨0, placed.token.unplaced⟩

/-- A report without its place. -/
def Diagnostic.unplaced (diagnostic : Diagnostic) : Diagnostic :=
  { diagnostic with span := default, node := diagnostic.node.map fun _ => 0 }

mutual

/-- A node without places and numbers. -/
def Node.unplaced : Node → Node
  | .leaf _ placed => .leaf 0 placed.unplaced
  | .group _ delimiter opener children closer _ =>
    .group 0 delimiter (opener.map Placed.unplaced) (unplacedAll children)
      (closer.map Placed.unplaced) default
  | .math _ display opener children closer _ =>
    .math 0 display opener.unplaced (unplacedAll children) (closer.map Placed.unplaced) default
  | .command invocation => .command invocation.unplaced
  | .environment _ name opening body none matched _ =>
    .environment 0 name opening.unplaced (unplacedAll body) none matched default
  | .environment _ name opening body (some ending) matched _ =>
    .environment 0 name opening.unplaced (unplacedAll body) (some ending.unplaced) matched default
  | .inclusion _ directive fileId path document _ =>
    .inclusion 0 directive.unplaced fileId path document default

/-- A command without places and numbers. -/
def Command.unplaced : Command → Command
  | ⟨_, name, head, star, arguments, _⟩ =>
    ⟨0, name, head.unplaced, star.map Placed.unplaced, unplacedArguments arguments, default⟩

/-- Nodes without places and numbers. -/
def unplacedAll : List Node → List Node
  | [] => []
  | node :: rest => node.unplaced :: unplacedAll rest

/-- Arguments without places and numbers. -/
def unplacedArguments : List Argument → List Argument
  | [] => []
  | ⟨kind, leading, content⟩ :: rest =>
    ⟨kind, unplacedAll leading, content.unplaced⟩ :: unplacedArguments rest

end

theorem unplacedAll_eq_map (nodes : List Node) : unplacedAll nodes = nodes.map Node.unplaced := by
  induction nodes with
  | nil => rfl
  | cons node rest ih => rw [unplacedAll, ih, List.map_cons]

theorem Node.unplaced_environment (id : NodeId) (name : Text) (opening : Command)
    (body : List Node) (ending : Option Command) (matched : Bool) (span : Span) :
    (Node.environment id name opening body ending matched span).unplaced =
      .environment 0 name opening.unplaced (unplacedAll body) (ending.map Command.unplaced) matched
        default := by
  cases ending <;> rw [Node.unplaced] <;> rfl

/-- A report without its place is on a node if it was. -/
theorem Problem.unplaced_reportAt (problem : Problem) (span : Span) (node : Option NodeId) :
    (problem.reportAt span node).unplaced = problem.reportAt default (node.map fun _ => 0) := rfl

mutual

/-- The tokens under a node without places are its tokens without places. -/
theorem Node.placed_unplaced : (node : Node) →
    node.unplaced.placed = node.placed.map Placed.unplaced
  | .leaf _ _ => rfl
  | .group _ _ _ children _ _ => by
    simp [Node.unplaced, Node.placed, placedAll_unplacedAll children, Option.toList_map]
  | .math _ _ _ children _ _ => by
    simp [Node.unplaced, Node.placed, placedAll_unplacedAll children, Option.toList_map]
  | .command invocation => invocation.placed_unplaced
  | .environment _ _ opening body none _ _ => by
    simp [Node.unplaced, Node.placed, opening.placed_unplaced, placedAll_unplacedAll body]
  | .environment _ _ opening body (some ending) _ _ => by
    simp [Node.unplaced, Node.placed, opening.placed_unplaced, placedAll_unplacedAll body,
      ending.placed_unplaced]
  | .inclusion _ directive _ _ _ _ => by
    simp [Node.unplaced, Node.placed, directive.placed_unplaced]

theorem Command.placed_unplaced : (invocation : Command) →
    invocation.unplaced.placed = invocation.placed.map Placed.unplaced
  | ⟨_, _, _, _, arguments, _⟩ => by
    simp [Command.unplaced, Command.placed, placedArguments_unplacedArguments arguments,
      Option.toList_map]

theorem placedAll_unplacedAll : (nodes : List Node) →
    placedAll (unplacedAll nodes) = (placedAll nodes).map Placed.unplaced
  | [] => rfl
  | node :: rest => by
    simp [unplacedAll, placedAll, node.placed_unplaced, placedAll_unplacedAll rest]

theorem placedArguments_unplacedArguments : (arguments : List Argument) →
    placedArguments (unplacedArguments arguments) =
      (placedArguments arguments).map Placed.unplaced
  | [] => rfl
  | ⟨_, leading, content⟩ :: rest => by
    simp [unplacedArguments, placedArguments, placedAll_unplacedAll leading,
      content.placed_unplaced, placedArguments_unplacedArguments rest]

end

/-- The text of a token does not depend on its place. -/
theorem keepsText_unplaced : Token.KeepsText Token.unplaced :=
  ⟨fun _ => rfl, fun _ => rfl⟩

/-- The text of a node does not depend on places. -/
theorem Node.innerText_unplaced (node : Node) : node.unplaced.innerText = node.innerText := by
  have raw : ∀ placed : List Placed,
      Token.rawText ((placed.map Placed.unplaced).map Placed.token) =
        Token.rawText (placed.map Placed.token) := by
    intro placed
    simp [Token.rawText, List.flatMap_map, Placed.unplaced, Token.unplaced]
  have whole : Token.rawText (node.unplaced.placed.map Placed.token) =
      Token.rawText (node.placed.map Placed.token) := by
    rw [node.placed_unplaced, raw]
  cases node with
  | group _ _ _ children _ _ =>
    simp only [Node.unplaced, Node.innerText, placedAll_unplacedAll, raw]
  | environment id name opening body ending matched span =>
    rw [Node.unplaced_environment] at whole ⊢
    exact whole
  | _ => exact whole

namespace Parser

/-- Readers that work for the same commands. -/
structure Context.Alike (context other : Context) : Prop where
  commands : other.commands = context.commands
  endOfInput : other.endOfInput.unplaced = context.endOfInput.unplaced

/-- States with the same tokens ahead and the same reports. One of them has taken some tokens
before the others. -/
structure State.Alike (before : List Token) (state other : State) : Prop where
  rest : other.rest.map Token.unplaced = state.rest.map Token.unplaced
  taken : other.taken.toList.map Token.unplaced = before ++ state.taken.toList.map Token.unplaced
  diagnostics : other.diagnostics.map Diagnostic.unplaced =
    state.diagnostics.map Diagnostic.unplaced
  nestingReported : other.nestingReported = state.nestingReported

/-- Two readers do the same from states that are alike, and give results of the same form. -/
structure Parallel {Result Form : Type} (before : List Token) (form : Result → Form)
    (first second : Parse Result) : Prop where
  run : ∀ {state other : State}, state.Alike before other →
    form (second other).1 = form (first state).1 ∧
      (first state).2.Alike before (second other).2

namespace Parallel

variable {First Second FirstForm SecondForm : Type} {before : List Token}
  {firstForm : First → FirstForm} {secondForm : Second → SecondForm}

/-- Results of one form are answered alike. -/
theorem pure {result other : First} (same : firstForm other = firstForm result) :
    Parallel before firstForm (Pure.pure result) (Pure.pure other) :=
  ⟨fun alike => ⟨same, alike⟩⟩

/-- Steps that run in parallel do so one after another. -/
theorem bind {first again : Parse First} {next later : First → Parse Second}
    (parallel : Parallel before firstForm first again)
    (following : ∀ result other, firstForm other = firstForm result →
      Parallel before secondForm (next result) (later other)) :
    Parallel before secondForm (first >>= next) (again >>= later) := by
  constructor
  intro state other alike
  obtain ⟨same, reached⟩ := parallel.run alike
  exact (following _ _ same).run reached

/-- What readers do may depend on the tokens ahead. -/
theorem get {next later : State → Parse Second}
    (following : ∀ {state other : State}, state.Alike before other →
      Parallel before secondForm (next state) (later other)) :
    Parallel before secondForm (MonadState.get >>= next) (MonadState.get >>= later) :=
  ⟨fun alike => (following alike).run alike⟩

/-- A choice runs in parallel if both sides choose alike and their branches do. -/
theorem ite {first again second other : Parse First} {test otherTest : Prop} [Decidable test]
    [Decidable otherTest] (same : otherTest ↔ test)
    (holds : Parallel before firstForm first again)
    (fails : Parallel before firstForm second other) :
    Parallel before firstForm (if test then first else second)
      (if otherTest then again else other) := by
  by_cases test
  · rw [if_pos ‹_›, if_pos (same.mpr ‹_›)]
    exact holds
  · rw [if_neg ‹_›, if_neg (mt same.mp ‹_›)]
    exact fails

end Parallel

section

variable {before : List Token} {context other : Context}

/-- What stands ahead is the same but for its place. -/
theorem parallel_look (alike : context.Alike other) (distance : Nat) :
    Parallel before Token.unplaced (look context distance) (look other distance) := by
  constructor
  intro state otherState states
  refine ⟨?_, states⟩
  rw [look_apply, look_apply]
  have found : otherState.rest[distance]?.map Token.unplaced =
      state.rest[distance]?.map Token.unplaced := by
    rw [← List.getElem?_map, ← List.getElem?_map, states.rest]
  simp only [List.getD_eq_getElem?_getD]
  cases here : state.rest[distance]? with
  | none =>
    rw [here, Option.map_none, Option.map_eq_none_iff] at found
    rw [found]
    exact alike.endOfInput
  | some token =>
    rw [here, Option.map_some, Option.map_eq_some_iff] at found
    obtain ⟨otherToken, present, same⟩ := found
    rw [present]
    exact same

/-- The token that is taken is the same but for its place. -/
theorem parallel_take (alike : context.Alike other) :
    Parallel before Placed.unplaced (take context) (take other) := by
  constructor
  intro state otherState states
  have ahead := states.rest
  unfold take
  cases here : state.rest with
  | nil =>
    rw [here, List.map_nil, List.map_eq_nil_iff] at ahead
    simp only [ahead]
    exact ⟨congrArg (Placed.mk 0) alike.endOfInput, states⟩
  | cons token rest =>
    rw [here, List.map_cons] at ahead
    obtain ⟨otherToken, otherRest, there, same, later⟩ := List.map_eq_cons_iff.mp ahead
    simp only [there]
    refine ⟨congrArg (Placed.mk 0) same, later, ?_, states.diagnostics, states.nestingReported⟩
    simp [states.taken, same]

theorem parallel_takeIf (alike : context.Alike other) {test : Token → Bool}
    (blind : ∀ token : Token, test token.unplaced = test token) :
    Parallel before (Option.map Placed.unplaced) (takeIf context test) (takeIf other test) := by
  refine .bind (parallel_look alike 0) fun token otherToken same => ?_
  have passes : test otherToken = test token := by rw [← blind, same, blind]
  refine .ite (by rw [passes]) ?_ (.pure rfl)
  exact .bind (parallel_take alike) fun _ _ same => .pure (congrArg some same)

/-- Spans differ in their places only. -/
theorem parallel_spanFrom (start otherStart : Position) :
    Parallel before (fun _ => ()) (spanFrom context start) (spanFrom other otherStart) :=
  ⟨fun states => ⟨rfl, states⟩⟩

theorem parallel_newId : Parallel before (fun _ => ()) newId newId :=
  ⟨fun states => ⟨rfl, states.rest, states.taken, states.diagnostics, states.nestingReported⟩⟩

/-- Reports on a node, or on none, are left on both sides. -/
theorem parallel_report (problem : Problem) (span otherSpan : Span) {node otherNode : Option NodeId}
    (same : otherNode.isSome = node.isSome) :
    Parallel before id (report problem span node) (report problem otherSpan otherNode) := by
  constructor
  intro state otherState states
  refine ⟨rfl, states.rest, states.taken, ?_, states.nestingReported⟩
  have reported : (problem.reportAt otherSpan otherNode).unplaced =
      (problem.reportAt span node).unplaced := by
    rw [Problem.unplaced_reportAt, Problem.unplaced_reportAt]
    cases node <;> cases otherNode <;> first | rfl | cases same
  show (otherState.diagnostics.push _).map _ = (state.diagnostics.push _).map _
  rw [Array.map_push, Array.map_push, states.diagnostics, reported]

theorem parallel_reportUnless {finished otherFinished : Bool} (same : otherFinished = finished)
    (problem : Problem) (span otherSpan : Span) (node otherNode : NodeId) :
    Parallel before id (reportUnless finished problem span node)
      (reportUnless otherFinished problem otherSpan otherNode) :=
  .ite (by rw [same]) (.pure rfl) (parallel_report problem span otherSpan rfl)

theorem parallel_reportNesting (span otherSpan : Span) {node otherNode : Option NodeId}
    (same : otherNode.isSome = node.isSome) :
    Parallel before id (reportNesting span node) (reportNesting otherSpan otherNode) := by
  constructor
  intro state otherState states
  obtain ⟨-, reported⟩ :=
    (parallel_report (.nestingTooDeep maxNesting) span otherSpan same).run states
  refine ⟨rfl, ?_⟩
  show State.Alike before (if state.nestingReported then state else _)
    (if otherState.nestingReported then otherState else _)
  rw [states.nestingReported]
  split
  · exact states
  · exact ⟨reported.rest, reported.taken, reported.diagnostics, rfl⟩

theorem parallel_leaf (alike : context.Alike other) :
    Parallel before Node.unplaced (leaf context) (leaf other) :=
  .bind (parallel_take alike) fun _ _ same => .bind parallel_newId fun _ _ _ =>
    .pure (congrArg (Node.leaf 0) same)

theorem parallel_leaves (alike : context.Alike other) (count : Nat) :
    Parallel before unplacedAll (leaves context count) (leaves other count) := by
  induction count with
  | zero => exact .pure rfl
  | succ count ih =>
    exact .bind (parallel_leaf alike) fun _ _ first => .bind ih fun _ _ later =>
      .pure (congrArg₂ List.cons first later)

/-- What is counted of the tokens ahead does not depend on places. -/
theorem State.Alike.count {state otherState : State} (states : state.Alike before otherState)
    {Value : Type} {count : List Token → Value}
    (blind : ∀ tokens, count (tokens.map Token.unplaced) = count tokens) :
    count otherState.rest = count state.rest := by
  rw [← blind, states.rest, blind]

/-- As many leaves are taken on both sides, if their number does not depend on places. -/
theorem parallel_leavesAhead (alike : context.Alike other) {count : List Token → Nat}
    (blind : ∀ tokens, count (tokens.map Token.unplaced) = count tokens) :
    Parallel before unplacedAll (leavesAhead context count) (leavesAhead other count) := by
  refine .get fun states => ?_
  rw [states.count blind]
  exact parallel_leaves alike _

end

theorem closing_isAt_unplaced (closing : Closing) (token : Token) :
    closing.isAt token.unplaced = closing.isAt token := by
  cases closing <;> rfl

/-- Math shifts are split alike. -/
theorem splitFront_unplaced {tokens others : List Token}
    (same : others.map Token.unplaced = tokens.map Token.unplaced) :
    (splitFront others).map Token.unplaced = (splitFront tokens).map Token.unplaced := by
  cases tokens with
  | nil =>
    rw [List.map_nil, List.map_eq_nil_iff] at same
    rw [same]
  | cons token rest =>
    rw [List.map_cons] at same
    obtain ⟨otherToken, otherRest, rfl, first, later⟩ := List.map_eq_cons_iff.mp same
    have kind : otherToken.kind = token.kind := (congrArg Token.kind first :)
    have raw : otherToken.raw = token.raw := (congrArg Token.raw first :)
    have expanded : otherToken.expanded = token.expanded := (congrArg Token.expanded first :)
    rw [splitFront, splitFront, kind]
    split
    · simp [splitShift, Token.unplaced, raw, expanded, later]
    · rw [List.map_cons, List.map_cons, first, later]

/-- Readers of a level that do the same. -/
structure Nested.Parallel (before : List Token) (nested other : Nested) : Prop where
  read : ∀ closing mode, Parser.Parallel before unplacedAll (nested.read closing mode)
    (other.read closing mode)

/-- The readers of the next level, where there is one, do the same. -/
inductive Inner.Parallel (before : List Token) : Inner → Inner → Prop where
  | absent : Inner.Parallel before none none
  | present {nested other : Nested} (parallel : nested.Parallel before other) :
    Inner.Parallel before (some nested) (some other)

/-- A level that is closed to constructs is so on both sides. -/
theorem Inner.Parallel.when {before : List Token} {inner other : Inner}
    (parallel : inner.Parallel before other) (opens : Bool) :
    (inner.when opens).Parallel before (other.when opens) := by
  cases opens
  · exact .absent
  · exact parallel

section

variable {before : List Token} {context other : Context} {nested otherNested : Nested}
  {inner otherInner : Inner} (alike : context.Alike other)

/-- A construct is closed in two documents alike: its node is made of its extent and its number,
and a report is left where its closing token is missing. -/
theorem parallel_close {start otherStart : Position} {span otherSpan : Span} (missing : Problem)
    {closer otherCloser : Option Placed}
    (closes : otherCloser.map Placed.unplaced = closer.map Placed.unplaced)
    {build otherBuild : NodeId → Span → Node}
    (built : ∀ id extent otherId otherExtent,
      (otherBuild otherId otherExtent).unplaced = (build id extent).unplaced) :
    Parallel before Node.unplaced
      (do
        let extent ← spanFrom context start
        let id ← newId
        reportUnless closer.isSome missing span id
        return build id extent)
      (do
        let extent ← spanFrom other otherStart
        let id ← newId
        reportUnless otherCloser.isSome missing otherSpan id
        return otherBuild id extent) := by
  have closed : otherCloser.isSome = closer.isSome := by
    rw [← Option.isSome_map, closes, Option.isSome_map]
  exact .bind (parallel_spanFrom _ _) fun _ _ _ => .bind parallel_newId fun _ _ _ =>
    .bind (parallel_reportUnless closed ..) fun _ _ _ => .pure (built ..)

theorem parallel_finishGroup (delimiter : Delimiter) (missing : Problem)
    {opener otherOpener : Placed} (opens : otherOpener.unplaced = opener.unplaced)
    {children otherChildren : List Node}
    (inside : unplacedAll otherChildren = unplacedAll children)
    {closer otherCloser : Option Placed}
    (closes : otherCloser.map Placed.unplaced = closer.map Placed.unplaced) :
    Parallel before Node.unplaced
      (finishGroup context delimiter opener children closer missing)
      (finishGroup other delimiter otherOpener otherChildren otherCloser missing) :=
  parallel_close missing closes fun _ _ _ _ => by simp [Node.unplaced, opens, inside, closes]

include alike

/-- A group is read alike, and kept flat on both sides or on none. -/
theorem parallel_group (parallel : inner.Parallel before otherInner) :
    Parallel before Node.unplaced (group context inner) (group other otherInner) := by
  have closer : Parallel before (Option.map Placed.unplaced) (takeIf context Token.isEndGroup)
      (takeIf other Token.isEndGroup) := parallel_takeIf alike fun _ => rfl
  cases parallel with
  | absent =>
    exact .bind (parallel_take alike) fun _ _ opens =>
      .bind (parallel_leavesAhead alike (flatLength_map keepsText_unplaced 0)) fun _ _ inside =>
        .bind closer fun _ _ closes =>
          .bind (.get fun _ => parallel_reportNesting _ _ rfl) fun _ _ _ =>
            parallel_finishGroup .brace _ opens inside closes
  | present parallel =>
    exact .bind (parallel_take alike) fun _ _ opens =>
      .bind (parallel.read .never ⟨false, false, true⟩) fun _ _ inside =>
        .bind closer fun _ _ closes => parallel_finishGroup .brace _ opens inside closes

theorem parallel_optionalGroup (parallel : nested.Parallel before otherNested) (mode : Mode) :
    Parallel before Node.unplaced (optionalGroup context nested mode)
      (optionalGroup other otherNested mode) :=
  .bind (parallel_take alike) fun _ _ opens => .bind (parallel.read .bracket mode)
    fun _ _ inside => .bind (parallel_takeIf alike fun _ => rfl) fun _ _ closes =>
      parallel_finishGroup .bracket _ opens inside closes

omit alike in
/-- A math shift that closes a formula is split on both sides. -/
theorem parallel_splitAhead (closing : Closing) :
    Parallel before id (splitAhead closing) (splitAhead closing) := by
  constructor
  intro state otherState states
  refine ⟨rfl, ?_⟩
  show State.Alike before (if closing = .shift then _ else state)
    (if closing = .shift then _ else otherState)
  split
  · exact ⟨splitFront_unplaced states.rest, states.taken, states.diagnostics,
      states.nestingReported⟩
  · exact states

omit alike in
theorem parallel_finishMath (closing : Closing) {opener otherOpener : Placed}
    (opens : otherOpener.unplaced = opener.unplaced) {children otherChildren : List Node}
    (inside : unplacedAll otherChildren = unplacedAll children)
    {closer otherCloser : Option Placed}
    (closes : otherCloser.map Placed.unplaced = closer.map Placed.unplaced) :
    Parallel before Node.unplaced (finishMath context closing opener children closer)
      (finishMath other closing otherOpener otherChildren otherCloser) :=
  parallel_close _ closes fun _ _ _ _ => by simp [Node.unplaced, opens, inside, closes]

/-- A formula is closed by the same token. -/
theorem parallel_math (parallel : nested.Parallel before otherNested) (mode : Mode) :
    Parallel before Node.unplaced (math context nested mode) (math other otherNested mode) := by
  refine .bind (parallel_take alike) fun opener otherOpener opens => ?_
  have same : Closing.ofOpener otherOpener.token = Closing.ofOpener opener.token :=
    congrArg (Closing.ofOpener ·.token) opens
  rw [same]
  have content : Parallel before (Prod.map unplacedAll (Option.map Placed.unplaced))
      (formula context nested (.ofOpener opener.token) { mode with inMath := true })
      (formula other otherNested (.ofOpener opener.token) { mode with inMath := true }) :=
    .bind (parallel.read _ _) fun _ _ inside => .bind (parallel_splitAhead _) fun _ _ _ =>
      .bind (parallel_takeIf alike (closing_isAt_unplaced _)) fun _ _ closes =>
        .pure (Prod.ext inside closes)
  exact .bind content fun _ _ same =>
    parallel_finishMath _ opens (congrArg Prod.fst same) (congrArg Prod.snd same)

theorem parallel_reportMissing (position : Nat) (command : Text) (target otherTarget : Token) :
    Parallel before id (reportMissing context position command target)
      (reportMissing other position command otherTarget) :=
  .bind (parallel_look alike 0) fun _ _ _ => parallel_report _ _ _ rfl

theorem parallel_argumentContent (parallel : inner.Parallel before otherInner)
    {target otherTarget : Token} (same : otherTarget.unplaced = target.unplaced) :
    Parallel before Node.unplaced (argumentContent context inner target)
      (argumentContent other otherInner otherTarget) := by
  have opens : otherTarget.isBeginGroup = target.isBeginGroup :=
    (congrArg Token.isBeginGroup same :)
  exact .ite (by rw [opens]) (parallel_group alike parallel) (parallel_leaf alike)

/-- A command has the same arguments on both sides. -/
theorem parallel_arguments (parallel : inner.Parallel before otherInner) (mode : Mode)
    (command : Text) (position : Nat) (kinds : List ArgumentKind) :
    Parallel before unplacedArguments (arguments context inner mode command position kinds)
      (arguments other otherInner mode command position kinds) := by
  have cons : ∀ (kind : ArgumentKind) {leading otherLeading : List Node}
      {content otherContent : Node} {later otherLater : List Argument},
      unplacedAll otherLeading = unplacedAll leading →
      otherContent.unplaced = content.unplaced →
      unplacedArguments otherLater = unplacedArguments later →
      unplacedArguments (⟨kind, otherLeading, otherContent⟩ :: otherLater) =
        unplacedArguments (⟨kind, leading, content⟩ :: later) := by
    intro kind leading otherLeading content otherContent later otherLater blanks same rest
    simp [unplacedArguments, blanks, same, rest]
  induction kinds generalizing position with
  | nil => exact .pure rfl
  | cons kind kinds ih =>
    cases kind with
    | optional =>
      refine .get fun states => ?_
      rw [states.count (spacesAhead_map keepsText_unplaced)]
      refine .bind (parallel_look alike _) fun target otherTarget same => ?_
      rw [show otherTarget.isCharacter '[' = target.isCharacter '[' from
        (congrArg (Token.isCharacter · '[') same :)]
      have below := parallel.when (target.isCharacter '[')
      revert below
      generalize inner.when (target.isCharacter '[') = opened
      generalize otherInner.when (target.isCharacter '[') = otherOpened
      rintro (_ | parallel)
      · exact ih _
      · exact .bind (parallel_leaves alike _) fun _ _ blanks =>
          .bind (parallel_optionalGroup alike parallel _) fun _ _ content =>
            .bind (ih _) fun _ _ later => .pure (cons .optional blanks content later)
    | mandatory =>
      refine .get fun states => ?_
      rw [states.count (gapAhead_map keepsText_unplaced false)]
      refine .bind (parallel_look alike _) fun target otherTarget same => ?_
      have refused : cannotStartArgument otherTarget = cannotStartArgument target :=
        (congrArg cannotStartArgument same :)
      exact .ite (by rw [refused])
        (.bind (parallel_reportMissing alike ..) fun _ _ _ => .pure rfl)
        (.bind (parallel_leaves alike _) fun _ _ blanks =>
          .bind (parallel_argumentContent alike parallel same) fun _ _ content =>
            .bind (ih _) fun _ _ later => .pure (cons .mandatory blanks content later))

theorem parallel_starAhead (signature : Signature) :
    Parallel before (Option.map Placed.unplaced) (starAhead context signature)
      (starAhead other signature) :=
  .ite Iff.rfl (parallel_takeIf alike fun _ => rfl) (.pure rfl)

theorem parallel_commandBehind (parallel : inner.Parallel before otherInner) (mode : Mode)
    {head otherHead : Placed} (same : otherHead.unplaced = head.unplaced) :
    Parallel before Command.unplaced (commandBehind context inner mode head)
      (commandBehind other otherInner mode otherHead) := by
  have name : otherHead.token.value = head.token.value :=
    (congrArg (fun placed => placed.token.value) same :)
  unfold commandBehind
  rw [name, alike.commands]
  refine .bind (parallel_starAhead alike _) fun _ _ star =>
    .bind (parallel_arguments alike parallel ..) fun _ _ arguments =>
      .bind (parallel_spanFrom _ _) fun _ _ _ => .bind parallel_newId fun _ _ _ => .pure ?_
  simp [Command.unplaced, same, star, arguments]

theorem parallel_command (parallel : inner.Parallel before otherInner) (mode : Mode) :
    Parallel before Node.unplaced (command context inner mode) (command other otherInner mode) :=
  .bind (parallel_take alike) fun _ _ same =>
    .bind (parallel_commandBehind alike parallel mode same) fun _ _ invoked =>
      .pure (congrArg Node.command invoked)

theorem parallel_ending (parallel : inner.Parallel before otherInner) :
    Parallel before (Prod.map Command.unplaced id) (ending context inner)
      (ending other otherInner) := by
  refine .bind (parallel_take alike) fun head otherHead heads => .get fun states => ?_
  rw [states.count (spacesAhead_map keepsText_unplaced)]
  refine .bind (parallel_look alike _) fun target otherTarget same => ?_
  have opens : otherTarget.isBeginGroup = target.isBeginGroup :=
    (congrArg Token.isBeginGroup same :)
  refine .ite (by rw [opens]) ?_ ?_
  · refine .bind (parallel_leaves alike _) fun leading otherLeading blanks =>
      .bind (parallel_group alike parallel) fun nameGroup otherGroup named =>
        .bind (parallel_spanFrom _ _) fun _ _ _ => .bind parallel_newId fun _ _ _ => .pure ?_
    rw [← otherGroup.innerText_unplaced, named, nameGroup.innerText_unplaced]
    simp [Command.unplaced, unplacedArguments, heads, blanks, named]
  · refine .bind (parallel_spanFrom _ _) fun _ _ _ => .bind parallel_newId fun _ _ _ => .pure ?_
    simp [Command.unplaced, heads]

theorem parallel_strayEnding (parallel : inner.Parallel before otherInner) :
    Parallel before Node.unplaced (strayEnding context inner) (strayEnding other otherInner) := by
  refine .bind (parallel_ending alike parallel) fun ended otherEnded same => ?_
  rw [show otherEnded.2 = ended.2 from (congrArg Prod.snd same :)]
  exact .bind (parallel_report _ _ _ rfl) fun _ _ _ =>
    .pure (congrArg Node.command (congrArg Prod.fst same :))

theorem parallel_endingAhead (parallel : inner.Parallel before otherInner) :
    Parallel before (Option.map (Prod.map Command.unplaced id)) (endingAhead context inner)
      (endingAhead other otherInner) := by
  refine .bind (parallel_look alike 0) fun target otherTarget same => ?_
  have ends : otherTarget.isControlWord "end" = target.isControlWord "end" :=
    (congrArg (Token.isControlWord · "end") same :)
  exact .ite (by rw [ends])
    (.bind (parallel_ending alike parallel) fun _ _ ended => .pure (congrArg some ended))
    (.pure rfl)

theorem parallel_opening (parallel : nested.Parallel before otherNested) (mode : Mode)
    {head otherHead : Placed} (same : otherHead.unplaced = head.unplaced) (skipped : Nat) :
    Parallel before (Prod.map Command.unplaced id) (opening context nested mode head skipped)
      (opening other otherNested mode otherHead skipped) := by
  refine .bind (parallel_leaves alike _) fun leading otherLeading blanks =>
    .bind (parallel_group alike (.present parallel)) fun nameGroup otherGroup named => ?_
  have name : otherGroup.innerText.strip = nameGroup.innerText.strip := by
    rw [← otherGroup.innerText_unplaced, named, nameGroup.innerText_unplaced]
  rw [name, alike.commands]
  refine .bind (parallel_arguments alike (.present parallel) ..) fun _ _ extra =>
    .bind (parallel_spanFrom _ _) fun _ _ _ => .bind parallel_newId fun _ _ _ => .pure ?_
  simp [Command.unplaced, unplacedArguments, same, blanks, named, extra]

theorem parallel_environmentBody (parallel : nested.Parallel before otherNested) (mode : Mode)
    (name : Text) :
    Parallel before unplacedAll (environmentBody context nested mode name)
      (environmentBody other otherNested mode name) :=
  .ite (by rw [alike.commands])
    (parallel_leavesAhead alike (verbatimLength_map keepsText_unplaced name)) (parallel.read ..)

omit alike in
theorem parallel_reportDefect {defect otherDefect : Option (Problem × Span)}
    (same : otherDefect.map Prod.fst = defect.map Prod.fst) (node otherNode : NodeId) :
    Parallel before id (reportDefect defect node) (reportDefect otherDefect otherNode) := by
  cases defect with
  | none =>
    rw [Option.map_none, Option.map_eq_none_iff] at same
    rw [same]
    exact .pure rfl
  | some defect =>
    obtain ⟨otherDefect, rfl, problem⟩ := Option.map_eq_some_iff.mp same
    unfold reportDefect
    simp only [problem]
    exact parallel_report _ _ _ rfl

omit alike in
/-- What is wrong with the end of an environment depends on its name only. -/
theorem mismatch_unplaced (name : Text) (opening otherOpening : Command)
    {ending otherEnding : Option (Command × Text)}
    (ends : otherEnding.map (Prod.map Command.unplaced id) =
      ending.map (Prod.map Command.unplaced id)) :
    (mismatch name otherOpening otherEnding).map Prod.fst =
      (mismatch name opening ending).map Prod.fst := by
  cases ending with
  | none =>
    rw [Option.map_none, Option.map_eq_none_iff] at ends
    rw [ends]
    rfl
  | some ending =>
    obtain ⟨otherEnding, rfl, same⟩ := Option.map_eq_some_iff.mp ends
    have name : otherEnding.2 = ending.2 := (congrArg Prod.snd same :)
    simp only [mismatch, name]
    split <;> rfl

omit alike in
theorem parallel_finishEnvironment (name : Text) {opening otherOpening : Command}
    (opens : otherOpening.unplaced = opening.unplaced) {body otherBody : List Node}
    (inside : unplacedAll otherBody = unplacedAll body)
    {ending otherEnding : Option (Command × Text)}
    (ends : otherEnding.map (Prod.map Command.unplaced id) =
      ending.map (Prod.map Command.unplaced id)) :
    Parallel before Node.unplaced (finishEnvironment context name opening body ending)
      (finishEnvironment other name otherOpening otherBody otherEnding) := by
  have defects := mismatch_unplaced name opening otherOpening ends
  have matched : (mismatch name otherOpening otherEnding).isNone =
      (mismatch name opening ending).isNone := by
    rw [← Option.isNone_map, defects, Option.isNone_map]
  have invocations : (otherEnding.map Prod.fst).map Command.unplaced =
      (ending.map Prod.fst).map Command.unplaced := by
    have firsts := congrArg (Option.map Prod.fst) ends
    simp only [Option.map_map, Function.comp_def, Prod.map_fst] at firsts ⊢
    exact firsts
  refine .bind (parallel_spanFrom _ _) fun _ _ _ => .bind parallel_newId fun _ _ _ =>
    .bind (parallel_reportDefect defects _ _) fun _ _ _ => .pure ?_
  simp only [Node.unplaced_environment, opens, inside, matched, invocations]

/-- An environment has the same name, body and end on both sides. -/
theorem parallel_environment (parallel : nested.Parallel before otherNested) (mode : Mode) :
    Parallel before Node.unplaced (environment context nested mode)
      (environment other otherNested mode) := by
  refine .bind (parallel_take alike) fun head otherHead heads => .get fun states => ?_
  rw [states.count (spacesAhead_map keepsText_unplaced)]
  refine .bind (parallel_look alike _) fun target otherTarget same => ?_
  have braced : otherTarget.isBeginGroup = target.isBeginGroup :=
    (congrArg Token.isBeginGroup same :)
  refine .ite (by rw [braced]) ?_ ?_
  · refine .bind (parallel_opening alike parallel mode heads _) fun opened otherOpened opens => ?_
    rw [show otherOpened.2 = opened.2 from (congrArg Prod.snd opens :)]
    exact .bind (parallel_environmentBody alike parallel mode _) fun _ _ inside =>
      .bind (parallel_endingAhead alike (.present parallel)) fun _ _ ends =>
        parallel_finishEnvironment _ (congrArg Prod.fst opens :) inside ends
  · exact .bind (parallel_commandBehind alike (.present parallel) _ heads) fun _ _ invoked =>
      .pure (congrArg Node.command invoked)

theorem parallel_strayGroupEnd :
    Parallel before Node.unplaced (strayGroupEnd context) (strayGroupEnd other) :=
  .bind (parallel_take alike) fun _ _ same => .bind parallel_newId fun _ _ _ =>
    .bind (parallel_report _ _ _ rfl) fun _ _ _ => .pure (congrArg (Node.leaf 0) same)

omit alike in
/-- A level that is too deep is reported on both sides. -/
theorem parallel_reportUnopened (parallel : inner.Parallel before otherInner) (mode : Mode)
    {token otherToken : Token} (same : otherToken.unplaced = token.unplaced) :
    Parallel before id (reportUnopened inner mode token)
      (reportUnopened otherInner mode otherToken) := by
  have absent : otherInner.isNone = inner.isNone := by
    cases parallel <;> rfl
  have opens : opensNesting otherToken mode.inMath = opensNesting token mode.inMath :=
    (congrArg (opensNesting · mode.inMath) same :)
  exact .ite (by rw [absent, opens]) (parallel_reportNesting _ _ rfl) (.pure rfl)

/-- Tokens that differ in places start the same construct. -/
theorem parallel_construct (parallel : inner.Parallel before otherInner) (mode : Mode)
    {token otherToken : Token} (same : otherToken.unplaced = token.unplaced) :
    Parallel before Node.unplaced (construct context inner mode token)
      (construct other otherInner mode otherToken) := by
  have opens : otherToken.isBeginGroup = token.isBeginGroup := (congrArg Token.isBeginGroup same :)
  have closes : otherToken.isEndGroup = token.isEndGroup := (congrArg Token.isEndGroup same :)
  have words : ∀ name, otherToken.isControlWord name = token.isControlWord name :=
    fun name => (congrArg (Token.isControlWord · name) same :)
  have sequence : otherToken.isControlSequence = token.isControlSequence :=
    (congrArg Token.isControlSequence same :)
  have math : opensMath otherToken = opensMath token := (congrArg opensMath same :)
  refine .ite (by rw [opens]) (parallel_group alike parallel) <|
    .ite (by rw [closes]) (parallel_strayGroupEnd alike) <|
      .ite (by rw [words]) (parallel_strayEnding alike parallel) ?_
  rw [math, words]
  have shifts := parallel.when (!mode.inMath && opensMath token)
  have begins := parallel.when (token.isControlWord "begin")
  revert shifts begins
  generalize inner.when (!mode.inMath && opensMath token) = formulas
  generalize otherInner.when (!mode.inMath && opensMath token) = otherFormulas
  generalize inner.when (token.isControlWord "begin") = regions
  generalize otherInner.when (token.isControlWord "begin") = otherRegions
  rintro (_ | formula)
  · rintro (_ | region)
    · exact .ite (by rw [sequence]) (parallel_command alike parallel mode) (parallel_leaf alike)
    · exact parallel_environment alike region mode
  · exact fun _ => parallel_math alike formula mode

theorem parallel_node (parallel : inner.Parallel before otherInner) (mode : Mode) :
    Parallel before Node.unplaced (node context inner mode) (node other otherInner mode) :=
  .bind (parallel_look alike 0) fun _ _ same =>
    .bind (parallel_reportUnopened parallel mode same) fun _ _ _ =>
      parallel_construct alike parallel mode same

omit alike in
/-- Where a sequence ends does not depend on places. -/
theorem endsBefore_unplaced (closing : Closing) (mode : Mode) {token otherToken : Token}
    (same : otherToken.unplaced = token.unplaced) :
    endsBefore closing mode otherToken = endsBefore closing mode token := by
  have closes : otherToken.isEndGroup = token.isEndGroup := (congrArg Token.isEndGroup same :)
  have ends : otherToken.isControlWord "end" = token.isControlWord "end" :=
    (congrArg (Token.isControlWord · "end") same :)
  rw [endsBefore, endsBefore, closes, ends, ← closing_isAt_unplaced, same, closing_isAt_unplaced]

/-- A sequence of nodes ends on both sides behind the same nodes. -/
theorem parallel_nodesUntil (parallel : inner.Parallel before otherInner) (closing : Closing)
    (mode : Mode) {nodes otherNodes : Array Node}
    (read : unplacedAll otherNodes.toList = unplacedAll nodes.toList) :
    Parallel before unplacedAll (nodesUntil context inner closing mode nodes)
      (nodesUntil other otherInner closing mode otherNodes) := by
  constructor
  intro state otherState states
  fun_induction nodesUntil context inner closing mode nodes state
    generalizing otherNodes otherState with
  | case1 nodes state none =>
    have done : otherState.rest = [] := by simpa [none] using states.rest
    rw [nodesUntil_of_halts _ (by simp [Halts, done])]
    exact ⟨read, states⟩
  | case2 nodes state token rest ahead ends =>
    have later := states.rest
    rw [ahead, List.map_cons] at later
    obtain ⟨otherToken, otherRest, there, same, -⟩ := List.map_eq_cons_iff.mp later
    rw [nodesUntil_of_halts _ (by simp [Halts, there, endsBefore_unplaced closing mode same, ends])]
    exact ⟨read, states⟩
  | case3 nodes state token rest ahead continues =>
    rename_i ih
    have later := states.rest
    rw [ahead, List.map_cons] at later
    obtain ⟨otherToken, otherRest, there, same, -⟩ := List.map_eq_cons_iff.mp later
    rw [nodesUntil_of_continues _ there
      (by rw [endsBefore_unplaced closing mode same]; exact Bool.eq_false_iff.mpr continues)]
    obtain ⟨built, reached⟩ := (parallel_node alike parallel mode).run states
    exact ih (by simp [unplacedAll_eq_map] at read built ⊢; exact ⟨read, built⟩) reached

/-- **Every level** of the parser runs in parallel on documents that differ in places. -/
theorem parallel_level (room : Nat) :
    (level context room).Parallel before (level other room) := by
  induction room with
  | zero => exact ⟨fun _ _ => parallel_nodesUntil alike .absent _ _ rfl⟩
  | succ room ih => exact ⟨fun _ _ => parallel_nodesUntil alike (.present ih) _ _ rfl⟩

end

end Parser

end TexSource
