import TexSource.Document.Parser
import TexSource.Proofs.Document.Splits
import TexSource.Proofs.Document.Tree

/-!
# What the parser builds

Whatever part of a document is read, the tokens taken for it are the tokens under what
was built, in their order, and the numbers given out are the numbers of the nodes that
were built (`Parser.Built`). Parts that follow each other add up (`Parser.Built.append`),
and a node is created after the nodes below it (`Parser.Built.create`), with a span from its first
token to its last one (`Node.Framed`). The only change to the tokens is that doubled math shifts
are split (`Parser.Splits`).
-/

namespace TexSource

/-- The span of a node goes from the start of its first token to the end of its last one. -/
def Node.Framed (node : Node) : Prop :=
  ∃ first last, node.placed.head? = some first ∧ node.placed.getLast? = some last ∧
    node.span.start = first.token.span.start ∧ node.span.stop = last.token.span.stop

namespace Parser

/-- Nodes that were created from one number to another: each number between them is given to one
of the nodes, and a node is created after the nodes below it. -/
structure Numbered (first : Nat) (nodes : List Node) (next : Nat) : Prop where
  created : first ≤ next
  ids : (nodes.map Node.id).Perm (List.range' first (next - first))
  ordered : ∀ node ∈ nodes, ∀ child ∈ node.children, child.id < node.id
  own : ∀ node ∈ nodes, node.isInclusion = false

namespace Numbered

variable {first middle next : Nat} {nodes more : List Node}

/-- Without nodes, no number is used. -/
theorem nil (first : Nat) : Numbered first [] first where
  created := Nat.le_refl _
  ids := by simp
  ordered := nofun
  own := nofun

/-- Nodes that are created one after another have numbers one after another. -/
theorem append (earlier : Numbered first nodes middle) (later : Numbered middle more next) :
    Numbered first (nodes ++ more) next where
  created := Nat.le_trans earlier.created later.created
  ids := by
    have start : middle = first + (middle - first) := by
      have := earlier.created
      omega
    have count : next - first = (middle - first) + (next - middle) := by
      have := earlier.created
      have := later.created
      omega
    rw [List.map_append, count, ← List.range'_append_1, ← start]
    exact earlier.ids.append later.ids
  ordered node member := by
    rcases List.mem_append.mp member with member | member
    · exact earlier.ordered node member
    · exact later.ordered node member
  own node member := by
    rcases List.mem_append.mp member with member | member
    · exact earlier.own node member
    · exact later.own node member

/-- A node is created after the nodes below it. -/
theorem create (node : Node) {below : List Node} (numbered : Numbered first below next)
    (walk : node.walk = node :: below) (id : node.id = next) (own : node.isInclusion = false) :
    Numbered first node.walk (next + 1) where
  created := Nat.le_succ_of_le numbered.created
  ids := by
    have count : next + 1 - first = next - first + 1 := by
      have := numbered.created
      omega
    have last : first + (next - first) = next := Nat.add_sub_cancel' numbered.created
    rw [walk, List.map_cons, id, count, List.range'_1_concat, last]
    exact (numbered.ids.cons _).trans (List.perm_append_singleton _ _).symm
  ordered other member child direct := by
    rw [walk] at member
    rcases List.mem_cons.mp member with rfl | member
    · have inside : child ∈ below := by
        have same : other.children.flatMap Node.walk = below := by
          have := other.walk_eq_cons.symm.trans walk
          exact List.tail_eq_of_cons_eq this
        rw [← same]
        exact List.mem_flatMap.mpr ⟨child, direct, child.mem_walk⟩
      have number := numbered.ids.mem_iff.mp (List.mem_map_of_mem inside)
      have last : first + (next - first) = next := Nat.add_sub_cancel' numbered.created
      exact Nat.lt_of_lt_of_eq (List.mem_range'_1.mp number).2 (last.trans id.symm)
    · exact numbered.ordered other member child direct
  own other member := by
    rw [walk] at member
    rcases List.mem_cons.mp member with rfl | member
    · exact own
    · exact numbered.own other member

end Numbered

/-- What was read between two states: the tokens taken and the nodes built from them, each
node once for each number given out. -/
structure Built (before : State) (tokens : List Placed) (nodes : List Node) (after : State) :
    Prop extends Numbered before.created nodes after.created where
  taken : after.taken.toList = before.taken.toList ++ tokens.map Placed.token
  indices : tokens.map Placed.index = List.range' before.taken.size tokens.length
  rest : Splits before.rest (tokens.map Placed.token ++ after.rest)
  framed : ∀ node ∈ nodes, node.Framed

namespace Built

variable {before middle after : State} {tokens others : List Placed} {nodes more : List Node}

/-- Nothing is built out of nothing. -/
theorem refl (state : State) : Built state [] [] state where
  toNumbered := .nil state.created
  taken := by simp
  indices := rfl
  rest := .refl _
  framed := nofun

/-- Parts of a document that follow each other make up one part. -/
theorem append (first : Built before tokens nodes middle)
    (second : Built middle others more after) :
    Built before (tokens ++ others) (nodes ++ more) after where
  toNumbered := first.toNumbered.append second.toNumbered
  taken := by rw [second.taken, first.taken, List.map_append, List.append_assoc]
  indices := by
    have size : middle.taken.size = before.taken.size + tokens.length := by
      have := congrArg List.length first.taken
      simpa using this
    rw [List.map_append, first.indices, second.indices, size, List.range'_append_1,
      List.length_append]
  rest := by
    have later := (Splits.refl (tokens.map Placed.token)).append second.rest
    rw [List.map_append, List.append_assoc]
    exact first.rest.trans later
  framed := List.forall_mem_append.mpr ⟨first.framed, second.framed⟩

/-- Tokens that no node is built for may follow. -/
theorem appendTokens (first : Built before tokens nodes middle)
    (second : Built middle others [] after) : Built before (tokens ++ others) nodes after := by
  have both := first.append second
  rwa [List.append_nil] at both

/-- A node is created from the tokens under it, after the nodes below it. -/
theorem create (node : Node) {below : List Node} (built : Built before tokens below after)
    (walk : node.walk = node :: below) (id : node.id = after.created)
    (own : node.isInclusion = false) (framed : node.Framed) :
    Built before tokens node.walk { after with created := after.created + 1 } where
  toNumbered := built.toNumbered.create node walk id own
  taken := built.taken
  indices := built.indices
  rest := built.rest
  framed := by
    rw [walk]
    exact List.forall_mem_cons.mpr ⟨framed, built.framed⟩

/-- A node is framed whose span goes from its first token to the last token taken. -/
theorem frame (built : Built before tokens nodes after) {node : Node} {first : Placed}
    {context : Context} {start : Position} (placed : node.placed = tokens)
    (head : tokens.head? = some first) (starts : node.span.start = first.token.span.start)
    (stops : node.span.stop = (spanFrom context start after).1.stop) : node.Framed := by
  have nonempty : tokens ≠ [] := by
    rintro rfl
    cases head
  have last := List.getLast?_eq_some_getLast nonempty
  have taken : after.taken.back? = some (tokens.getLast nonempty).token := by
    rw [← Array.getLast?_toList, built.taken, List.getLast?_append, List.getLast?_map, last]
    rfl
  refine ⟨first, tokens.getLast nonempty, by rw [placed, head], by rw [placed, last], starts, ?_⟩
  rw [stops]
  change (after.taken.back?.getD context.endOfInput).span.stop = _
  rw [taken]
  rfl

/-- Reports do not change what was read. -/
theorem remark {parse : Parse Unit} (built : Built before tokens nodes after)
    (remarks : Remarks parse) : Built before tokens nodes (parse after).2 := by
  obtain ⟨diagnostics, nestingReported, same⟩ := remarks.unchanged after
  rw [same]
  exact ⟨built.toNumbered, built.taken, built.indices, built.rest, built.framed⟩

end Built

/-- The result of a step is built from the tokens it takes. -/
def Yields {Result : Type} (placed : Result → List Placed) (walk : Result → List Node)
    (before : State) (run : Result × State) : Prop :=
  Built before (placed run.1) (walk run.1) run.2

section

variable (context : Context)

/-- A token that is taken is the next one of the document. -/
theorem built_take {state : State} (ahead : state.rest ≠ []) :
    Built state [(take context state).1] [] (take context state).2 := by
  unfold take
  split
  · contradiction
  · rename_i token rest split
    exact ⟨.nil state.created, by simp, by simp, by simpa [split] using .refl _, nofun⟩

/-- A token ahead that is no end of input is one of the tokens left. -/
theorem lt_length_of_look (test : Token → Bool) (ends : test context.endOfInput = false)
    {distance : Nat} {tokens : List Token}
    (passes : test (tokens.getD distance context.endOfInput) = true) :
    distance < tokens.length := by
  apply Nat.lt_of_not_le
  intro beyond
  have none : tokens[distance]? = none := List.getElem?_eq_none beyond
  rw [List.getD_eq_getElem?_getD, none, Option.getD_none, ends] at passes
  cases passes

theorem built_takeIf (test : Token → Bool) (ends : test context.endOfInput = false)
    (state : State) :
    Built state (takeIf context test state).1.toList [] (takeIf context test state).2 := by
  simp only [takeIf, bind_apply]
  split
  · rename_i passes
    have inBounds := lt_length_of_look context test ends passes
    exact built_take context (List.ne_nil_of_length_pos inBounds)
  · exact .refl state

/-- A token that passes a test is taken. -/
theorem takeIf_of_passes {test : Token → Bool} {state : State}
    (passes : test (state.rest.getD 0 context.endOfInput) = true) :
    takeIf context test state = (some (take context state).1, (take context state).2) := by
  simp only [takeIf, bind_apply, look_apply]
  rw [if_pos passes]
  rfl

/-- A token that fails a test stays ahead. -/
theorem takeIf_of_fails {test : Token → Bool} {state : State}
    (fails : test (state.rest.getD 0 context.endOfInput) = false) :
    takeIf context test state = (none, state) := by
  simp only [takeIf, bind_apply, look_apply]
  rw [if_neg (by rw [fails]; exact Bool.false_ne_true)]
  rfl

theorem built_leaf {state : State} (ahead : state.rest ≠ []) :
    Yields Node.placed Node.walk state (leaf context state) :=
  (built_take context ahead).create (.leaf (take context state).2.created _) rfl rfl rfl
    ⟨_, _, rfl, rfl, rfl, rfl⟩

/-- Taking a token leaves those behind it. -/
theorem rest_take (state : State) : (take context state).2.rest = state.rest.tail := by
  unfold take
  split <;> simp [*]

theorem rest_leaf (state : State) : (leaf context state).2.rest = state.rest.tail :=
  rest_take context state

/-- The tokens taken as leaves are those at the front. -/
theorem rest_leaves (count : Nat) (state : State) :
    (leaves context count state).2.rest = state.rest.drop count := by
  induction count generalizing state with
  | zero => rfl
  | succ count ih =>
    change (leaves context count (leaf context state).2).2.rest = _
    rw [ih, rest_leaf, List.drop_tail]

/-- As many leaves are built as there are tokens, each of one of them. -/
theorem built_leaves {count : Nat} {state : State} (ahead : count ≤ state.rest.length) :
    Yields placedAll walkAll state (leaves context count state) := by
  induction count generalizing state with
  | zero => exact .refl state
  | succ count ih =>
    have first := built_leaf context (List.ne_nil_of_length_pos (Nat.zero_lt_of_lt ahead))
    have left : count ≤ (leaf context state).2.rest.length := by
      rw [rest_leaf, List.length_tail]
      omega
    exact first.append (ih left)

theorem built_finishGroup {before state : State} {opener : Placed} {children : List Node}
    {closer : Option Placed} (delimiter : Delimiter) (missing : Problem)
    (built : Built before (opener :: placedAll children ++ closer.toList) (walkAll children)
      state) :
    Yields Node.placed Node.walk before
      (finishGroup context delimiter opener children closer missing state) :=
  (built.create (.group state.created delimiter opener children closer
    (spanFrom context opener.token.span.start state).1) rfl rfl rfl
      (built.frame rfl rfl rfl rfl)).remark (remarks_reportUnless ..)

/-- A reader of a level builds what it returns. -/
def Nested.Builds (nested : Nested) : Prop :=
  ∀ closing mode state, Yields placedAll walkAll state (nested.read closing mode state)

/-- The reader of the next level, if there is one, builds what it returns. -/
def Inner.Builds (inner : Inner) : Prop :=
  ∀ nested ∈ inner, nested.Builds

/-- Where no level is left, nothing is read on one. -/
theorem Inner.builds_none : Inner.Builds none :=
  nofun

/-- What builds its nodes does so as the content of a construct. -/
theorem Inner.builds_some {nested : Nested} (builds : nested.Builds) :
    Inner.Builds (some nested) := by
  intro other same
  cases same
  exact builds

/-- A flat group holds no more tokens than there are. -/
theorem flatLength_le (depth : Nat) (tokens : List Token) :
    flatLength depth tokens ≤ tokens.length := by
  fun_induction flatLength depth tokens with
  | case1 => exact Nat.le_refl _
  | case2 => exact Nat.zero_le _
  | case3 => simpa
  | case4 => simpa
  | case5 => simpa

theorem built_group (ends : context.endOfInput.kind = .endOfInput) {inner : Inner}
    (builds : inner.Builds) {state : State} (ahead : state.rest ≠ []) :
    Yields Node.placed Node.walk state (group context inner state) := by
  have opened := built_take context ahead
  have notEnd : Token.isEndGroup context.endOfInput = false := by simp [Token.isEndGroup, ends]
  cases inner with
  | none =>
    have inside := built_leaves context (flatLength_le 0 (take context state).2.rest)
    have closed := built_takeIf context Token.isEndGroup notEnd
      (leaves context (flatLength 0 (take context state).2.rest) (take context state).2).2
    have whole := (opened.append inside).appendTokens closed
    have finished := built_finishGroup context .brace .unterminatedGroup
      (whole.remark (remarks_reportFlattened (take context state).1.token))
    exact finished
  | some nested =>
    have inside := builds nested rfl .never ⟨false, false, true⟩ (take context state).2
    have closed := built_takeIf context Token.isEndGroup notEnd
      (nested.read .never ⟨false, false, true⟩ (take context state).2).2
    have whole := (opened.append inside).appendTokens closed
    have finished := built_finishGroup context .brace .unterminatedGroup whole
    exact finished

theorem built_optionalGroup (ends : context.endOfInput.kind = .endOfInput) {nested : Nested}
    (builds : nested.Builds) (mode : Mode) {state : State} (ahead : state.rest ≠ []) :
    Yields Node.placed Node.walk state (optionalGroup context nested mode state) := by
  have notEnd : Token.isCharacter context.endOfInput ']' = false := by
    simp [Token.isCharacter, ends]
  have opened := built_take context ahead
  have inside := builds .bracket mode (take context state).2
  have closed := built_takeIf context (Token.isCharacter · ']') notEnd
    (nested.read .bracket mode (take context state).2).2
  have whole := (opened.append inside).appendTokens closed
  have finished := built_finishGroup context .bracket .unterminatedOptional whole
  exact finished

/-- Splitting the token ahead leaves what was built as it is. -/
theorem Built.splitAhead {before after : State} {tokens : List Placed} {nodes : List Node}
    (built : Built before tokens nodes after) (closing : Closing) :
    Built before tokens nodes (splitAhead closing after).2 := by
  change Built before tokens nodes
    (if closing = .shift then { after with rest := splitFront after.rest } else after)
  split
  · have later := (Splits.refl (tokens.map Placed.token)).append (.splitFront after.rest)
    exact { built with rest := built.rest.trans later }
  · exact built

/-- The end of the input closes nothing. -/
theorem Closing.isAt_eq_false (closing : Closing) {token : Token}
    (ends : token.kind = .endOfInput) : closing.isAt token = false := by
  cases closing <;> simp [Closing.isAt, Token.isCharacter, Token.isMathShift, ends]

theorem built_finishMath {before state : State} {opener : Placed} {children : List Node}
    {closer : Option Placed} (closing : Closing)
    (built : Built before (opener :: placedAll children ++ closer.toList) (walkAll children)
      state) :
    Yields Node.placed Node.walk before (finishMath context closing opener children closer state) :=
  (built.create (.math state.created closing.isDisplay opener children closer
    (spanFrom context opener.token.span.start state).1) rfl rfl rfl
      (built.frame rfl rfl rfl rfl)).remark (remarks_reportUnless ..)

/-- The content of a formula is built out of the tokens up to the one that closes it. -/
theorem built_formula (ends : context.endOfInput.kind = .endOfInput) {nested : Nested}
    (builds : nested.Builds) (closing : Closing) (mode : Mode) (state : State) :
    Built state
      (placedAll (formula context nested closing mode state).1.1 ++
        (formula context nested closing mode state).1.2.toList)
      (walkAll (formula context nested closing mode state).1.1)
      (formula context nested closing mode state).2 := by
  have inside := (builds closing mode state).splitAhead closing
  have whole := inside.appendTokens (built_takeIf context _ (closing.isAt_eq_false ends) _)
  exact whole

theorem built_math (ends : context.endOfInput.kind = .endOfInput) {nested : Nested}
    (builds : nested.Builds) (mode : Mode) {state : State} (ahead : state.rest ≠ []) :
    Yields Node.placed Node.walk state (math context nested mode state) := by
  have opened := built_take context ahead
  have content := built_formula context ends builds (.ofOpener (take context state).1.token)
    { mode with inMath := true } (take context state).2
  have whole := opened.append content
  have finished := built_finishMath context (.ofOpener (take context state).1.token) whole
  exact finished

/-- A level is open if it is there and may be opened. -/
theorem Inner.when_eq_some {inner : Inner} {opens : Bool} {nested : Nested} :
    inner.when opens = some nested ↔ opens = true ∧ inner = some nested := by
  cases opens <;> simp [Inner.when]

theorem built_argumentContent (ends : context.endOfInput.kind = .endOfInput) {inner : Inner}
    (builds : inner.Builds) (target : Token) {state : State}
    (ahead : state.rest ≠ []) :
    Yields Node.placed Node.walk state (argumentContent context inner target state) := by
  unfold argumentContent
  split
  · exact built_group context ends builds ahead
  · exact built_leaf context ahead

/-- What is left after skipped tokens, when one of those left stands behind them. -/
theorem rest_leaves_ne_nil {count : Nat} {state : State} (ahead : count < state.rest.length) :
    (leaves context count state).2.rest ≠ [] := by
  rw [rest_leaves]
  intro none
  exact absurd (List.drop_eq_nil_iff.mp none) (Nat.not_le_of_lt ahead)

/-- The nodes of arguments are built out of their tokens, those that are skipped before them among
these. -/
theorem built_arguments (ends : context.endOfInput.kind = .endOfInput) {inner : Inner}
    (builds : inner.Builds) (mode : Mode) (command : Text) (position : Nat)
    (kinds : List ArgumentKind) (state : State) :
    Yields placedArguments walkArguments state
      (arguments context inner mode command position kinds state) := by
  induction kinds generalizing position state with
  | nil => exact .refl state
  | cons kind kinds ih =>
    cases kind with
    | optional =>
      have notEnd : Token.isCharacter context.endOfInput '[' = false := by
        simp [Token.isCharacter, ends]
      simp only [arguments, bind_apply, get_apply, look_apply]
      cases opens : inner.when
          ((state.rest.getD (spacesAhead state.rest) context.endOfInput).isCharacter '[') with
      | none => exact ih (position + 1) state
      | some nested =>
        obtain ⟨bracket, present⟩ := Inner.when_eq_some.mp opens
        have inBounds := lt_length_of_look context (Token.isCharacter · '[') notEnd bracket
        have leading := built_leaves context (Nat.le_of_lt inBounds)
        have content := built_optionalGroup context ends (builds nested present) mode
          (rest_leaves_ne_nil context inBounds)
        have whole := (leading.append content).append (ih (position + 1) _)
        exact whole
    | mandatory =>
      simp only [arguments, bind_apply, get_apply, look_apply]
      by_cases refused : cannotStartArgument
          (state.rest.getD (gapAhead false state.rest) context.endOfInput) = true
      · rw [if_pos refused]
        exact (Built.refl state).remark (remarks_reportMissing ..)
      · rw [if_neg refused]
        have inBounds := lt_length_of_look context (fun token => !cannotStartArgument token)
          (by simp [cannotStartArgument, Token.isEndOfInput, ends]) (by simpa using refused)
        have leading := built_leaves context (Nat.le_of_lt inBounds)
        have content := built_argumentContent context ends builds
          (state.rest.getD (gapAhead false state.rest) context.endOfInput)
          (rest_leaves_ne_nil context inBounds)
        have whole := (leading.append content).append (ih (position + 1) _)
        exact whole

/-- A command is created after its arguments. -/
theorem built_createCommand {before state : State} {head : Placed} (star : Option Placed)
    (arguments : List Argument) (built : Built before
      (head :: star.toList ++ placedArguments arguments) (walkArguments arguments) state)
    (name : Text) :
    Built before (head :: star.toList ++ placedArguments arguments)
      (Command.walk ⟨state.created, name, head, star, arguments,
        (spanFrom context head.token.span.start state).1⟩)
      { state with created := state.created + 1 } :=
  built.create (.command ⟨state.created, name, head, star, arguments,
    (spanFrom context head.token.span.start state).1⟩) rfl rfl rfl
      (built.frame rfl rfl rfl rfl)

theorem built_starAhead (ends : context.endOfInput.kind = .endOfInput) (signature : Signature)
    (state : State) : Built state (starAhead context signature state).1.toList []
      (starAhead context signature state).2 := by
  unfold starAhead
  split
  · exact built_takeIf context (Token.isCharacter · '*') (by simp [Token.isCharacter, ends]) state
  · exact .refl state

theorem built_commandBehind (ends : context.endOfInput.kind = .endOfInput) {inner : Inner}
    (builds : inner.Builds) (mode : Mode) {before state : State} {head : Placed}
    (opened : Built before [head] [] state) :
    Yields Command.placed Command.walk before (commandBehind context inner mode head state) := by
  have starred := built_starAhead context ends (context.commands.command head.token.value) state
  have arguments := built_arguments context ends builds mode head.token.value 1
    (context.commands.command head.token.value).arguments
  have whole := (opened.append starred).append (arguments _)
  have finished := built_createCommand context _ _ whole
  exact finished _

theorem built_command (ends : context.endOfInput.kind = .endOfInput) {inner : Inner}
    (builds : inner.Builds) (mode : Mode) {state : State} (ahead : state.rest ≠ []) :
    Yields Node.placed Node.walk state (command context inner mode state) := by
  have opened := built_take context ahead
  exact built_commandBehind context ends builds mode opened

theorem built_ending (ends : context.endOfInput.kind = .endOfInput) {inner : Inner}
    (builds : inner.Builds) {state : State} (ahead : state.rest ≠ []) :
    Yields (fun ended => ended.1.placed) (fun ended => ended.1.walk) state
      (ending context inner state) := by
  have head := built_take context ahead
  have notBrace : Token.isBeginGroup context.endOfInput = false := by
    simp [Token.isBeginGroup, ends]
  simp only [ending, bind_apply, get_apply, look_apply]
  by_cases brace : Token.isBeginGroup ((take context state).2.rest.getD
      (spacesAhead (take context state).2.rest) context.endOfInput) = true
  · rw [if_pos brace]
    have inBounds := lt_length_of_look context Token.isBeginGroup notBrace brace
    have leading := built_leaves context (Nat.le_of_lt inBounds)
    have name := built_group context ends builds (rest_leaves_ne_nil context inBounds)
    have argument := (leading.append name).append (.refl _)
    have whole := head.append argument
    have finished := fun kind => built_createCommand context none [⟨kind, _, _⟩] whole
    exact finished _ _
  · rw [if_neg brace]
    have finished := built_createCommand context none [] head
    exact finished _

theorem built_strayEnding (ends : context.endOfInput.kind = .endOfInput) {inner : Inner}
    (builds : inner.Builds) {state : State} (ahead : state.rest ≠ []) :
    Yields Node.placed Node.walk state (strayEnding context inner state) := by
  have ended := built_ending context ends builds ahead
  have reported := fun problem span node => ended.remark (remarks_report problem span node)
  exact reported _ _ _

/-- The tokens of the end of an environment, if it has one. -/
def endingPlaced (ending : Option (Command × Text)) : List Placed :=
  ending.toList.flatMap fun ending => ending.1.placed

/-- The nodes of the end of an environment, if it has one. -/
def endingWalk (ending : Option (Command × Text)) : List Node :=
  ending.toList.flatMap fun ending => ending.1.walk

theorem built_endingAhead (ends : context.endOfInput.kind = .endOfInput) {inner : Inner}
    (builds : inner.Builds) (state : State) :
    Yields endingPlaced endingWalk state (endingAhead context inner state) := by
  have notEnd : Token.isControlWord context.endOfInput "end" = false := by
    simp [Token.isControlWord, ends]
  simp only [endingAhead, bind_apply, look_apply]
  by_cases last : Token.isControlWord (state.rest.getD 0 context.endOfInput) "end" = true
  · rw [if_pos last]
    have inBounds := lt_length_of_look context (Token.isControlWord · "end") notEnd last
    have ended := built_ending context ends builds (List.ne_nil_of_length_pos inBounds)
    have whole := ended.append (.refl _)
    exact whole
  · rw [if_neg last]
    exact .refl state

theorem built_opening (ends : context.endOfInput.kind = .endOfInput) {nested : Nested}
    (builds : nested.Builds) (mode : Mode) {skipped : Nat} {before state : State} {head : Placed}
    (opened : Built before [head] [] state) (ahead : skipped < state.rest.length) :
    Yields (fun opened => opened.1.placed) (fun opened => opened.1.walk) before
      (opening context nested mode head skipped state) := by
  have levels := Inner.builds_some builds
  have leading := built_leaves context (Nat.le_of_lt ahead)
  have name := built_group context ends levels (rest_leaves_ne_nil context ahead)
  have extra := built_arguments context ends levels { mode with inEnvironment := false }
  have whole := fun command position kinds =>
    opened.append ((leading.append name).append (extra command position kinds _))
  have finished := fun kind command position kinds =>
    built_createCommand context none (⟨kind, _, _⟩ :: _) (whole command position kinds)
  exact finished .mandatory _ _ _ _

/-- A verbatim body holds no more tokens than there are. -/
theorem verbatimLength_le (name : Text) (tokens : List Token) :
    verbatimLength name tokens ≤ tokens.length := by
  induction tokens with
  | nil => exact Nat.le_refl _
  | cons token rest ih =>
    rw [verbatimLength]
    split
    · exact Nat.zero_le _
    · exact Nat.succ_le_succ ih

/-- The body of an environment is built out of its tokens, be it verbatim or not. -/
theorem built_environmentBody {nested : Nested} (builds : nested.Builds) (mode : Mode)
    (name : Text) (state : State) :
    Yields placedAll walkAll state (environmentBody context nested mode name state) := by
  unfold environmentBody
  split
  · exact built_leaves context (verbatimLength_le name state.rest)
  · exact builds _ _ _

theorem built_finishEnvironment {before state : State} (name : Text) {opening : Command}
    {body : List Node} {ending : Option (Command × Text)}
    (built : Built before (opening.placed ++ placedAll body ++ endingPlaced ending)
      (opening.walk ++ walkAll body ++ endingWalk ending) state) :
    Yields Node.placed Node.walk before
      (finishEnvironment context name opening body ending state) := by
  let environment := fun matched => Node.environment state.created name opening body
    (ending.map Prod.fst) matched (spanFrom context opening.span.start state).1
  have walked : ∀ matched, (environment matched).walk = environment matched ::
      (opening.walk ++ walkAll body ++ endingWalk ending) := by
    intro matched
    cases ending <;> simp [environment, Node.walk, endingWalk]
  have placed : ∀ matched, (environment matched).placed =
      opening.placed ++ placedAll body ++ endingPlaced ending := by
    intro matched
    cases ending <;> simp [environment, Node.placed, endingPlaced]
  -- The environment starts where its head does.
  have head := built.framed (.command opening) (by rw [Node.walk_command]; simp)
  obtain ⟨first, last, starts, -, start, -⟩ := head
  have front : (opening.placed ++ placedAll body ++ endingPlaced ending).head? = some first := by
    have starts : opening.placed.head? = some first := starts
    rw [List.append_assoc, List.head?_append, starts]
    rfl
  have created := fun matched => built.create (environment matched) (walked matched) rfl rfl
    (built.frame (placed matched) front start rfl)
  have finished := fun matched defect =>
    (created matched).remark (remarks_reportDefect defect state.created)
  unfold Yields
  exact (placed _).symm ▸ finished _ _

theorem built_namedEnvironment (ends : context.endOfInput.kind = .endOfInput) {nested : Nested}
    (builds : nested.Builds) (mode : Mode) {skipped : Nat} {before state : State} {head : Placed}
    (opened : Built before [head] [] state) (ahead : skipped < state.rest.length) :
    Yields Node.placed Node.walk before
      (namedEnvironment context nested mode head skipped state) := by
  have opening := built_opening context ends builds mode opened ahead
  have body := built_environmentBody context builds mode
    (Parser.opening context nested mode head skipped state).1.2
    (Parser.opening context nested mode head skipped state).2
  have ending := built_endingAhead context ends (Inner.builds_some builds)
  have whole := (opening.append body).append (ending _)
  have finished := built_finishEnvironment context
    (Parser.opening context nested mode head skipped state).1.2 whole
  exact finished

theorem built_environment (ends : context.endOfInput.kind = .endOfInput) {nested : Nested}
    (builds : nested.Builds) (mode : Mode) {state : State} (ahead : state.rest ≠ []) :
    Yields Node.placed Node.walk state (environment context nested mode state) := by
  have opened := built_take context ahead
  have notBrace : Token.isBeginGroup context.endOfInput = false := by
    simp [Token.isBeginGroup, ends]
  simp only [environment, bind_apply]
  generalize (take context state).2 = behind at opened ⊢
  simp only [environmentBehind, bind_apply, get_apply, look_apply]
  by_cases brace : Token.isBeginGroup
      (behind.rest.getD (spacesAhead behind.rest) context.endOfInput) = true
  · rw [if_pos brace]
    exact built_namedEnvironment context ends builds mode opened
      (lt_length_of_look context Token.isBeginGroup notBrace brace)
  · rw [if_neg brace]
    exact built_commandBehind context ends (Inner.builds_some builds) _ opened

theorem built_strayGroupEnd {state : State} (ahead : state.rest ≠ []) :
    Yields Node.placed Node.walk state (strayGroupEnd context state) := by
  have leaf := built_leaf context ahead
  have reported := fun problem span node => leaf.remark (remarks_report problem span node)
  exact reported _ _ _

theorem built_construct (ends : context.endOfInput.kind = .endOfInput) {inner : Inner}
    (builds : inner.Builds) (mode : Mode) (token : Token) {state : State}
    (ahead : state.rest ≠ []) :
    Yields Node.placed Node.walk state (construct context inner mode token state) := by
  unfold construct
  split
  · exact built_group context ends builds ahead
  · split
    · exact built_strayGroupEnd context ahead
    · split
      · exact built_strayEnding context ends builds ahead
      · cases formula : inner.when (!mode.inMath && opensMath token) with
        | some nested =>
          exact built_math context ends (builds nested (Inner.when_eq_some.mp formula).2) mode ahead
        | none =>
          cases region : inner.when (token.isControlWord "begin") with
          | some nested =>
            exact built_environment context ends (builds nested (Inner.when_eq_some.mp region).2)
              mode ahead
          | none =>
            dsimp only
            split
            · exact built_command context ends builds mode ahead
            · exact built_leaf context ahead

/-- The node that starts at a token covers what is taken for it. -/
theorem built_node (ends : context.endOfInput.kind = .endOfInput) {inner : Inner}
    (builds : inner.Builds) (mode : Mode) {state : State} (ahead : state.rest ≠ []) :
    Yields Node.placed Node.walk state (node context inner mode state) := by
  have remarks := remarks_reportUnopened inner mode (state.rest.getD 0 context.endOfInput)
  have start := (Built.refl state).remark remarks
  have left := (remarks.keeps.rest_eq state).symm ▸ ahead
  have whole := fun token => start.append (built_construct context ends builds mode token left)
  exact whole _

/-- The nodes of a level cover what is taken for them. -/
theorem built_nodesUntil (ends : context.endOfInput.kind = .endOfInput) {inner : Inner}
    (builds : inner.Builds) (closing : Closing) (mode : Mode) (nodes : Array Node) (state : State) :
    ∃ more, (nodesUntil context inner closing mode nodes state).1 = nodes.toList ++ more ∧
      Built state (placedAll more) (walkAll more)
        (nodesUntil context inner closing mode nodes state).2 := by
  fun_induction nodesUntil context inner closing mode nodes state with
  | case1 => exact ⟨[], (List.append_nil _).symm, .refl _⟩
  | case2 => exact ⟨[], (List.append_nil _).symm, .refl _⟩
  | case3 nodes state token rest ahead _ read later =>
    obtain ⟨more, same, built⟩ := later
    have left : state.rest ≠ [] := by simp [ahead]
    have first := built_node context ends builds mode left
    refine ⟨read.1 :: more, by simp [same], ?_⟩
    exact first.append built

theorem builds_nodesUntil (ends : context.endOfInput.kind = .endOfInput) {inner : Inner}
    (builds : inner.Builds) (closing : Closing) (mode : Mode) (state : State) :
    Yields placedAll walkAll state (nodesUntil context inner closing mode #[] state) := by
  obtain ⟨more, same, built⟩ := built_nodesUntil context ends builds closing mode #[] state
  rw [Yields, same]
  exact built

theorem builds_level (ends : context.endOfInput.kind = .endOfInput) (room : Nat) :
    (level context room).Builds := by
  induction room with
  | zero => exact builds_nodesUntil context ends Inner.builds_none
  | succ room ih => exact builds_nodesUntil context ends (Inner.builds_some ih)

end

/-- The tokens ahead end a sequence of nodes, if there are any. -/
def Halts (closing : Closing) (mode : Mode) (tokens : List Token) : Prop :=
  ∀ token ∈ tokens.head?, endsBefore closing mode token = true

theorem nodesUntil_of_halts {context : Context} {inner : Inner} {closing : Closing} {mode : Mode}
    (nodes : Array Node) {state : State} (halts : Halts closing mode state.rest) :
    nodesUntil context inner closing mode nodes state = (nodes.toList, state) := by
  rw [nodesUntil]
  split
  · rfl
  · rename_i token rest ahead
    exact if_pos (halts token (by rw [ahead]; rfl))

theorem nodesUntil_of_continues {context : Context} {inner : Inner} {closing : Closing}
    {mode : Mode} (nodes : Array Node) {state : State} {token : Token} {rest : List Token}
    (ahead : state.rest = token :: rest) (continues : endsBefore closing mode token = false) :
    nodesUntil context inner closing mode nodes state =
      nodesUntil context inner closing mode (nodes.push (node context inner mode state).1)
        (node context inner mode state).2 := by
  rw [nodesUntil]
  split
  · rename_i none
    cases none.symm.trans ahead
  · rename_i other later same
    cases same.symm.trans ahead
    exact if_neg (by simp [continues])

theorem nodesUntil_stops (context : Context) (inner : Inner) (closing : Closing) (mode : Mode)
    (nodes : Array Node) (state : State) :
    Halts closing mode (nodesUntil context inner closing mode nodes state).2.rest := by
  fun_induction nodesUntil context inner closing mode nodes state with
  | case1 nodes state none => simp [Halts, none]
  | case2 nodes state token rest ahead ends => simp [Halts, ahead, ends]
  | case3 nodes state token rest ahead _ read later => exact later

theorem built_nodesOf (context : Context) (ends : context.endOfInput.kind = .endOfInput)
    (content : List Token) :
    Yields placedAll walkAll ⟨#[], content, 0, #[], false⟩ (nodesOf context content) :=
  builds_level context ends maxNesting .never ⟨false, false, false⟩ _

/-- Outside of all constructs reading stops at the end only. -/
theorem rest_nodesOf (context : Context) (content : List Token) :
    (nodesOf context content).2.rest = [] := by
  have stops := nodesUntil_stops context (some (level context (maxNesting - 1))) .never
    ⟨false, false, false⟩ #[] ⟨#[], content, 0, #[], false⟩
  change Halts _ _ (nodesOf context content).2.rest at stops
  cases left : (nodesOf context content).2.rest with
  | nil => rfl
  | cons token rest =>
    rw [left] at stops
    have := stops token rfl
    simp [endsBefore, Closing.isAt] at this

end Parser

/-- A text has a document that passes a test if the test passes on what is parsed. -/
theorem Document.exists_parse_of_any {source : Text} {table : Catcode.Table}
    {commands : CommandTable} {fileId : FileId} {test : Document → Bool}
    (passes : (parse source table commands fileId).toOption.any test = true) :
    ∃ document, parse source table commands fileId = .ok document ∧ test document = true := by
  cases parsed : parse source table commands fileId with
  | error failure =>
    rw [parsed] at passes
    cases passes
  | ok document =>
    rw [parsed] at passes
    exact ⟨document, rfl, passes⟩

end TexSource
