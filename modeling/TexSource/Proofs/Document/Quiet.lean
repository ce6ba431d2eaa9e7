import TexSource.Proofs.Document.BraceDepth

/-!
# Reading without a report

Constructs that are complete are read off the tokens ahead, and nothing is reported: a reader takes
exactly these tokens, whatever stands behind them (`Parser.Consumes`). The steps of the parser are
put together by `Parser.Consumes.bind`, up to a verbatim environment with its end
(`Parser.consumes_verbatim`).
-/

namespace TexSource

namespace Parser

/-- Between two states some tokens have been taken, and nothing has been reported. -/
structure Passed (tokens : List Token) (before after : State) : Prop where
  rest : before.rest = tokens ++ after.rest
  taken : after.taken.toList = before.taken.toList ++ tokens
  diagnostics : after.diagnostics = before.diagnostics
  nestingReported : after.nestingReported = before.nestingReported

namespace Passed

variable {tokens others : List Token} {before middle after : State}

theorem refl (state : State) : Passed [] state state :=
  ⟨rfl, (List.append_nil _).symm, rfl, rfl⟩

/-- What is passed in two parts is passed as a whole. -/
theorem append (first : Passed tokens before middle) (second : Passed others middle after) :
    Passed (tokens ++ others) before after where
  rest := by rw [first.rest, second.rest, List.append_assoc]
  taken := by rw [second.taken, first.taken, List.append_assoc]
  diagnostics := second.diagnostics.trans first.diagnostics
  nestingReported := second.nestingReported.trans first.nestingReported

end Passed

/-- In front of the given tokens a reader takes some tokens without a report, and its result has a
property. -/
structure Consumes {Result : Type} (parse : Parse Result) (tokens behind : List Token)
    (holds : Result → Prop) : Prop where
  run : ∀ {state : State}, state.rest = tokens ++ behind →
    Passed tokens state (parse state).2 ∧ holds (parse state).1

namespace Consumes

variable {First Second : Type} {first : Parse First} {next : First → Parse Second}
  {tokens others behind : List Token} {firstHolds : First → Prop} {secondHolds : Second → Prop}

/-- A result without a step consumes nothing. -/
theorem pure {result : First} (holds : firstHolds result) :
    Consumes (Pure.pure result) [] behind firstHolds :=
  ⟨fun _ => ⟨.refl _, holds⟩⟩

/-- Steps consume their tokens one after another. -/
theorem bind (consumes : Consumes first tokens (others ++ behind) firstHolds)
    (following : ∀ result, firstHolds result →
      Consumes (next result) others behind secondHolds) :
    Consumes (first >>= next) (tokens ++ others) behind secondHolds := by
  constructor
  intro state ahead
  obtain ⟨passed, holds⟩ := consumes.run (ahead.trans (List.append_assoc ..))
  have left : (first state).2.rest = others ++ behind := by
    rw [passed.rest, List.append_assoc] at ahead
    exact List.append_cancel_left ahead
  obtain ⟨later, reached⟩ := (following _ holds).run left
  exact ⟨passed.append later, reached⟩

/-- A step that takes no token. -/
theorem peek (consumes : Consumes first [] (others ++ behind) firstHolds)
    (following : ∀ result, firstHolds result →
      Consumes (next result) others behind secondHolds) :
    Consumes (first >>= next) others behind secondHolds :=
  consumes.bind following

/-- A step that takes the last of the tokens. -/
theorem last (consumes : Consumes first tokens behind firstHolds)
    (following : ∀ result, firstHolds result →
      Consumes (next result) [] behind secondHolds) :
    Consumes (first >>= next) tokens behind secondHolds := by
  have whole : Consumes (first >>= next) (tokens ++ []) behind secondHolds :=
    consumes.bind following
  rwa [List.append_nil] at whole

theorem get {later : State → Parse Second}
    (following : ∀ state : State, state.rest = tokens ++ behind →
      Consumes (later state) tokens behind secondHolds) :
    Consumes (MonadState.get >>= later) tokens behind secondHolds :=
  ⟨fun ahead => (following _ ahead).run ahead⟩

end Consumes

section

variable {context : Context} {tokens behind : List Token} {token : Token}

theorem consumes_look (distance : Nat) :
    Consumes (look context distance) [] behind (· = behind.getD distance context.endOfInput) :=
  ⟨fun ahead => ⟨.refl _, by rw [look_apply, ahead]; rfl⟩⟩

theorem consumes_take : Consumes (take context) [token] behind (·.token = token) := by
  constructor
  intro state ahead
  unfold take
  rw [ahead]
  exact ⟨⟨ahead, by simp, rfl, rfl⟩, rfl⟩

/-- A token of the kind that is asked for is taken. -/
theorem consumes_takeIf {test : Token → Bool} (passes : test token = true) :
    Consumes (takeIf context test) [token] behind (·.isSome = true) := by
  refine .peek (consumes_look 0) ?_
  rintro found rfl
  exact (if_pos passes).symm ▸ .last consumes_take fun _ _ => .pure rfl

theorem consumes_spanFrom (start : Position) :
    Consumes (spanFrom context start) [] behind fun _ => True :=
  ⟨fun _ => ⟨.refl _, trivial⟩⟩

theorem consumes_newId : Consumes newId [] behind fun _ => True :=
  ⟨fun _ => ⟨⟨rfl, (List.append_nil _).symm, rfl, rfl⟩, trivial⟩⟩

theorem consumes_leaf : Consumes (leaf context) [token] behind fun node =>
    ∃ id placed, node = .leaf id placed ∧ placed.token = token :=
  .last consumes_take fun _ same => .peek consumes_newId fun _ _ => .pure ⟨_, _, rfl, same⟩

/-- Leaves consume as many tokens as there are. -/
theorem consumes_leaves (tokens : List Token) :
    Consumes (leaves context tokens.length) tokens behind (Leaves tokens) := by
  induction tokens with
  | nil => exact .pure .nil
  | cons token tokens ih =>
    refine .bind consumes_leaf ?_
    rintro _ ⟨id, placed, rfl, rfl⟩
    exact .last ih fun later leaves => .pure (.cons id placed leaves)

/-- Tokens that are characters. -/
def Characters (tokens : List Token) : Prop :=
  ∀ token ∈ tokens, ∃ glyph catcode, token.kind = .character glyph catcode

/-- Characters are read as leaves. -/
theorem node_of_character {inner : Inner} {mode : Mode} {state : State} {rest : List Token}
    {glyph : Glyph} {catcode : Catcode} (ahead : state.rest = token :: rest)
    (kind : token.kind = .character glyph catcode) :
    node context inner mode state = leaf context state := by
  have single : opensMath token = false := by simp [opensMath, Token.isMathShift, kind]
  have words : ∀ name, token.isControlWord name = false := by simp [Token.isControlWord, kind]
  have unopened : reportUnopened inner mode token = Pure.pure () :=
    if_neg (by simp [opensNesting, single, words])
  have reads : construct context inner mode token = leaf context := by
    simp [construct, Token.isBeginGroup, Token.isEndGroup, Token.isControlSequence, kind, words,
      single, Inner.when]
  simp only [node, bind_apply, look_apply, ahead, List.getD_cons_zero, unopened, reads]
  rfl

/-- Characters are consumed one by one up to the closer. -/
theorem consumes_characters {inner : Inner} (nodes : Array Node)
    (characters : Characters tokens) {closer : Token} (closes : closer.isEndGroup = true) :
    Consumes (nodesUntil context inner .never ⟨false, false, true⟩ nodes) tokens
      (closer :: behind) fun children =>
        (placedAll children).map Placed.token =
          (placedAll nodes.toList).map Placed.token ++ tokens := by
  induction tokens generalizing nodes with
  | nil =>
    constructor
    intro state ahead
    rw [nodesUntil_of_halts nodes (by simp [Halts, ahead, endsBefore, closes])]
    exact ⟨.refl _, (List.append_nil _).symm⟩
  | cons token tokens ih =>
    obtain ⟨⟨glyph, catcode, kind⟩, later⟩ := List.forall_mem_cons.mp characters
    have continues : endsBefore .never ⟨false, false, true⟩ token = false := by
      simp [endsBefore, Token.isEndGroup, kind, Closing.isAt]
    constructor
    intro state ahead
    have first : Consumes (leaf context) [token] (tokens ++ closer :: behind) _ := consumes_leaf
    obtain ⟨passed, id, placed, single, same⟩ := first.run ahead
    rw [nodesUntil_of_continues nodes ahead continues, node_of_character ahead kind]
    have left : (leaf context state).2.rest = tokens ++ closer :: behind := by
      rw [rest_leaf, ahead]
      rfl
    obtain ⟨others, spelled⟩ := (ih (nodes.push (leaf context state).1) later).run left
    refine ⟨passed.append others, spelled.trans ?_⟩
    simp [placedAll, Node.placed, single, same]

/-- A group of characters. -/
theorem consumes_group (room : Nat) {opener closer : Token}
    (characters : Characters tokens) (closes : closer.isEndGroup = true) :
    Consumes (group context (some (level context room))) (opener :: (tokens ++ [closer])) behind
      (·.innerText = Token.rawText tokens) := by
  have inside : Consumes ((level context room).read .never ⟨false, false, true⟩) tokens
      ([closer] ++ behind) fun children => (placedAll children).map Placed.token = tokens := by
    cases room <;> exact consumes_characters #[] characters closes
  refine .bind consumes_take fun first _ => .bind inside fun children spelled =>
    .last (consumes_takeIf closes) fun ending closed => .peek (consumes_spanFrom _) fun _ _ =>
      .peek consumes_newId fun _ _ => ?_
  rw [reportUnless, if_pos closed]
  exact .pure (congrArg Token.rawText spelled)

/-- A control word and a group of characters that spell a name. -/
inductive Tag (word name : Text) : List Token → Prop where
  | spelled {head opener closer : Token} {characters : List Token}
      (calls : head.isControlWord word = true) (opens : opener.isBeginGroup = true)
      (plain : Characters characters) (names : (Token.rawText characters).strip = name)
      (closes : closer.isEndGroup = true) :
      Tag word name (head :: opener :: (characters ++ [closer]))

/-- No spaces stand in front of an opening brace. -/
theorem spacesAhead_of_isBeginGroup {opener : Token} (opens : opener.isBeginGroup = true)
    (rest : List Token) : spacesAhead (opener :: rest) = 0 := by
  have noSpace := Token.isSpace_of_isBeginGroup opens
  rw [spacesAhead, List.takeWhile_cons_of_neg (by simp [noSpace]), List.length_nil]

/-- The tag of an end is consumed with its name. -/
theorem consumes_ending {name : Text} (room : Nat) (tag : Tag "end" name tokens) :
    Consumes (ending context (some (level context room))) tokens behind (·.2 = name) := by
  obtain ⟨-, opens, plain, names, closes⟩ := tag
  refine .bind consumes_take fun head _ => .get fun state ahead => ?_
  rw [ahead, List.cons_append, spacesAhead_of_isBeginGroup opens]
  refine .peek (consumes_look 0) ?_
  rintro found rfl
  rw [if_pos opens]
  refine .peek (.pure rfl) fun leading _ => .last (consumes_group room plain closes)
    fun named same => .peek (consumes_spanFrom _) fun _ _ => .peek consumes_newId fun _ _ =>
      .pure ?_
  rw [same, names]

/-- The head of an environment that takes no arguments. -/
theorem consumes_opening {name : Text} (room : Nat) (mode : Mode) (head : Placed)
    {opener closer : Token} (characters : Characters tokens)
    (names : (Token.rawText tokens).strip = name) (closes : closer.isEndGroup = true)
    (plain : (context.commands.environment name).arguments = []) :
    Consumes (opening context (level context room) mode head 0)
      (opener :: (tokens ++ [closer])) behind (·.2 = name) := by
  refine .peek (.pure rfl) fun leading _ => .last (consumes_group room characters closes)
    fun named same => ?_
  dsimp only
  rw [same, names, plain]
  exact .peek (.pure rfl) fun _ _ => .peek (consumes_spanFrom _) fun _ _ =>
    .peek consumes_newId fun _ _ => .pure rfl

/-- Behind a body, the end is found. -/
theorem consumes_endingAhead {name : Text} (room : Nat) (tag : Tag "end" name tokens) :
    Consumes (endingAhead context (some (level context room))) tokens behind fun ending =>
      ∃ invocation, ending = some (invocation, name) := by
  have consumes : Consumes (ending context (some (level context room))) tokens behind _ :=
    consumes_ending room tag
  obtain ⟨calls, -⟩ := tag
  refine .peek (consumes_look 0) ?_
  rintro found rfl
  rw [if_pos (show Token.isControlWord _ _ = true from calls)]
  exact .last consumes fun ended same => .pure ⟨ended.1, congrArg some (Prod.ext rfl same)⟩

/-- A verbatim body is consumed up to its end. -/
theorem consumes_verbatimBody {nested : Nested} {mode : Mode} {name : Text}
    (verbatim : context.commands.isVerbatim name = true)
    (runs : verbatimLength name (tokens ++ behind) = tokens.length) :
    Consumes (environmentBody context nested mode name) tokens behind (Leaves tokens) := by
  rw [environmentBody, if_pos verbatim]
  refine .get fun state ahead => ?_
  rw [ahead, runs]
  exact consumes_leaves tokens

/-- A verbatim environment with its end. -/
theorem consumes_environment {name : Text} {front body back : List Token} (room : Nat)
    (mode : Mode) (opens : Tag "begin" name front) (closes : Tag "end" name back)
    (verbatim : context.commands.isVerbatim name = true)
    (plain : (context.commands.environment name).arguments = [])
    (runs : verbatimLength name (body ++ (back ++ behind)) = body.length) :
    Consumes (environment context (level context room) mode) (front ++ body ++ back) behind
      fun node => ∃ id opening leaves ending span,
        node = .environment id name opening leaves (some ending) true span ∧
          Leaves body leaves := by
  obtain @⟨first, opener, closer, letters, -, braced, characters, names, closed⟩ := opens
  rw [List.append_assoc, show first :: opener :: (letters ++ [closer]) ++ (body ++ back) =
    [first] ++ (opener :: (letters ++ [closer]) ++ (body ++ back)) from rfl]
  refine .bind consumes_take fun head _ => .get fun state ahead => ?_
  rw [ahead, List.cons_append, List.cons_append, spacesAhead_of_isBeginGroup braced]
  refine .peek (consumes_look 0) ?_
  rintro found rfl
  rw [if_pos (show Token.isBeginGroup _ = true from braced), ← List.cons_append]
  refine .bind (consumes_opening room mode head characters names closed plain) ?_
  rintro ⟨opening, _⟩ rfl
  refine .bind (consumes_verbatimBody verbatim runs) fun leaves spelled =>
    .last (consumes_endingAhead room closes) ?_
  rintro _ ⟨ending, rfl⟩
  refine .peek (consumes_spanFrom _) fun span _ => .peek consumes_newId fun id _ => ?_
  rw [show mismatch _ opening (some (ending, _)) = none from if_pos rfl]
  exact .peek (.pure rfl) fun _ _ => .pure ⟨id, opening, leaves, ending, span, rfl, spelled⟩

/-- A `\begin` starts an environment. -/
theorem construct_of_begin {nested : Nested} {mode : Mode}
    (begins : token.isControlWord "begin" = true) :
    construct context (some nested) mode token = environment context nested mode := by
  have kind := Token.kind_of_isControlWord begins
  have noEnd : token.isControlWord "end" = false := by
    simp only [Token.isControlWord, kind]
    decide
  have noMath : opensMath token = false := by simp [opensMath, Token.isMathShift, kind]
  simp [construct, Token.isBeginGroup, Token.isEndGroup, kind, noEnd, noMath, begins, Inner.when]

theorem consumes_reportUnopened {nested : Nested} {mode : Mode} :
    Consumes (reportUnopened (some nested) mode token) [] behind fun _ => True :=
  .pure trivial

/-- **A verbatim environment with its end** is one node, whose leaves are the tokens between. -/
theorem consumes_verbatim {name : Text} {front body back : List Token} (room : Nat)
    (mode : Mode) (opens : Tag "begin" name front) (closes : Tag "end" name back)
    (verbatim : context.commands.isVerbatim name = true)
    (plain : (context.commands.environment name).arguments = [])
    (runs : verbatimLength name (body ++ (back ++ behind)) = body.length) :
    Consumes (node context (some (level context room)) mode) (front ++ body ++ back) behind
      fun node => ∃ id opening leaves ending span,
        node = .environment id name opening leaves (some ending) true span ∧
          Leaves body leaves := by
  have whole : Consumes _ _ behind _ :=
    consumes_environment room mode opens closes verbatim plain runs
  obtain ⟨begins, -⟩ := opens
  refine .peek (consumes_look 0) ?_
  rintro found rfl
  refine .peek consumes_reportUnopened fun _ _ => ?_
  rw [construct_of_begin begins]
  exact whole

end

/-- The nodes read before stay in front. -/
theorem nodesUntil_append {context : Context} {inner : Inner} {closing : Closing} {mode : Mode}
    (earlier nodes : Array Node) (state : State) :
    nodesUntil context inner closing mode (earlier ++ nodes) state =
      (earlier.toList ++ (nodesUntil context inner closing mode nodes state).1,
        (nodesUntil context inner closing mode nodes state).2) := by
  fun_induction nodesUntil context inner closing mode nodes state with
  | case1 nodes state none =>
    rw [nodesUntil_of_halts _ (by simp [Halts, none]), Array.toList_append]
  | case2 nodes state token rest ahead ends =>
    rw [nodesUntil_of_halts _ (by simp [Halts, ahead, ends]), Array.toList_append]
  | case3 nodes state token rest ahead continues =>
    rename_i later
    rw [nodesUntil_of_continues _ ahead (Bool.eq_false_iff.mpr continues), ← Array.append_push]
    exact later

end Parser

end TexSource
