import TexSource.Document.Parser
import TexSource.Proofs.Lexer.Heads

/-!
# Where problems are reported

The parser reports a problem at the span of a token or of a command that it has read. So the ends of
a reported span are places at which a token of the input starts or stops, or the place between the
halves of a doubled math shift. `Parser.Sites` says of a step that it keeps all spans of a state to
such places; what reads a whole document does (`Document.sited_ofTokens`). In a parsed document
these are places of the source, save where a line end was split as a math shift
(`Document.sited_of_parse`).
-/

namespace TexSource

/-- A span of a file goes from one of some places to another. -/
structure Span.Sited (places : Position → Prop) (fileId : FileId) (span : Span) : Prop where
  fileId : span.fileId = fileId
  start : places span.start
  stop : places span.stop

/-- A token has its span at some places. If it may still be split, the place between its halves is
one of them. -/
structure Token.Sited (places : Position → Prop) (fileId : FileId) (token : Token) : Prop where
  span : token.span.Sited places fileId
  middle : token.kind = .mathShift true → places (Parser.splitShift token).1.span.stop

namespace Parser

section

variable (places : Position → Prop) (fileId : FileId)

/-- All spans that a state holds are at some places. -/
structure State.Sited (state : State) : Prop where
  taken : ∀ token ∈ state.taken, token.Sited places fileId
  rest : ∀ token ∈ state.rest, token.Sited places fileId
  diagnostics : ∀ diagnostic ∈ state.diagnostics, diagnostic.span.Sited places fileId

/-- A step keeps the spans of a state at some places, and returns a good result. -/
structure Sites {Result : Type} (good : Result → Prop) (parse : Parse Result) : Prop where
  run : ∀ state, State.Sited places fileId state →
    good (parse state).1 ∧ State.Sited places fileId (parse state).2

end

variable {places : Position → Prop} {fileId : FileId}

namespace Sites

variable {First Second : Type} {good : First → Prop} {better : Second → Prop}

/-- A result that is good is so without a step. -/
theorem pure {result : First} (holds : good result) :
    Sites places fileId good (Pure.pure result) :=
  ⟨fun _ sited => ⟨holds, sited⟩⟩

/-- Sited steps may follow each other. -/
theorem bind {first : Parse First} {second : First → Parse Second}
    (hfirst : Sites places fileId good first)
    (hsecond : ∀ result, good result → Sites places fileId better (second result)) :
    Sites places fileId better (first >>= second) := by
  constructor
  intro state sited
  obtain ⟨holds, middle⟩ := hfirst.run state sited
  exact (hsecond _ holds).run _ middle

/-- A step whose result does not matter comes before another one. -/
theorem andThen {first : Parse First} {second : First → Parse Second}
    (hfirst : Sites places fileId good first)
    (hsecond : ∀ result, Sites places fileId better (second result)) :
    Sites places fileId better (first >>= second) :=
  hfirst.bind fun result _ => hsecond result

theorem get : Sites places fileId (State.Sited places fileId) (MonadState.get : Parse State) :=
  ⟨fun _ sited => ⟨sited, sited⟩⟩

end Sites

/-- A step keeps the spans of a state at some places, whatever it returns. -/
abbrev KeepsSited (places : Position → Prop) (fileId : FileId) {Result : Type}
    (parse : Parse Result) : Prop :=
  Sites places fileId (fun _ => True) parse

/-- A reader of a level keeps the spans at some places. -/
def Nested.KeepsSited (places : Position → Prop) (fileId : FileId) (nested : Nested) : Prop :=
  ∀ closing mode, Parser.KeepsSited places fileId (nested.read closing mode)

def Inner.KeepsSited (places : Position → Prop) (fileId : FileId) (inner : Inner) : Prop :=
  ∀ nested ∈ inner, nested.KeepsSited places fileId

/-- A level that is open keeps what it reports in the document. -/
theorem Inner.KeepsSited.of_when {inner : Inner} {opens : Bool} {nested : Nested}
    (keeps : inner.KeepsSited places fileId) (found : inner.when opens = some nested) :
    nested.KeepsSited places fileId := by
  unfold Inner.when at found
  split at found
  · exact keeps nested found
  · cases found

theorem Inner.keepsSited_none : Inner.KeepsSited places fileId none :=
  nofun

theorem Inner.keepsSited_some {nested : Nested} (keeps : nested.KeepsSited places fileId) :
    Inner.KeepsSited places fileId (some nested) := by
  intro other same
  cases same
  exact keeps

section

variable (context : Context) (ends : context.endOfInput.Sited places context.fileId)

include ends

/-- What stands ahead has its place in the document. -/
theorem sites_look (distance : Nat) :
    Sites places context.fileId (Token.Sited places context.fileId) (look context distance) := by
  constructor
  intro state sited
  refine ⟨?_, sited⟩
  rw [look_apply, List.getD_eq_getElem?_getD]
  cases found : state.rest[distance]? with
  | none => exact ends
  | some token => exact sited.rest token (List.mem_of_getElem? found)

/-- The token that is taken has its place in the document. -/
theorem sites_take : Sites places context.fileId
    (fun placed => placed.token.Sited places context.fileId) (take context) := by
  constructor
  intro state sited
  unfold take
  split
  · exact ⟨ends, sited⟩
  · rename_i token rest ahead
    have both := List.forall_mem_cons.mp (ahead ▸ sited.rest)
    refine ⟨both.1, fun other member => ?_, both.2, sited.diagnostics⟩
    rcases Array.mem_push.mp member with earlier | rfl
    · exact sited.taken other earlier
    · exact both.1

/-- A span from a place to what stands ahead lies in the document. -/
theorem sites_spanFrom {start : Position} (starts : places start) :
    Sites places context.fileId (Span.Sited places context.fileId) (spanFrom context start) := by
  constructor
  intro state sited
  refine ⟨⟨rfl, starts, ?_⟩, sited⟩
  change places (state.taken.back?.getD context.endOfInput).span.stop
  cases last : state.taken.back? with
  | none => exact ends.span.stop
  | some token => exact (sited.taken token (Array.mem_of_back? last)).span.stop

omit ends in
theorem keepsSited_newId : KeepsSited places fileId newId :=
  ⟨fun _ sited => ⟨trivial, sited.taken, sited.rest, sited.diagnostics⟩⟩

omit ends in
/-- A report at a span of the document is one of the document. -/
theorem keepsSited_report {span : Span} (sited : span.Sited places fileId) (problem : Problem)
    (node : Option NodeId) : KeepsSited places fileId (report problem span node) := by
  refine ⟨fun state known => ⟨trivial, known.taken, known.rest, fun diagnostic member => ?_⟩⟩
  rcases Array.mem_push.mp member with earlier | rfl
  · exact known.diagnostics diagnostic earlier
  · exact sited

omit ends in
theorem keepsSited_reportUnless {span : Span} (sited : span.Sited places fileId) (finished : Bool)
    (problem : Problem) (node : NodeId) :
    KeepsSited places fileId (reportUnless finished problem span node) := by
  unfold reportUnless
  split
  · exact .pure trivial
  · exact keepsSited_report sited problem node

omit ends in
theorem keepsSited_reportNesting {span : Span} (sited : span.Sited places fileId)
    (node : Option NodeId) : KeepsSited places fileId (reportNesting span node) := by
  constructor
  intro state known
  have unfolded : (reportNesting span node state).2 =
    if state.nestingReported then state else _ := rfl
  rw [unfolded]
  refine ⟨trivial, ?_⟩
  split
  · exact known
  · refine ⟨known.taken, known.rest, fun diagnostic member => ?_⟩
    rcases Array.mem_push.mp member with earlier | rfl
    · exact known.diagnostics diagnostic earlier
    · exact sited

omit ends in
theorem keepsSited_reportFlattened {opener : Token} (sited : opener.span.Sited places fileId) :
    KeepsSited places fileId (reportFlattened opener) :=
  .andThen .get fun _ => keepsSited_reportNesting sited _

theorem keepsSited_takeIf (test : Token → Bool) :
    KeepsSited places context.fileId (takeIf context test) := by
  refine .andThen (sites_look context ends 0) fun token => ?_
  split
  · exact .andThen (sites_take context ends) fun _ => .pure trivial
  · exact .pure trivial

theorem keepsSited_leaf : KeepsSited places context.fileId (leaf context) :=
  .andThen (sites_take context ends) fun _ => .andThen keepsSited_newId fun _ => .pure trivial

theorem keepsSited_leaves (count : Nat) :
    KeepsSited places context.fileId (leaves context count) := by
  induction count with
  | zero => exact .pure trivial
  | succ count ih =>
    exact .andThen (keepsSited_leaf context ends) fun _ => .andThen ih fun _ => .pure trivial

theorem keepsSited_leavesAhead (count : List Token → Nat) :
    KeepsSited places context.fileId (leavesAhead context count) :=
  .andThen .get fun _ => keepsSited_leaves context ends _

/-- A group without its end is reported at its opener. -/
theorem keepsSited_finishGroup {opener : Placed} (opens : opener.token.Sited places context.fileId)
    (delimiter : Delimiter) (children : List Node) (closer : Option Placed) (missing : Problem) :
    KeepsSited places context.fileId
      (finishGroup context delimiter opener children closer missing) :=
  .andThen (sites_spanFrom context ends opens.span.start) fun _ =>
    .andThen keepsSited_newId fun _ => .andThen (keepsSited_reportUnless opens.span ..) fun _ =>
      .pure trivial

theorem keepsSited_group {inner : Inner} (below : inner.KeepsSited places context.fileId) :
    KeepsSited places context.fileId (group context inner) := by
  cases inner with
  | none =>
    refine .bind (sites_take context ends) fun opener opens => ?_
    refine .andThen (keepsSited_leavesAhead context ends _) fun children => ?_
    refine .andThen (keepsSited_takeIf context ends _) fun closer => ?_
    exact .andThen (keepsSited_reportFlattened opens.span) fun _ =>
      keepsSited_finishGroup context ends opens ..
  | some nested =>
    exact .bind (sites_take context ends) fun opener opens =>
      .andThen (below nested rfl ..) fun _ => .andThen (keepsSited_takeIf context ends _) fun _ =>
        keepsSited_finishGroup context ends opens ..

theorem keepsSited_optionalGroup {nested : Nested}
    (below : nested.KeepsSited places context.fileId) (mode : Mode) :
    KeepsSited places context.fileId (optionalGroup context nested mode) :=
  .bind (sites_take context ends) fun _ opens => .andThen (below ..) fun _ =>
    .andThen (keepsSited_takeIf context ends _) fun _ =>
      keepsSited_finishGroup context ends opens ..

omit ends in
/-- The halves of a doubled math shift have their spans at the places known of it. -/
theorem sited_splitFront {tokens : List Token}
    (sited : ∀ token ∈ tokens, token.Sited places fileId) :
    ∀ token ∈ splitFront tokens, token.Sited places fileId := by
  unfold splitFront
  split
  · exact sited
  · rename_i shift rest
    split
    · rename_i doubled
      obtain ⟨whole, others⟩ := List.forall_mem_cons.mp sited
      have middle := whole.middle doubled
      refine List.forall_mem_cons.mpr ⟨⟨⟨whole.span.fileId, whole.span.start, middle⟩, nofun⟩, ?_⟩
      exact List.forall_mem_cons.mpr ⟨⟨⟨whole.span.fileId, middle, whole.span.stop⟩, nofun⟩, others⟩
    · exact sited

omit ends in
/-- The halves of a shift have their places in the document. -/
theorem keepsSited_splitAhead (closing : Closing) :
    KeepsSited places fileId (splitAhead closing) := by
  constructor
  intro state sited
  have unfolded : (splitAhead closing state).2 =
    if closing = .shift then { state with rest := splitFront state.rest } else state := rfl
  rw [unfolded]
  refine ⟨trivial, ?_⟩
  split
  · exact ⟨sited.taken, sited_splitFront sited.rest, sited.diagnostics⟩
  · exact sited

theorem keepsSited_math {nested : Nested} (below : nested.KeepsSited places context.fileId)
    (mode : Mode) : KeepsSited places context.fileId (math context nested mode) := by
  refine .bind (sites_take context ends) fun opener opens => ?_
  have formula : KeepsSited places context.fileId (formula context nested _ _) :=
    .andThen (below (.ofOpener opener.token) { mode with inMath := true }) fun _ =>
      .andThen (keepsSited_splitAhead _) fun _ =>
        .andThen (keepsSited_takeIf context ends _) fun _ => .pure trivial
  refine .andThen formula fun _ => ?_
  exact .andThen (sites_spanFrom context ends opens.span.start) fun _ =>
    .andThen keepsSited_newId fun _ => .andThen (keepsSited_reportUnless opens.span ..) fun _ =>
      .pure trivial

theorem keepsSited_reportMissing {target : Token} (sited : target.Sited places context.fileId)
    (position : Nat) (command : Text) :
    KeepsSited places context.fileId (reportMissing context position command target) := by
  refine .bind (sites_look context ends 0) fun next known => keepsSited_report ?_ ..
  split
  · exact known.span
  · exact sited.span

theorem keepsSited_argumentContent {inner : Inner} (below : inner.KeepsSited places context.fileId)
    (target : Token) : KeepsSited places context.fileId (argumentContent context inner target) := by
  unfold argumentContent
  split
  · exact keepsSited_group context ends below
  · exact keepsSited_leaf context ends

/-- A missing argument is reported at what stands in its place. -/
theorem keepsSited_arguments {inner : Inner} (below : inner.KeepsSited places context.fileId)
    (mode : Mode) (command : Text) (position : Nat) (kinds : List ArgumentKind) :
    KeepsSited places context.fileId (arguments context inner mode command position kinds) := by
  induction kinds generalizing position with
  | nil => exact .pure trivial
  | cons kind kinds ih =>
    cases kind with
    | optional =>
      refine .andThen .get fun state => .andThen (sites_look context ends _) fun target => ?_
      split
      · exact ih _
      · rename_i nested found
        exact .andThen (keepsSited_leaves context ends _) fun _ =>
          .andThen (keepsSited_optionalGroup context ends (below.of_when found) mode) fun _ =>
            .andThen (ih _) fun _ => .pure trivial
    | mandatory =>
      refine .andThen .get fun state => .bind (sites_look context ends _) fun target known => ?_
      split
      · exact .andThen (keepsSited_reportMissing context ends known ..) fun _ => .pure trivial
      · exact .andThen (keepsSited_leaves context ends _) fun _ =>
          .andThen (keepsSited_argumentContent context ends below target) fun _ =>
            .andThen (ih _) fun _ => .pure trivial

theorem keepsSited_commandBehind {inner : Inner} (below : inner.KeepsSited places context.fileId)
    (mode : Mode) {head : Placed} (sited : head.token.Sited places context.fileId) :
    KeepsSited places context.fileId (commandBehind context inner mode head) := by
  have star : KeepsSited places context.fileId
      (starAhead context (context.commands.command head.token.value)) := by
    unfold starAhead
    split
    · exact keepsSited_takeIf context ends _
    · exact .pure trivial
  exact .andThen star fun _ => .andThen (keepsSited_arguments context ends below ..) fun _ =>
    .andThen (sites_spanFrom context ends sited.span.start) fun _ =>
      .andThen keepsSited_newId fun _ => .pure trivial

theorem keepsSited_command {inner : Inner} (below : inner.KeepsSited places context.fileId)
    (mode : Mode) : KeepsSited places context.fileId (command context inner mode) :=
  .bind (sites_take context ends) fun _ sited =>
    .andThen (keepsSited_commandBehind context ends below mode sited) fun _ => .pure trivial

/-- The end of an environment lies in the document. -/
theorem sites_ending {inner : Inner} (below : inner.KeepsSited places context.fileId) :
    Sites places context.fileId (fun ended => ended.1.span.Sited places context.fileId)
      (ending context inner) := by
  refine .bind (sites_take context ends) fun head sited => ?_
  refine .andThen .get fun state => .andThen (sites_look context ends _) fun target => ?_
  split
  · exact .andThen (keepsSited_leaves context ends _) fun _ =>
      .andThen (keepsSited_group context ends below) fun _ =>
        .bind (sites_spanFrom context ends sited.span.start) fun _ spanned =>
          .andThen keepsSited_newId fun _ => .pure spanned
  · exact .bind (sites_spanFrom context ends sited.span.start) fun _ spanned =>
      .andThen keepsSited_newId fun _ => .pure spanned

theorem keepsSited_strayEnding {inner : Inner} (below : inner.KeepsSited places context.fileId) :
    KeepsSited places context.fileId (strayEnding context inner) :=
  .bind (sites_ending context ends below) fun _ spanned =>
    .andThen (keepsSited_report spanned ..) fun _ => .pure trivial

theorem sites_endingAhead {inner : Inner} (below : inner.KeepsSited places context.fileId) :
    Sites places context.fileId
      (fun ended => ∀ found ∈ ended, found.1.span.Sited places context.fileId)
      (endingAhead context inner) := by
  refine .andThen (sites_look context ends 0) fun token => ?_
  split
  · refine .bind (sites_ending context ends below) fun ended spanned => .pure fun found same => ?_
    cases same
    exact spanned
  · exact .pure nofun

theorem sites_opening {nested : Nested} (below : nested.KeepsSited places context.fileId)
    (mode : Mode) {head : Placed} (sited : head.token.Sited places context.fileId)
    (skipped : Nat) :
    Sites places context.fileId (fun opened => opened.1.span.Sited places context.fileId)
      (opening context nested mode head skipped) :=
  have inner := Inner.keepsSited_some below
  .andThen (keepsSited_leaves context ends _) fun _ =>
    .andThen (keepsSited_group context ends inner) fun _ =>
      .andThen (keepsSited_arguments context ends inner ..) fun _ =>
        .bind (sites_spanFrom context ends sited.span.start) fun _ spanned =>
          .andThen keepsSited_newId fun _ => .pure spanned

theorem keepsSited_environmentBody {nested : Nested}
    (below : nested.KeepsSited places context.fileId) (mode : Mode) (name : Text) :
    KeepsSited places context.fileId (environmentBody context nested mode name) := by
  unfold environmentBody
  split
  · exact keepsSited_leavesAhead context ends _
  · exact below ..

/-- What is wrong with the end of an environment is reported at its opening or its ending. -/
theorem keepsSited_finishEnvironment {opening : Command} {ending : Option (Command × Text)}
    (opened : opening.span.Sited places context.fileId)
    (ended : ∀ found ∈ ending, found.1.span.Sited places context.fileId) (name : Text)
    (body : List Node) :
    KeepsSited places context.fileId (finishEnvironment context name opening body ending) := by
  have defect (node : NodeId) : KeepsSited places context.fileId
      (reportDefect (mismatch name opening ending) node) := by
    unfold mismatch
    split
    · exact keepsSited_report opened ..
    · split
      · exact .pure trivial
      · exact keepsSited_report (ended _ rfl) ..
  exact .andThen (sites_spanFrom context ends opened.start) fun _ =>
    .andThen keepsSited_newId fun _ => .andThen (defect _) fun _ => .pure trivial

/-- What is reported of an environment lies in the document. -/
theorem keepsSited_environment {nested : Nested} (below : nested.KeepsSited places context.fileId)
    (mode : Mode) : KeepsSited places context.fileId (environment context nested mode) := by
  have inner := Inner.keepsSited_some below
  refine .bind (sites_take context ends) fun head sited => ?_
  refine .andThen .get fun state => .andThen (sites_look context ends _) fun target => ?_
  split
  · refine .bind (sites_opening context ends below mode sited _) fun opened spanned => ?_
    refine .andThen (keepsSited_environmentBody context ends below mode _) fun body => ?_
    exact .bind (sites_endingAhead context ends inner) fun ending known =>
      keepsSited_finishEnvironment context ends spanned known ..
  · exact .andThen (keepsSited_commandBehind context ends inner _ sited) fun _ => .pure trivial

theorem keepsSited_strayGroupEnd : KeepsSited places context.fileId (strayGroupEnd context) :=
  .bind (sites_take context ends) fun _ sited => .andThen keepsSited_newId fun _ =>
    .andThen (keepsSited_report sited.span ..) fun _ => .pure trivial

/-- Whatever construct a token starts, its reports lie in the document. -/
theorem keepsSited_construct {inner : Inner} (below : inner.KeepsSited places context.fileId)
    (mode : Mode) (token : Token) :
    KeepsSited places context.fileId (construct context inner mode token) := by
  unfold construct
  split
  · exact keepsSited_group context ends below
  · split
    · exact keepsSited_strayGroupEnd context ends
    · split
      · exact keepsSited_strayEnding context ends below
      · split
        · rename_i nested found
          exact keepsSited_math context ends (below.of_when found) mode
        · split
          · rename_i nested found
            exact keepsSited_environment context ends (below.of_when found) mode
          · split
            · exact keepsSited_command context ends below mode
            · exact keepsSited_leaf context ends

theorem keepsSited_node {inner : Inner} (below : inner.KeepsSited places context.fileId)
    (mode : Mode) : KeepsSited places context.fileId (node context inner mode) := by
  refine .bind (sites_look context ends 0) fun token sited => ?_
  have unopened : KeepsSited places context.fileId (reportUnopened inner mode token) := by
    unfold reportUnopened
    split
    · exact keepsSited_reportNesting sited.span _
    · exact .pure trivial
  exact .andThen unopened fun _ => keepsSited_construct context ends below mode token

/-- A sequence of nodes reports within the document. -/
theorem keepsSited_nodesUntil {inner : Inner} (below : inner.KeepsSited places context.fileId)
    (closing : Closing) (mode : Mode) (nodes : Array Node) :
    KeepsSited places context.fileId (nodesUntil context inner closing mode nodes) := by
  constructor
  intro state sited
  refine ⟨trivial, ?_⟩
  fun_induction nodesUntil context inner closing mode nodes state with
  | case1 => exact sited
  | case2 => exact sited
  | case3 nodes state token rest ahead stops read later =>
    exact later ((keepsSited_node context ends below mode).run state sited).2

/-- **Every level** reports at spans of the document only. -/
theorem keepsSited_level (room : Nat) : (level context room).KeepsSited places context.fileId := by
  induction room with
  | zero => exact fun closing mode =>
      keepsSited_nodesUntil context ends Inner.keepsSited_none closing mode #[]
  | succ room ih =>
    exact fun closing mode =>
      keepsSited_nodesUntil context ends (Inner.keepsSited_some ih) closing mode #[]

end

end Parser

namespace Document

variable {places : Position → Prop} {fileId : FileId}

/-- The end of input is at the places of the tokens, or at the start. -/
theorem sited_endOf {tokens : List Token} (sited : ∀ token ∈ tokens, token.Sited places fileId)
    (start : places Position.start) : (endOf tokens fileId).Sited places fileId := by
  unfold endOf
  cases found : tokens.find? Token.isEndOfInput with
  | some last => exact sited last (List.mem_of_find?_eq_some found)
  | none =>
    have stop : places (((contentOf tokens).getLast?.map (·.span.stop)).getD Position.start) := by
      cases last : (contentOf tokens).getLast? with
      | none => exact start
      | some token =>
        have member := (List.takeWhile_prefix _).subset (List.mem_of_getLast? last)
        exact (sited token member).span.stop
    exact ⟨⟨rfl, stop, stop⟩, nofun⟩

/-- **Where problems are reported.** If the tokens that a document is built from have their spans at
some places, its tokens and reports have as well. -/
theorem sited_ofTokens {tokens : List Token} (source : Text) (commands : CommandTable)
    (content : ∀ token ∈ contentOf tokens, token.Sited places fileId)
    (last : (endOf tokens fileId).Sited places fileId) :
    (∀ token ∈ (ofTokens tokens source fileId commands).tokens, token.Sited places fileId) ∧
      ∀ diagnostic ∈ (ofTokens tokens source fileId commands).diagnostics,
        diagnostic.span.Sited places fileId := by
  have kept := (Parser.keepsSited_level ⟨fileId, commands, endOf tokens fileId⟩ last
    Parser.maxNesting .never ⟨false, false, false⟩).run ⟨#[], contentOf tokens, 0, #[], false⟩
      ⟨nofun, content, nofun⟩
  obtain ⟨taken, -, reports⟩ := kept.2
  constructor
  · intro token member
    rcases List.mem_append.mp member with inside | final
    · exact taken token (Array.mem_def.mpr inside)
    · rw [List.mem_singleton.mp final]
      exact last
  · exact fun diagnostic member => reports diagnostic (Array.mem_def.mpr member)

end Document

/-- A position has the line and the column of the place at an index of a source. -/
def Position.IsAt (source : Text) (index : Nat) (position : Position) : Prop :=
  position.line = (source.placeAt index).line ∧ position.column = (source.placeAt index).column

/-- A position behind a glyph that ends a line, as if it did not: between the halves of a math
shift. -/
def Position.IsPastLineEnd (source : Text) (position : Position) : Prop :=
  ∃ index < source.length, source.endsLineAt index = true ∧
    position.line = (source.placeAt index).line ∧
    position.column = (source.placeAt index).column + 1

/-- A position of a source, or one past a line end. -/
def Text.HasPlace (source : Text) (position : Position) : Prop :=
  (∃ index ≤ source.length, position.IsAt source index) ∨ position.IsPastLineEnd source

variable {source : Text} {table : Catcode.Table} {fileId : FileId} {tokens : List Token}
  {reports : List Diagnostic}

namespace Lexer

/-- The middle of a doubled math shift is a place of the source, unless a line ends there. -/
theorem Covers.hasPlace_middle {behind : Text} {token : Token} (covers : Covers source behind token)
    (within : behind ++ token.raw <+: source) :
    source.HasPlace (Parser.splitShift token).1.span.stop := by
  obtain ⟨glyph, rest, raw⟩ := List.exists_cons_of_ne_nil covers.nonempty
  obtain ⟨ahead, split⟩ := within
  have found : source[behind.length]? = some glyph := by
    simp [← split, raw]
  have inside : behind.length < source.length := (List.getElem?_eq_some_iff.mp found).1
  have line : token.span.start.line = (source.placeAt behind.length).line := by rw [covers.start]
  have column : token.span.start.column + 1 = (source.placeAt behind.length).column + 1 := by
    rw [covers.start]
  cases ends : source.endsLineAt behind.length with
  | true => exact .inr ⟨behind.length, inside, ends, line, column⟩
  | false =>
    refine .inl ⟨behind.length + 1, inside, ?_⟩
    have goesOn : ¬ (glyph = .char '\n' ∨
        (glyph = .char '\r' ∧ source[behind.length + 1]? ≠ some (.char '\n'))) := by
      intro last
      simp only [Text.endsLineAt, found, Option.some.injEq, Bool.or_eq_false_iff,
        decide_eq_false_iff_not, Bool.and_eq_false_iff] at ends
      rcases last with rfl | ⟨rfl, alone⟩
      · exact ends.1 rfl
      · exact ends.2.elim (fun other => other rfl) fun other => other alone
    have next : source.placeAt (behind.length + 1) = _ := Text.placeAt_succ found
    rw [Position.advance, if_neg (by simpa using goesOn)] at next
    rw [Position.IsAt, next]
    exact ⟨line, column⟩

/-- The tokens of a source have their spans at places of it. -/
theorem sited_of_lex (read : lex source table fileId = .ok (tokens, reports)) :
    ∀ token ∈ tokens, token.Sited source.HasPlace fileId := by
  have file := fileId_of_lex read
  obtain ⟨content, rfl, tiles⟩ := tiles_of_lex read
  have place {index : Nat} (inside : index ≤ source.length) :
      source.HasPlace (source.placeAt index) := .inl ⟨index, inside, rfl, rfl⟩
  intro token member
  rcases List.mem_append.mp member with inside | last
  · obtain ⟨before, after, rfl⟩ := List.append_of_mem inside
    have covers : Covers source (Token.rawText before) token := tiles.covers_of_split
    have within : Token.rawText before ++ token.raw <+: source :=
      ⟨Token.rawText after, by simpa using tiles.reached_eq.symm⟩
    refine ⟨⟨file token member, ?_, ?_⟩, fun _ => covers.hasPlace_middle within⟩
    · rw [covers.start]
      exact place ((List.prefix_append _ _).trans within).length_le
    · rw [covers.stop]
      exact place within.length_le
  · obtain rfl := List.mem_singleton.mp last
    exact ⟨⟨rfl, place (Nat.le_refl _), place (Nat.le_refl _)⟩, nofun⟩

/-- What is reported on a token is reported at its span. -/
theorem span_of_mem_reports {token : Token} {diagnostic : Diagnostic}
    (reported : diagnostic ∈ Lexer.reports token) : diagnostic.span = token.span := by
  unfold Lexer.reports at reported
  split at reported
  · rw [List.mem_singleton.mp reported]
    rfl
  · rw [List.mem_singleton.mp reported]
    rfl
  · cases reported

/-- The reports on a source are at places of it. -/
theorem sited_reports_of_lex (read : lex source table fileId = .ok (tokens, reports)) :
    ∀ diagnostic ∈ reports, diagnostic.span.Sited source.HasPlace fileId := by
  have sited := sited_of_lex read
  obtain ⟨content, head, reads, -⟩ := exists_reads_of_lex read
  have same := read.symm.trans reads.lex_eq
  cases same
  intro diagnostic member
  obtain ⟨token, inside, reported⟩ := List.mem_flatMap.mp member
  rw [span_of_mem_reports reported]
  exact (sited token (List.mem_append_left _ inside)).span

end Lexer

/-- **Places of reports.** The tokens of a parsed document, and what is reported on it, have their
spans at places of the source. -/
theorem Document.sited_of_parse {commands : CommandTable} {document : Document}
    (parsed : parse source table commands fileId = .ok document) :
    (∀ token ∈ document.tokens, token.Sited source.HasPlace fileId) ∧
      ∀ diagnostic ∈ document.diagnostics, diagnostic.span.Sited source.HasPlace fileId := by
  unfold parse at parsed
  cases read : lex source table fileId with
  | error failure =>
    rw [read] at parsed
    cases parsed
  | ok result =>
    rw [read] at parsed
    cases parsed
    have sited := Lexer.sited_of_lex read
    have last := sited_endOf sited (.inl ⟨0, Nat.zero_le _, rfl, rfl⟩)
    obtain ⟨kept, reported⟩ := sited_ofTokens source commands
      (fun token member => sited token ((List.takeWhile_prefix _).subset member)) last
    refine ⟨kept, fun diagnostic member => ?_⟩
    rcases List.mem_append.mp member with early | late
    · exact Lexer.sited_reports_of_lex read diagnostic early
    · exact reported diagnostic late

end TexSource
