import TexSource.Proofs.Document.Built
import TexSource.Proofs.Document.Lookahead
import TexSource.Proofs.Relabeling.Trees

/-!
# Building trees with new numbers for files

A reader of nodes is natural (`Parser.Natural`) if it does the same with tokens whose files have
new numbers, and its result gets the new numbers. Every step of the parser is natural, and so is
the parser (`Document.relabel_ofTokens`): a document depends on the number of its file only through
that number itself.
-/

namespace TexSource

variable {relabeling : Relabeling}

namespace Parser

/-- A context of the parser with its file id renamed. -/
def Context.relabel (relabeling : Relabeling) (context : Context) : Context :=
  ⟨relabeling.span context.fileId, context.commands, context.endOfInput.relabel relabeling⟩

/-- A state of the parser with its file ids renamed. -/
def State.relabel (relabeling : Relabeling) (state : State) : State :=
  { state with
    taken := state.taken.map (Token.relabel relabeling)
    rest := state.rest.map (Token.relabel relabeling)
    diagnostics := state.diagnostics.map (Diagnostic.relabel relabeling) }

/-- A reader does with new numbers for files what another one does with the old ones. -/
abbrev Natural {Result : Type} (relabeling : Relabeling) (rename : Result → Result)
    (parse renamed : Parse Result) : Prop :=
  TexSource.Natural (State.relabel relabeling) rename parse renamed

section

variable {context : Context}

theorem getD_relabel (tokens : List Token) (distance : Nat) :
    (tokens.map (Token.relabel relabeling)).getD distance
        (context.relabel relabeling).endOfInput =
      (tokens.getD distance context.endOfInput).relabel relabeling := by
  simp only [List.getD_eq_getElem?_getD, List.getElem?_map]
  cases tokens[distance]? <;> rfl

/-- The token that stands ahead is the same but for its file. -/
theorem natural_look (distance : Nat) :
    Natural relabeling (Token.relabel relabeling) (look context distance)
      (look (context.relabel relabeling) distance) := by
  constructor
  intro state
  rw [look_apply, look_apply]
  exact congrArg (·, _) (getD_relabel state.rest distance)

/-- The token that is taken is the same but for its file. -/
theorem natural_take : Natural relabeling (Placed.relabel relabeling) (take context)
    (take (context.relabel relabeling)) := by
  constructor
  intro state
  unfold take
  cases ahead : state.rest with
  | nil => simp [State.relabel, ahead, Placed.relabel, Context.relabel]
  | cons token rest => simp [State.relabel, ahead, Placed.relabel]

theorem natural_takeIf {test : Token → Bool}
    (blind : ∀ token : Token, test (token.relabel relabeling) = test token) :
    Natural relabeling (Option.map (Placed.relabel relabeling)) (takeIf context test)
      (takeIf (context.relabel relabeling) test) := by
  refine .bind (natural_look 0) fun token => ?_
  rw [blind]
  exact .ite (.bind natural_take fun _ => .pure _) (.pure _)

theorem natural_spanFrom (start : Position) :
    Natural relabeling (Span.relabel relabeling) (spanFrom context start)
      (spanFrom (context.relabel relabeling) start) := by
  refine .get fun state => ?_
  have last : ((state.relabel relabeling).taken.back?.getD
      (context.relabel relabeling).endOfInput).span.stop =
        (state.taken.back?.getD context.endOfInput).span.stop := by
    simp only [State.relabel, Array.back?_map]
    cases state.taken.back? <;> rfl
  dsimp only
  rw [last]
  exact .pure _

theorem natural_newId : Natural relabeling id newId newId :=
  ⟨fun _ => rfl⟩

theorem natural_report (problem : Problem) (span : Span) (node : Option NodeId) :
    Natural relabeling id (report problem span node)
      (report problem (span.relabel relabeling) node) := by
  constructor
  intro state
  show _ = ((), State.relabel relabeling
    { state with diagnostics := state.diagnostics.push (problem.reportAt span node) })
  simp only [State.relabel, Array.map_push, Problem.relabel_reportAt]
  rfl

theorem natural_reportUnless (finished : Bool) (problem : Problem) (span : Span) (node : NodeId) :
    Natural relabeling id (reportUnless finished problem span node)
      (reportUnless finished problem (span.relabel relabeling) node) :=
  .ite (.pure _) (natural_report ..)

theorem natural_reportNesting (span : Span) (node : Option NodeId) :
    Natural relabeling id (reportNesting span node)
      (reportNesting (span.relabel relabeling) node) := by
  constructor
  intro state
  show (_, if _ then _ else _) = (_, State.relabel relabeling (if _ then _ else _))
  cases reported : state.nestingReported <;> simp [State.relabel, reported]

theorem natural_leaf : Natural relabeling (Node.relabel relabeling) (leaf context)
    (leaf (context.relabel relabeling)) :=
  .bind natural_take fun _ => .bind natural_newId fun _ => .pure _

theorem natural_leaves (count : Nat) :
    Natural relabeling (relabelAll relabeling) (leaves context count)
      (leaves (context.relabel relabeling) count) := by
  induction count with
  | zero => exact .pure _
  | succ count ih => exact .bind natural_leaf fun _ => .bind ih fun _ => .pure _

/-- As many leaves are taken. -/
theorem natural_leavesAhead {count : List Token → Nat}
    (blind : ∀ tokens, count (tokens.map (Token.relabel relabeling)) = count tokens) :
    Natural relabeling (relabelAll relabeling) (leavesAhead context count)
      (leavesAhead (context.relabel relabeling) count) := by
  refine .get fun state => ?_
  have same : count (state.relabel relabeling).rest = count state.rest := blind state.rest
  rw [same]
  exact natural_leaves _

end

/-- What closes a sequence does not depend on files. -/
@[simp] theorem Closing.isAt_relabel (closing : Closing) (token : Token) :
    closing.isAt (token.relabel relabeling) = closing.isAt token := by
  cases closing <;> rfl

theorem keepsText_relabel : Token.KeepsText (Token.relabel relabeling) :=
  ⟨fun _ => rfl, fun _ => rfl⟩

/-- Math shifts are split alike. -/
theorem splitFront_relabel (tokens : List Token) :
    splitFront (tokens.map (Token.relabel relabeling)) =
      (splitFront tokens).map (Token.relabel relabeling) := by
  cases tokens with
  | nil => rfl
  | cons token rest =>
    rw [List.map_cons, splitFront, splitFront, Token.kind_relabel,
      apply_ite (List.map (Token.relabel relabeling))]
    rfl

/-- A reader of a level does with new numbers for files what another one does with the old
ones. -/
structure Nested.Natural (relabeling : Relabeling) (nested renamed : Nested) : Prop where
  read : ∀ closing mode, Parser.Natural relabeling (relabelAll relabeling)
    (nested.read closing mode) (renamed.read closing mode)

/-- The readers of the next level, where there is one, do the same. -/
inductive Inner.Natural (relabeling : Relabeling) : Inner → Inner → Prop where
  | absent : Inner.Natural relabeling none none
  | present {nested renamed : Nested} (natural : nested.Natural relabeling renamed) :
    Inner.Natural relabeling (some nested) (some renamed)

/-- A level is open on both sides or on none. -/
theorem Inner.Natural.when {inner renamed : Inner} (natural : inner.Natural relabeling renamed)
    (opens : Bool) : (inner.when opens).Natural relabeling (renamed.when opens) := by
  cases opens
  · exact .absent
  · exact natural

section

variable {context : Context} {nested renamed : Nested} {inner innerRenamed : Inner}

theorem natural_finishGroup (delimiter : Delimiter) (opener : Placed) (children : List Node)
    (closer : Option Placed) (missing : Problem) :
    Natural relabeling (Node.relabel relabeling)
      (finishGroup context delimiter opener children closer missing)
      (finishGroup (context.relabel relabeling) delimiter (opener.relabel relabeling)
        (relabelAll relabeling children) (closer.map (Placed.relabel relabeling)) missing) := by
  refine .bind (natural_spanFrom _) fun _ => .bind natural_newId fun _ => ?_
  rw [Option.isSome_map]
  exact .bind (natural_reportUnless ..) fun _ => .pure _

theorem natural_reportFlattened (opener : Token) :
    Natural relabeling id (reportFlattened opener)
      (reportFlattened (opener.relabel relabeling)) :=
  .get fun _ => natural_reportNesting ..

/-- A group is read alike. -/
theorem natural_group (natural : inner.Natural relabeling innerRenamed) :
    Natural relabeling (Node.relabel relabeling) (group context inner)
      (group (context.relabel relabeling) innerRenamed) := by
  cases natural with
  | absent =>
    exact .bind natural_take fun _ => .bind
      (natural_leavesAhead (flatLength_map keepsText_relabel 0)) fun _ =>
      .bind (natural_takeIf Token.isEndGroup_relabel) fun _ =>
        .bind (natural_reportFlattened _) fun _ => natural_finishGroup ..
  | present natural =>
    exact .bind natural_take fun _ => .bind (natural.read ..) fun _ =>
      .bind (natural_takeIf Token.isEndGroup_relabel) fun _ => natural_finishGroup ..

theorem natural_optionalGroup (natural : nested.Natural relabeling renamed) (mode : Mode) :
    Natural relabeling (Node.relabel relabeling) (optionalGroup context nested mode)
      (optionalGroup (context.relabel relabeling) renamed mode) :=
  .bind natural_take fun _ => .bind (natural.read ..) fun _ =>
    .bind (natural_takeIf fun _ => Token.isCharacter_relabel _ _) fun _ => natural_finishGroup ..

theorem natural_splitAhead (closing : Closing) :
    Natural relabeling id (splitAhead closing) (splitAhead closing) := by
  constructor
  intro state
  show (_, if _ then _ else _) = (_, State.relabel relabeling (if _ then _ else _))
  by_cases inline : closing = .shift <;> simp [State.relabel, inline, splitFront_relabel]

theorem natural_finishMath (closing : Closing) (opener : Placed) (children : List Node)
    (closer : Option Placed) :
    Natural relabeling (Node.relabel relabeling)
      (finishMath context closing opener children closer)
      (finishMath (context.relabel relabeling) closing (opener.relabel relabeling)
        (relabelAll relabeling children) (closer.map (Placed.relabel relabeling))) := by
  refine .bind (natural_spanFrom _) fun _ => .bind natural_newId fun _ => ?_
  rw [Option.isSome_map]
  exact .bind (natural_reportUnless ..) fun _ => .pure _

/-- A formula is read alike. -/
theorem natural_math (natural : nested.Natural relabeling renamed) (mode : Mode) :
    Natural relabeling (Node.relabel relabeling) (math context nested mode)
      (math (context.relabel relabeling) renamed mode) :=
  .bind natural_take fun _ =>
    .bind (show Natural relabeling
        (Prod.map (relabelAll relabeling) (Option.map (Placed.relabel relabeling))) _ _ from
      .bind (natural.read ..) fun _ => .bind (natural_splitAhead _) fun _ =>
        .bind (natural_takeIf (Closing.isAt_relabel _)) fun _ => .pure _)
      fun _ => natural_finishMath ..

theorem natural_reportMissing (position : Nat) (command : Text) (target : Token) :
    Natural relabeling id (reportMissing context position command target)
      (reportMissing (context.relabel relabeling) position command
        (target.relabel relabeling)) := by
  refine .bind (natural_look 0) fun next => ?_
  rw [Token.isEndOfInput_relabel, ← apply_ite (Token.relabel relabeling)]
  exact natural_report ..

theorem natural_argumentContent (natural : inner.Natural relabeling innerRenamed)
    (target : Token) :
    Natural relabeling (Node.relabel relabeling) (argumentContent context inner target)
      (argumentContent (context.relabel relabeling) innerRenamed
        (target.relabel relabeling)) :=
  .ite (natural_group natural) natural_leaf

theorem natural_arguments (natural : inner.Natural relabeling innerRenamed) (mode : Mode)
    (command : Text) (position : Nat) (kinds : List ArgumentKind) :
    Natural relabeling (relabelArguments relabeling)
      (arguments context inner mode command position kinds)
      (arguments (context.relabel relabeling) innerRenamed mode command position kinds) := by
  induction kinds generalizing position with
  | nil => exact .pure _
  | cons kind kinds ih =>
    cases kind with
    | optional =>
      refine .get fun state => ?_
      dsimp only
      have same : spacesAhead (state.relabel relabeling).rest = spacesAhead state.rest :=
        spacesAhead_map keepsText_relabel state.rest
      rw [same]
      refine .bind (natural_look _) fun target => ?_
      rw [Token.isCharacter_relabel]
      have below := natural.when (target.isCharacter '[')
      revert below
      generalize inner.when (target.isCharacter '[') = opened
      generalize innerRenamed.when (target.isCharacter '[') = openedRenamed
      rintro (_ | natural)
      · exact ih _
      · exact .bind (natural_leaves _) fun _ => .bind (natural_optionalGroup natural _) fun _ =>
          .bind (ih _) fun _ => .pure _
    | mandatory =>
      refine .get fun state => ?_
      dsimp only
      have same : gapAhead false (state.relabel relabeling).rest = gapAhead false state.rest :=
        gapAhead_map keepsText_relabel false state.rest
      rw [same]
      refine .bind (natural_look _) fun target => ?_
      exact .ite (.bind (natural_reportMissing ..) fun _ => .pure _)
        (.bind (natural_leaves _) fun _ => .bind (natural_argumentContent natural _) fun _ =>
          .bind (ih _) fun _ => .pure _)

theorem natural_starAhead (signature : Signature) :
    Natural relabeling (Option.map (Placed.relabel relabeling)) (starAhead context signature)
      (starAhead (context.relabel relabeling) signature) :=
  .ite (natural_takeIf fun _ => Token.isCharacter_relabel _ _) (.pure _)

theorem natural_commandBehind (natural : inner.Natural relabeling innerRenamed) (mode : Mode)
    (head : Placed) :
    Natural relabeling (Command.relabel relabeling) (commandBehind context inner mode head)
      (commandBehind (context.relabel relabeling) innerRenamed mode (head.relabel relabeling)) :=
  .bind (natural_starAhead _) fun _ => .bind (natural_arguments natural ..) fun _ =>
    .bind (natural_spanFrom _) fun _ => .bind natural_newId fun _ => .pure _

theorem natural_command (natural : inner.Natural relabeling innerRenamed) (mode : Mode) :
    Natural relabeling (Node.relabel relabeling) (command context inner mode)
      (command (context.relabel relabeling) innerRenamed mode) :=
  .bind natural_take fun _ => .bind (natural_commandBehind natural ..) fun _ => .pure _

theorem natural_ending (natural : inner.Natural relabeling innerRenamed) :
    Natural relabeling (Prod.map (Command.relabel relabeling) id) (ending context inner)
      (ending (context.relabel relabeling) innerRenamed) := by
  refine .bind natural_take fun head => .get fun state => ?_
  dsimp only
  have same : spacesAhead (state.relabel relabeling).rest = spacesAhead state.rest :=
    spacesAhead_map keepsText_relabel state.rest
  rw [same]
  refine .bind (natural_look _) fun target => .ite ?_ ?_
  · refine .bind (natural_leaves _) fun leading => .bind (natural_group natural) fun nameGroup =>
      .bind (natural_spanFrom _) fun span => .bind natural_newId fun created => ?_
    rw [Node.innerText_relabel]
    exact .pure _
  · exact .bind (natural_spanFrom _) fun _ => .bind natural_newId fun _ => .pure _

theorem natural_strayEnding (natural : inner.Natural relabeling innerRenamed) :
    Natural relabeling (Node.relabel relabeling) (strayEnding context inner)
      (strayEnding (context.relabel relabeling) innerRenamed) := by
  refine .bind (natural_ending natural) fun ended => ?_
  dsimp only [Prod.map]
  rw [Command.id_relabel, Command.span_relabel]
  exact .bind (natural_report ..) fun _ => .pure _

theorem natural_endingAhead (natural : inner.Natural relabeling innerRenamed) :
    Natural relabeling (Option.map (Prod.map (Command.relabel relabeling) id))
      (endingAhead context inner) (endingAhead (context.relabel relabeling) innerRenamed) :=
  .bind (natural_look 0) fun _ =>
    .ite (.bind (natural_ending natural) fun _ => .pure _) (.pure _)

theorem natural_opening (natural : nested.Natural relabeling renamed) (mode : Mode)
    (head : Placed) (skipped : Nat) :
    Natural relabeling (Prod.map (Command.relabel relabeling) id)
      (opening context nested mode head skipped)
      (opening (context.relabel relabeling) renamed mode (head.relabel relabeling) skipped) := by
  refine .bind (natural_leaves _) fun leading =>
    .bind (natural_group (.present natural)) fun nameGroup => ?_
  dsimp only
  rw [Node.innerText_relabel]
  exact .bind (natural_arguments (.present natural) ..) fun _ => .bind (natural_spanFrom _) fun _ =>
    .bind natural_newId fun _ => .pure _

theorem natural_environmentBody (natural : nested.Natural relabeling renamed) (mode : Mode)
    (name : Text) :
    Natural relabeling (relabelAll relabeling) (environmentBody context nested mode name)
      (environmentBody (context.relabel relabeling) renamed mode name) :=
  .ite (natural_leavesAhead (verbatimLength_map keepsText_relabel name)) (natural.read ..)

theorem mismatch_relabel (name : Text) (opening : Command) (ending : Option (Command × Text)) :
    mismatch name (opening.relabel relabeling)
        (ending.map (Prod.map (Command.relabel relabeling) id)) =
      (mismatch name opening ending).map (Prod.map id (Span.relabel relabeling)) := by
  cases ending with
  | none => simp [mismatch]
  | some ended =>
    simp only [mismatch, Option.map_some, Prod.map, Command.span_relabel, id]
    split <;> rfl

theorem natural_reportDefect (defect : Option (Problem × Span)) (node : NodeId) :
    Natural relabeling id (reportDefect defect node)
      (reportDefect (defect.map (Prod.map id (Span.relabel relabeling))) node) := by
  cases defect with
  | none => exact .pure _
  | some defect => exact natural_report ..

theorem natural_finishEnvironment (name : Text) (opening : Command) (body : List Node)
    (ending : Option (Command × Text)) :
    Natural relabeling (Node.relabel relabeling)
      (finishEnvironment context name opening body ending)
      (finishEnvironment (context.relabel relabeling) name (opening.relabel relabeling)
        (relabelAll relabeling body)
        (ending.map (Prod.map (Command.relabel relabeling) id))) := by
  have closes : (ending.map (Prod.map (Command.relabel relabeling) id)).map Prod.fst =
      (ending.map Prod.fst).map (Command.relabel relabeling) := by
    cases ending <;> rfl
  unfold finishEnvironment
  rw [Command.span_relabel, Span.start_relabel]
  refine .bind (natural_spanFrom _) fun span => .bind natural_newId fun created => ?_
  dsimp only
  rw [mismatch_relabel, closes]
  refine .bind (natural_reportDefect ..) fun _ => ?_
  rw [Option.isNone_map, id, ← Node.relabel_environment]
  exact .pure _

/-- An environment is read alike. -/
theorem natural_environment (natural : nested.Natural relabeling renamed) (mode : Mode) :
    Natural relabeling (Node.relabel relabeling) (environment context nested mode)
      (environment (context.relabel relabeling) renamed mode) := by
  refine .bind natural_take fun head => .get fun state => ?_
  dsimp only
  have same : spacesAhead (state.relabel relabeling).rest = spacesAhead state.rest :=
    spacesAhead_map keepsText_relabel state.rest
  rw [same]
  refine .bind (natural_look _) fun target => .ite ?_ ?_
  · exact .bind (natural_opening natural ..) fun _ => .bind (natural_environmentBody natural ..)
      fun _ => .bind (natural_endingAhead (.present natural)) fun _ =>
        natural_finishEnvironment ..
  · exact .bind (natural_commandBehind (.present natural) ..) fun _ => .pure _

theorem natural_strayGroupEnd : Natural relabeling (Node.relabel relabeling)
    (strayGroupEnd context) (strayGroupEnd (context.relabel relabeling)) :=
  .bind natural_take fun _ => .bind natural_newId fun _ => .bind (natural_report ..) fun _ =>
    .pure _

theorem natural_reportUnopened (natural : inner.Natural relabeling innerRenamed) (mode : Mode)
    (token : Token) :
    Natural relabeling id (reportUnopened inner mode token)
      (reportUnopened innerRenamed mode (token.relabel relabeling)) := by
  have same : innerRenamed.isNone = inner.isNone := by
    cases natural <;> rfl
  unfold reportUnopened
  rw [same]
  exact .ite (natural_reportNesting ..) (.pure _)

/-- A token starts the same construct. -/
theorem natural_construct (natural : inner.Natural relabeling innerRenamed) (mode : Mode)
    (token : Token) :
    Natural relabeling (Node.relabel relabeling) (construct context inner mode token)
      (construct (context.relabel relabeling) innerRenamed mode (token.relabel relabeling)) := by
  refine .ite (natural_group natural) <| .ite natural_strayGroupEnd <|
    .ite (natural_strayEnding natural) ?_
  have shifts := natural.when (!mode.inMath && opensMath token)
  have begins := natural.when (token.isControlWord "begin")
  have same : opensMath (token.relabel relabeling) = opensMath token := rfl
  rw [same, Token.isControlWord_relabel, Token.isControlSequence_relabel]
  revert shifts begins
  generalize inner.when (!mode.inMath && opensMath token) = formulas
  generalize innerRenamed.when (!mode.inMath && opensMath token) = formulasRenamed
  generalize inner.when (token.isControlWord "begin") = regions
  generalize innerRenamed.when (token.isControlWord "begin") = regionsRenamed
  rintro (_ | formula)
  · rintro (_ | region)
    · exact .ite (natural_command natural mode) natural_leaf
    · exact natural_environment region mode
  · exact fun _ => natural_math formula mode

theorem natural_node (natural : inner.Natural relabeling innerRenamed) (mode : Mode) :
    Natural relabeling (Node.relabel relabeling) (node context inner mode)
      (node (context.relabel relabeling) innerRenamed mode) :=
  .bind (natural_look 0) fun _ => .bind (natural_reportUnopened natural ..) fun _ =>
    natural_construct natural ..

theorem endsBefore_relabel (closing : Closing) (mode : Mode) (token : Token) :
    endsBefore closing mode (token.relabel relabeling) = endsBefore closing mode token := by
  simp [endsBefore]

/-- In renamed files the same nodes are read up to the closing token. -/
theorem nodesUntil_relabel (natural : inner.Natural relabeling innerRenamed) (closing : Closing)
    (mode : Mode) (nodes : Array Node) (state : State) :
    nodesUntil (context.relabel relabeling) innerRenamed closing mode
        (nodes.map (Node.relabel relabeling)) (state.relabel relabeling) =
      (relabelAll relabeling (nodesUntil context inner closing mode nodes state).1,
        (nodesUntil context inner closing mode nodes state).2.relabel relabeling) := by
  fun_induction nodesUntil context inner closing mode nodes state with
  | case1 nodes state ahead =>
    have stays : Halts closing mode (state.relabel relabeling).rest := by
      simp [State.relabel, ahead, Halts]
    rw [nodesUntil_of_halts _ stays, Array.toList_map, relabelAll_eq_map]
  | case2 nodes state token rest ahead ends =>
    have stays : Halts closing mode (state.relabel relabeling).rest := by
      simpa [State.relabel, ahead, Halts, endsBefore_relabel] using ends
    rw [nodesUntil_of_halts _ stays, Array.toList_map, relabelAll_eq_map]
  | case3 nodes state token rest ahead goesOn read ih =>
    have next : (state.relabel relabeling).rest =
        token.relabel relabeling :: rest.map (Token.relabel relabeling) := by
      simp [State.relabel, ahead]
    rw [nodesUntil_of_continues _ next (by simpa [endsBefore_relabel] using goesOn),
      (natural_node natural mode).apply, ← Array.map_push]
    exact ih

theorem natural_nodesUntil (natural : inner.Natural relabeling innerRenamed) (closing : Closing)
    (mode : Mode) :
    Natural relabeling (relabelAll relabeling) (nodesUntil context inner closing mode #[])
      (nodesUntil (context.relabel relabeling) innerRenamed closing mode #[]) :=
  ⟨fun state => by simpa using nodesUntil_relabel natural closing mode #[] state⟩

/-- **Every level** of the parser reads alike in renamed files. -/
theorem natural_level (room : Nat) :
    (level context room).Natural relabeling (level (context.relabel relabeling) room) := by
  induction room with
  | zero => exact ⟨natural_nodesUntil .absent⟩
  | succ room ih => exact ⟨natural_nodesUntil (.present ih)⟩

/-- The nodes of a document are the same but for their files. -/
theorem nodesOf_relabel (content : List Token) :
    nodesOf (context.relabel relabeling) (content.map (Token.relabel relabeling)) =
      (relabelAll relabeling (nodesOf context content).1,
        (nodesOf context content).2.relabel relabeling) := by
  have initial : State.relabel relabeling ⟨#[], content, 0, #[], false⟩ =
      ⟨#[], content.map (Token.relabel relabeling), 0, #[], false⟩ := by
    simp [State.relabel]
  rw [nodesOf, ← initial]
  exact ((natural_level maxNesting).read .never ⟨false, false, false⟩).apply _

end

end Parser

namespace Document

theorem contentOf_relabel (tokens : List Token) :
    contentOf (tokens.map (Token.relabel relabeling)) =
      (contentOf tokens).map (Token.relabel relabeling) := by
  simp [contentOf, List.takeWhile_map, Function.comp_def]

theorem endOf_relabel (tokens : List Token) (fileId : FileId) :
    endOf (tokens.map (Token.relabel relabeling)) (relabeling.span fileId) =
      (endOf tokens fileId).relabel relabeling := by
  have found : (tokens.map (Token.relabel relabeling)).find? Token.isEndOfInput =
      (tokens.find? Token.isEndOfInput).map (Token.relabel relabeling) := by
    simp [List.find?_map, Function.comp_def]
  rw [endOf, endOf, found, contentOf_relabel, List.getLast?_map]
  cases tokens.find? Token.isEndOfInput with
  | some token => rfl
  | none => cases (contentOf tokens).getLast? <;> rfl

/-- **A document is built from tokens whose files have other numbers as the same document with
the other numbers.** -/
theorem relabel_ofTokens (tokens : List Token) (source : Text) (fileId : FileId)
    (commands : CommandTable) :
    (ofTokens tokens source fileId commands).relabel relabeling =
      { ofTokens (tokens.map (Token.relabel relabeling)) source (relabeling.span fileId)
          commands with
        fileId := relabeling.file fileId } := by
  have nodes := @Parser.nodesOf_relabel relabeling ⟨fileId, commands, endOf tokens fileId⟩
    (contentOf tokens)
  have start : (((contentOf tokens).map (Token.relabel relabeling)).head?.getD
      ((endOf tokens fileId).relabel relabeling)).span.start =
        ((contentOf tokens).head?.getD (endOf tokens fileId)).span.start := by
    cases contentOf tokens <;> rfl
  unfold ofTokens
  simp only [Parser.Context.relabel] at nodes
  simp only [endOf_relabel, contentOf_relabel, nodes, start]
  simp [Document.relabel, Node.relabel, Parser.State.relabel, Span.relabel]

/-- Renaming commutes with a change of the diagnostics. -/
theorem relabel_withDiagnostics (document : Document) (diagnostics : List Diagnostic) :
    ({ document with diagnostics } : Document).relabel relabeling =
      { document.relabel relabeling with
        diagnostics := diagnostics.map (Diagnostic.relabel relabeling) } := by
  cases document; rfl

/-- **A text is parsed as the same document for a file with another number**, save for that
number. -/
theorem relabel_parse (source : Text) (table : Catcode.Table) (commands : CommandTable)
    (fileId : FileId) :
    (parse source table commands fileId).map (Document.relabel relabeling) =
      (parse source table commands (relabeling.span fileId)).map fun document =>
        { document with fileId := relabeling.file fileId } := by
  unfold parse
  rw [lex_relabel]
  cases lex source table fileId with
  | error error => rfl
  | ok result =>
    have built := @relabel_ofTokens relabeling result.1 source fileId commands
    have reports := congrArg Document.diagnostics built
    rw [diagnostics_relabel] at reports
    simp only [Except.map, bind, Except.bind, pure, Except.pure]
    rw [relabel_withDiagnostics, built, List.map_append, reports]

/-- A parsed document is of the file that was asked for. -/
theorem fileId_of_parse {source : Text} {table : Catcode.Table} {commands : CommandTable}
    {fileId : FileId} {document : Document}
    (parsed : parse source table commands fileId = .ok document) : document.fileId = fileId := by
  unfold parse at parsed
  cases read : lex source table fileId with
  | error error =>
    rw [read] at parsed
    cases parsed
  | ok result =>
    rw [read] at parsed
    cases parsed
    rfl

/-- **A text is parsed for two files as one document**, under numbers that are one for both. -/
theorem parse_congr {relabeling other : Relabeling} {fileId twin : FileId}
    (spans : relabeling.span fileId = other.span twin)
    (files : relabeling.file fileId = other.file twin) (source : Text) (table : Catcode.Table)
    (commands : CommandTable) :
    (parse source table commands fileId).map (relabel relabeling) =
      (parse source table commands twin).map (relabel other) := by
  rw [relabel_parse, relabel_parse, spans, files]

end Document

end TexSource
