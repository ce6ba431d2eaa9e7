import TexSource.Proofs.Document.Coverage
import TexSource.Proofs.Document.Retracing

/-!
# Reading the tokens of a document again

A document whose tokens are read again has the same tree. The second reading finds the
doubled math shifts split that the first one had to split, and what is looked at ahead does
not tell a doubled math shift from its halves; save where a displayed formula ends, and there
the doubled math shift was taken as it was.
-/

namespace TexSource

namespace Parser

section

variable (context : Context)

theorem retraces_finishGroup (delimiter : Delimiter) (opener : Placed) (children : List Node)
    (closer : Option Placed) (missing : Problem) :
    Retraces (finishGroup context delimiter opener children closer missing)
      (finishGroup context delimiter opener children closer missing) :=
  .bind (retraces_spanFrom ..) fun _ => .bind retraces_newId fun _ =>
    .bind (.of_remarks (remarks_reportUnless ..) (remarks_reportUnless ..)) fun _ => .pure _

/-- A group that is kept flat is reread as it is. -/
theorem restarts_flatGroup : Restarts (flatGroup context) :=
  (restarts_take context).bind fun _ =>
    .bind (retraces_leavesAhead context (stable_flatLength 0)) fun _ =>
      .bind (retraces_takeIf context Token.isEndGroup fun _ _ _ => rfl) fun _ =>
        .bind (.of_remarks (remarks_reportFlattened _) (remarks_reportFlattened _)) fun _ =>
          retraces_finishGroup ..

/-- A reader of a level stops where a sequence of nodes ends, and retraces itself before
such a place. -/
structure Nested.Rereads (nested : Nested) : Prop where
  stops : ∀ closing mode state, Halts closing mode (nested.read closing mode state).2.rest
  retraces : ∀ closing mode,
    RetracesBefore (Halts closing mode) (nested.read closing mode) (nested.read closing mode)

/-- Only the end of a displayed formula tells a doubled math shift from its first half. -/
theorem halts_of_splits {closing : Closing} (inline : closing ≠ .displayShift) {mode : Mode}
    {tokens others : List Token} (splits : Splits tokens others)
    (halts : Halts closing mode tokens) : Halts closing mode others := by
  cases splits with
  | nil => exact halts
  | keep token later => exact halts
  | @split token doubled _ _ later =>
    intro half first
    cases first
    have ends := halts token rfl
    cases closing with
    | displayShift => contradiction
    | shift => simp [endsBefore, Closing.isAt, Token.isMathShift, splitShift]
    | never =>
      simp [endsBefore, Closing.isAt, Token.isEndGroup, Token.isControlWord, doubled] at ends
    | bracket =>
      simp [endsBefore, Closing.isAt, Token.isEndGroup, Token.isControlWord, Token.isCharacter,
        doubled] at ends
    | symbol glyph =>
      simp [endsBefore, Closing.isAt, Token.isEndGroup, Token.isControlWord, doubled] at ends

/-- A level that rereads does so for all endings but displays. -/
theorem Nested.Rereads.retraces_read {nested : Nested} (rereads : nested.Rereads)
    (closing : Closing) (inline : closing ≠ .displayShift) (mode : Mode) :
    Retraces (nested.read closing mode) (nested.read closing mode) :=
  ⟨fun state left splits _ => (rereads.retraces closing mode).retrace state left splits
    (halts_of_splits inline splits (rereads.stops closing mode state))⟩

/-- The reader of the next level, if there is one, retraces itself. -/
def Inner.Rereads (inner : Inner) : Prop :=
  ∀ nested ∈ inner, nested.Rereads

theorem Inner.Rereads.none : Inner.Rereads none :=
  nofun

theorem Inner.Rereads.some {nested : Nested} (rereads : nested.Rereads) :
    Inner.Rereads (some nested) := by
  intro other same
  cases same
  exact rereads

variable {inner : Inner} {nested : Nested}

/-- A group is reread as it is. -/
theorem restarts_group (rereads : inner.Rereads) : Restarts (group context inner) := by
  cases inner with
  | none => exact restarts_flatGroup context
  | some nested =>
    exact (restarts_take context).bind fun _ =>
      .bind ((rereads nested rfl).retraces_read .never nofun _) fun _ =>
        .bind (retraces_takeIf context Token.isEndGroup fun _ _ _ => rfl) fun _ =>
          retraces_finishGroup ..

theorem retraces_optionalGroup (rereads : nested.Rereads) (mode : Mode) :
    Retraces (optionalGroup context nested mode) (optionalGroup context nested mode) :=
  .bind (retraces_take context) fun _ => .bind (rereads.retraces_read .bracket nofun mode) fun _ =>
    .bind (retraces_takeIf context (Token.isCharacter · ']') fun _ _ _ => rfl) fun _ =>
      retraces_finishGroup ..

/-- What is split at the front is not split there again. -/
theorem splitFront_eq_of_splits {tokens others : List Token}
    (splits : Splits (splitFront tokens) others) : splitFront others = others := by
  cases tokens with
  | nil =>
    cases splits
    rfl
  | cons token rest =>
    by_cases doubled : token.kind = .mathShift true
    · rw [splitFront, if_pos doubled] at splits
      obtain ⟨later, rfl, _⟩ := splits.cons_inv (by simp [splitShift])
      rfl
    · rw [splitFront, if_neg doubled] at splits
      obtain ⟨later, rfl, _⟩ := splits.cons_inv doubled
      exact if_neg doubled

/-- An inline formula splits the shift ahead. -/
theorem splitAhead_shift (state : State) :
    splitAhead .shift state = ((), { state with rest := splitFront state.rest }) := rfl

/-- What closes other sequences is not split. -/
theorem splitAhead_of_ne {closing : Closing} (other : closing ≠ .shift) (state : State) :
    splitAhead closing state = ((), state) := by
  change ((), if closing = .shift then _ else state) = _
  rw [if_neg other]

theorem retraces_splitAhead (closing : Closing) :
    Retraces (splitAhead closing) (splitAhead closing) := by
  constructor
  intro state left splits _
  by_cases inline : closing = .shift
  · subst inline
    rw [splitAhead_shift] at splits ⊢
    refine ⟨[], (List.append_nil _).symm, (Splits.splitFront _).trans splits, fun again twin => ?_⟩
    have rest : again.rest = left := twin.rest
    rw [splitAhead_shift, rest, splitFront_eq_of_splits splits]
    exact ⟨rfl, twin.taken, twin.created, rfl⟩
  · rw [splitAhead_of_ne inline] at splits ⊢
    refine ⟨[], (List.append_nil _).symm, splits, fun again twin => ?_⟩
    rw [splitAhead_of_ne inline]
    exact ⟨rfl, twin⟩

/-- The end of a formula behind its content. -/
theorem retraces_formulaEnd (closing : Closing) (children : List Node) :
    Retraces (do splitAhead closing; return (children, ← takeIf context closing.isAt))
      (do splitAhead closing; return (children, ← takeIf context closing.isAt)) := by
  refine .bind (retraces_splitAhead closing) fun _ =>
    .bind (retraces_takeIf context closing.isAt fun token doubled fails => ?_) fun _ => .pure _
  cases closing with
  | shift => simp [Closing.isAt, Token.isMathShift, doubled] at fails
  | _ => rfl

/-- A displayed formula takes the doubled math shift that ends it as it is. -/
theorem halts_before_formulaEnd (mode : Mode) (children : List Node) {state : State}
    {later left : List Token} (halts : Halts .displayShift mode state.rest)
    (taken : ((do splitAhead .displayShift; return (children, ← takeIf context
      (Closing.isAt .displayShift)) : Parse _) state).2.taken.toList = state.taken.toList ++ later)
    (splits : Splits state.rest (later ++ left)) : Halts .displayShift mode (later ++ left) := by
  change (takeIf context (Closing.isAt .displayShift) state).2.taken.toList = _ at taken
  cases ahead : state.rest with
  | nil =>
    rw [ahead] at splits
    rw [splits.eq_nil]
    exact nofun
  | cons token rest =>
    rw [ahead] at splits halts
    by_cases doubled : token.kind = .mathShift true
    · rw [takeIf_of_passes context (by simp [ahead, Closing.isAt, doubled]), taken_take] at taken
      cases List.append_cancel_left taken
      rw [ahead]
      exact halts
    · obtain ⟨others, same, _⟩ := splits.cons_inv doubled
      rw [same]
      exact halts

/-- What is in a formula is reread as it is. -/
theorem retraces_formula (rereads : nested.Rereads) (closing : Closing) (mode : Mode) :
    Retraces (formula context nested closing mode) (formula context nested closing mode) := by
  by_cases display : closing = .displayShift
  · subst display
    exact .bindBefore (rereads.retraces .displayShift mode)
      (retraces_formulaEnd context .displayShift) fun state later left taken splits =>
        halts_before_formulaEnd context mode _ (rereads.stops .displayShift mode state) taken splits
  · exact .bind (rereads.retraces_read closing display mode) (retraces_formulaEnd context closing)

/-- A formula is reread as it is. -/
theorem restarts_math (rereads : nested.Rereads) (mode : Mode) :
    Restarts (math context nested mode) :=
  (restarts_take context).bind fun _ => .bind (retraces_formula context rereads ..) fun _ =>
    .bind (retraces_spanFrom ..) fun _ => .bind retraces_newId fun _ =>
      .bind (.of_remarks (remarks_reportUnless ..) (remarks_reportUnless ..)) fun _ => .pure _

/-- An argument is reread if it starts alike. -/
theorem retraces_argumentContent (rereads : inner.Rereads) {target other : Token}
    (same : other.isBeginGroup = target.isBeginGroup) :
    Retraces (argumentContent context inner target) (argumentContent context inner other) := by
  unfold argumentContent
  rw [same]
  split
  · exact (restarts_group context rereads).retraces
  · exact (restarts_leaf context).retraces

/-- Arguments are reread one after another. -/
theorem retraces_arguments (rereads : inner.Rereads) (mode : Mode) (command : Text)
    (position : Nat) (kinds : List ArgumentKind) :
    Retraces (arguments context inner mode command position kinds)
      (arguments context inner mode command position kinds) := by
  induction kinds generalizing position with
  | nil => exact .pure _
  | cons kind kinds ih =>
    cases kind with
    | optional =>
      apply Retraces.look
      intro state other splits
      rw [splits.test_behindSpaces (blind_isCharacter '['), splits.spacesAhead_eq]
      cases opens : inner.when
          ((state.rest.getD (spacesAhead state.rest) context.endOfInput).isCharacter '[') with
      | none => exact ih _
      | some nested =>
        have content := retraces_optionalGroup context
          (rereads nested (Inner.when_eq_some.mp opens).2) mode
        exact .bind (retraces_leaves ..) fun _ => .bind content fun _ =>
          .bind (ih _) fun _ => .pure _
    | mandatory =>
      apply Retraces.look
      intro state other splits
      obtain ⟨same, behind⟩ := splits.gapAhead_eq false
      have refused := Splits.test_getD _ behind blind_cannotStartArgument context.endOfInput
      have brace := Splits.test_getD _ behind blind_isBeginGroup context.endOfInput
      rw [same, refused]
      split
      · exact .bind (.of_remarks (remarks_reportMissing ..) (remarks_reportMissing ..))
          fun _ => .pure _
      · exact .bind (retraces_leaves ..) fun _ =>
          .bind (retraces_argumentContent context rereads brace) fun _ =>
            .bind (ih _) fun _ => .pure _

theorem retraces_starAhead (signature : Signature) :
    Retraces (starAhead context signature) (starAhead context signature) := by
  unfold starAhead
  split
  · exact retraces_takeIf context (Token.isCharacter · '*') fun _ _ _ => rfl
  · exact .pure _

theorem retraces_commandBehind (rereads : inner.Rereads) (mode : Mode) (head : Placed) :
    Retraces (commandBehind context inner mode head) (commandBehind context inner mode head) :=
  .bind (retraces_starAhead ..) fun _ => .bind (retraces_arguments context rereads ..) fun _ =>
    .bind (retraces_spanFrom ..) fun _ => .bind retraces_newId fun _ => .pure _

/-- A command is reread as it is. -/
theorem restarts_command (rereads : inner.Rereads) (mode : Mode) :
    Restarts (command context inner mode) :=
  (restarts_take context).bind fun _ =>
    .bind (retraces_commandBehind context rereads ..) fun _ => .pure _

theorem restarts_ending (rereads : inner.Rereads) : Restarts (ending context inner) := by
  refine (restarts_take context).bind fun head => .look fun state other splits => ?_
  rw [splits.test_behindSpaces blind_isBeginGroup, splits.spacesAhead_eq]
  split
  · exact .bind (retraces_leaves ..) fun _ =>
      .bind (restarts_group context rereads).retraces fun _ =>
        .bind (retraces_spanFrom ..) fun _ => .bind retraces_newId fun _ => .pure _
  · exact .bind (retraces_spanFrom ..) fun _ => .bind retraces_newId fun _ => .pure _

theorem restarts_strayEnding (rereads : inner.Rereads) : Restarts (strayEnding context inner) :=
  (restarts_ending context rereads).bind fun _ =>
    .bind (.of_remarks (remarks_report ..) (remarks_report ..)) fun _ => .pure _

theorem retraces_endingAhead (rereads : inner.Rereads) :
    Retraces (endingAhead context inner) (endingAhead context inner) := by
  apply Retraces.lookNext
  intro state other splits
  rw [Splits.test_getD 0 splits (blind_isControlWord "end")]
  split
  · exact .bind (restarts_ending context rereads).retraces fun _ => .pure _
  · exact .pure _

theorem retraces_opening (rereads : nested.Rereads) (mode : Mode) (head : Placed)
    (skipped : Nat) : Retraces (opening context nested mode head skipped)
      (opening context nested mode head skipped) :=
  .bind (retraces_leaves ..) fun _ =>
    .bind (restarts_group context (.some rereads)).retraces fun _ =>
      .bind (retraces_arguments context (.some rereads) ..) fun _ =>
        .bind (retraces_spanFrom ..) fun _ => .bind retraces_newId fun _ => .pure _

theorem retraces_environmentBody (rereads : nested.Rereads) (mode : Mode) (name : Text) :
    Retraces (environmentBody context nested mode name)
      (environmentBody context nested mode name) := by
  unfold environmentBody
  split
  · exact retraces_leavesAhead context (stable_verbatimLength name)
  · exact rereads.retraces_read .never nofun _

theorem retraces_namedEnvironment (rereads : nested.Rereads) (mode : Mode) (head : Placed)
    (skipped : Nat) : Retraces (namedEnvironment context nested mode head skipped)
      (namedEnvironment context nested mode head skipped) :=
  .bind (retraces_opening context rereads ..) fun _ =>
    .bind (retraces_environmentBody context rereads ..) fun _ =>
      .bind (retraces_endingAhead context (.some rereads)) fun _ =>
        .bind (retraces_spanFrom ..) fun _ => .bind retraces_newId fun _ =>
          .bind (.of_remarks (remarks_reportDefect ..) (remarks_reportDefect ..)) fun _ => .pure _

/-- An environment is reread as it is. -/
theorem restarts_environment (rereads : nested.Rereads) (mode : Mode) :
    Restarts (environment context nested mode) := by
  refine (restarts_take context).bind fun head => .look fun state other splits => ?_
  rw [splits.test_behindSpaces blind_isBeginGroup, splits.spacesAhead_eq]
  split
  · exact retraces_namedEnvironment context rereads ..
  · exact .bind (retraces_commandBehind context (.some rereads) ..) fun _ => .pure _

theorem restarts_strayGroupEnd : Restarts (strayGroupEnd context) :=
  (restarts_take context).bind fun _ => .bind retraces_newId fun _ =>
    .bind (.of_remarks (remarks_report ..) (remarks_report ..)) fun _ => .pure _

/-- Whatever construct a token starts is reread as it is. -/
theorem restarts_construct (rereads : inner.Rereads) (mode : Mode) (token : Token) :
    Restarts (construct context inner mode token) := by
  unfold construct
  split
  · exact restarts_group context rereads
  · split
    · exact restarts_strayGroupEnd context
    · split
      · exact restarts_strayEnding context rereads
      · split
        · rename_i nested opens
          exact restarts_math context (rereads nested (Inner.when_eq_some.mp opens).2) mode
        · split
          · rename_i nested opens
            exact restarts_environment context (rereads nested (Inner.when_eq_some.mp opens).2) mode
          · split
            · exact restarts_command context rereads mode
            · exact restarts_leaf context

/-- The token that a construct starts at is the first that it takes, so that the second
reading finds the same construct. -/
theorem restarts_node (rereads : inner.Rereads) (mode : Mode) :
    Restarts (node context inner mode) := by
  have steps := fun token => Restarts.after (remarks_reportUnopened inner mode token)
    fun _ => restarts_construct context rereads mode token
  refine ⟨⟨fun state left splits fits => ?_⟩, fun state token rest ahead => ?_⟩
  · obtain ⟨read, taken, rest, retrace⟩ :=
      (steps (state.rest.getD 0 context.endOfInput)).retraces.retrace state left splits fits
    have front : (read ++ left).getD 0 context.endOfInput =
        state.rest.getD 0 context.endOfInput := by
      cases ahead : state.rest with
      | nil =>
        rw [ahead] at rest
        rw [rest.eq_nil]
      | cons token later =>
        obtain ⟨more, opened⟩ :=
          (steps (state.rest.getD 0 context.endOfInput)).opens state token later ahead
        cases List.append_cancel_left (opened.symm.trans taken)
        rfl
    refine ⟨read, taken, rest, fun again twin => ?_⟩
    have run : node context inner mode again = (reportUnopened inner mode
        (state.rest.getD 0 context.endOfInput) >>= fun _ => construct context inner mode
          (state.rest.getD 0 context.endOfInput)) again := by
      rw [← front, ← twin.rest]
      rfl
    rw [run]
    exact retrace again twin
  · exact (steps (state.rest.getD 0 context.endOfInput)).opens state token rest ahead

/-- A sequence is reread up to where it halts. -/
theorem retraces_nodesUntil (rereads : inner.Rereads) (closing : Closing) (mode : Mode)
    (nodes : Array Node) :
    RetracesBefore (Halts closing mode) (nodesUntil context inner closing mode nodes)
      (nodesUntil context inner closing mode nodes) := by
  constructor
  intro state left splits fits
  fun_induction nodesUntil context inner closing mode nodes state with
  | case1 nodes state none =>
    refine ⟨[], (List.append_nil _).symm, splits, fun again twin => ?_⟩
    rw [nodesUntil_of_halts nodes (by rw [twin.rest]; exact fits)]
    exact ⟨rfl, twin⟩
  | case2 nodes state token rest ahead ends =>
    refine ⟨[], (List.append_nil _).symm, splits, fun again twin => ?_⟩
    rw [nodesUntil_of_halts nodes (by rw [twin.rest]; exact fits)]
    exact ⟨rfl, twin⟩
  | case3 nodes state token rest ahead continues first ih =>
    obtain ⟨later, takenLater, restLater, retraceLater⟩ := ih splits
    have restarts := restarts_node context rereads mode
    obtain ⟨read, taken, finer, retrace⟩ :=
      restarts.retraces.retrace state (later ++ left) restLater trivial
    obtain ⟨more, opened⟩ := restarts.opens state token rest ahead
    have front : read = token :: more := List.append_cancel_left (taken.symm.trans opened)
    refine ⟨read ++ later, ?_, ?_, fun again twin => ?_⟩
    · rw [takenLater, taken, List.append_assoc]
    · rwa [List.append_assoc]
    · rw [List.append_assoc] at twin
      have next : again.rest = token :: (more ++ (later ++ left)) := by rw [twin.rest, front]; rfl
      obtain ⟨same, reached⟩ := retrace again twin
      rw [nodesUntil_of_continues nodes next (by simpa using continues), same]
      exact retraceLater _ reached

/-- **Every level** reads its own tokens again as it did. -/
theorem rereads_level (room : Nat) : (level context room).Rereads := by
  induction room with
  | zero =>
    exact ⟨fun closing mode state => nodesUntil_stops context _ closing mode #[] state,
      fun closing mode => retraces_nodesUntil context .none closing mode #[]⟩
  | succ room ih =>
    exact ⟨fun closing mode state => nodesUntil_stops context _ closing mode #[] state,
      fun closing mode => retraces_nodesUntil context (.some ih) closing mode #[]⟩

/-- Reading the tokens taken for some content again gives the same nodes from the same
tokens. -/
theorem nodesOf_taken (content : List Token) :
    Splits content (nodesOf context content).2.taken.toList ∧
      (nodesOf context (nodesOf context content).2.taken.toList).1 = (nodesOf context content).1 ∧
      (nodesOf context (nodesOf context content).2.taken.toList).2.taken =
        (nodesOf context content).2.taken ∧
      (nodesOf context (nodesOf context content).2.taken.toList).2.created =
        (nodesOf context content).2.created := by
  have splits : Splits (nodesOf context content).2.rest [] := by
    rw [rest_nodesOf]
    exact .nil
  obtain ⟨read, taken, rest, retrace⟩ := ((rereads_level context maxNesting).retraces .never
    ⟨false, false, false⟩).retrace ⟨#[], content, 0, #[], false⟩ [] splits nofun
  change (nodesOf context content).2.taken.toList = _ at taken
  obtain ⟨same, twin⟩ := retrace ⟨#[], read, 0, #[], false⟩ ⟨rfl, rfl, (List.append_nil read).symm⟩
  rw [List.append_nil] at rest
  rw [taken]
  exact ⟨rest, same, twin.taken, twin.created⟩

end

end Parser

namespace Document

/-- Splitting shifts makes no end of input. -/
theorem isEndOfInput_of_splits {tokens others : List Token} (splits : Parser.Splits tokens others)
    (inside : ∀ token ∈ tokens, token.isEndOfInput = false) :
    ∀ token ∈ others, token.isEndOfInput = false :=
  splits.forall_mem (fun _ _ _ => ⟨rfl, rfl⟩) inside

/-- Without the end of the input, the content is left. -/
theorem contentOf_concat {content : List Token} {last : Token}
    (inside : ∀ token ∈ content, token.isEndOfInput = false) (ends : last.isEndOfInput = true) :
    contentOf (content ++ [last]) = content := by
  rw [contentOf, List.takeWhile_append_of_pos (by simpa using inside)]
  simp [ends]

/-- The end of the input is the last token. -/
theorem endOf_concat {content : List Token} {last : Token}
    (inside : ∀ token ∈ content, token.isEndOfInput = false) (ends : last.isEndOfInput = true)
    (fileId : FileId) : endOf (content ++ [last]) fileId = last := by
  have before : content.find? Token.isEndOfInput = none := by simpa using inside
  rw [endOf, List.find?_append, before]
  simp [ends]

/-- Splitting shifts keeps the place where the tokens start. -/
theorem start_of_splits {tokens others : List Token} (splits : Parser.Splits tokens others)
    (last : Token) : (others.head?.getD last).span.start = (tokens.head?.getD last).span.start := by
  cases splits <;> rfl

/-- The document that is built from the tokens of a document is the same up to reports. -/
theorem ofTokens_tokens (tokens : List Token) (source : Text) (fileId : FileId)
    (commands : CommandTable) :
    ∃ diagnostics, ofTokens (ofTokens tokens source fileId commands).tokens source fileId commands =
      { ofTokens tokens source fileId commands with diagnostics } := by
  obtain ⟨splits, nodes, taken, created⟩ :=
    Parser.nodesOf_taken ⟨fileId, commands, endOf tokens fileId⟩ (contentOf tokens)
  have inside := isEndOfInput_of_splits splits fun token member => by
    simpa using List.mem_takeWhile_imp member
  have content := contentOf_concat inside (isEndOfInput_endOf tokens fileId)
  have last := endOf_concat inside (isEndOfInput_endOf tokens fileId) fileId
  have start := start_of_splits splits (endOf tokens fileId)
  refine ⟨(ofTokens (ofTokens tokens source fileId commands).tokens source fileId
    commands).diagnostics, ?_⟩
  simp only [ofTokens, content, last, nodes, taken, created, start]

end Document

end TexSource
