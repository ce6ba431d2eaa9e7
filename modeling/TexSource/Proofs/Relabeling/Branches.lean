import TexSource.Proofs.Expansion.Directives
import TexSource.Proofs.Relabeling.Parser
import TexSource.Proofs.Relabeling.Scans

/-!
# Branches with new numbers for files

What a branch does at a token does not depend on the numbers of files (`Branch.step_relabel`), nor
on the file table, save where it follows an inclusion directive. So the file table is left out where
files get new numbers.
-/

namespace TexSource

namespace Expansion

variable {relabeling : Relabeling}

section

variable (relabeling)

/-- New numbers for files, of which no table is kept. -/
def Shared.relabel (shared : Shared) : Shared where
  scope := shared.scope.relabel relabeling
  table := FileTable.empty ⟨.slash, []⟩
  diagnostics := shared.diagnostics.map (Diagnostic.relabel relabeling)
  reportedFiles := shared.reportedFiles.map relabeling.file

/-- An abort with its file ids renamed. -/
def Abort.relabel (abort : Abort) : Abort :=
  { abort with shared := abort.shared.relabel relabeling }

/-- A branch with its file ids renamed. -/
def Branch.relabel (branch : Branch) : Branch :=
  { branch with
    stream := branch.stream.relabel relabeling
    output := branch.output.map (Token.relabel relabeling)
    inclusions := branch.inclusions.map (Inclusion.relabel relabeling)
    shared := branch.shared.relabel relabeling }

/-- New numbers in a result, or in what a failure leaves behind. -/
def relabelOutcome {Result Renamed : Type} (rename : Result → Renamed) :
    Except Abort Result → Except Abort Renamed
  | .error abort => .error (abort.relabel relabeling)
  | .ok result => .ok (rename result)

end

namespace Branch

variable (branch : Branch)

theorem write_relabel (tokens : List Token) :
    (branch.relabel relabeling).write (tokens.map (Token.relabel relabeling)) =
      (branch.write tokens).relabel relabeling := by
  simp [write, relabel, map_appendList]

theorem write_relabel_cons (token : Token) (tokens : List Token) :
    (branch.relabel relabeling).write
        (token.relabel relabeling :: tokens.map (Token.relabel relabeling)) =
      (branch.write (token :: tokens)).relabel relabeling :=
  branch.write_relabel (token :: tokens)

theorem write_relabel_singleton (token : Token) :
    (branch.relabel relabeling).write [token.relabel relabeling] =
      (branch.write [token]).relabel relabeling :=
  branch.write_relabel [token]

/-- A report is added alike. -/
theorem report_relabel (problem : Problem) (span : Span) :
    (branch.relabel relabeling).report problem (span.relabel relabeling) =
      (branch.report problem span).relabel relabeling := by
  simp [report, relabel, Shared.relabel]

theorem withScope_relabel {change : Scope → Scope} {renamed : Scope → Scope}
    (natural : renamed (branch.shared.scope.relabel relabeling) =
      (change branch.shared.scope).relabel relabeling) :
    (branch.relabel relabeling).withScope renamed =
      (branch.withScope change).relabel relabeling := by
  simp [withScope, relabel, Shared.relabel, natural]

theorem define_relabel (definition : Macro) :
    (branch.relabel relabeling).withScope (·.define (definition.relabel relabeling)) =
      (branch.withScope (·.define definition)).relabel relabeling :=
  branch.withScope_relabel (Scope.define_relabel _ definition)

/-- A scan is attempted alike, and what it consumed is the same. -/
theorem attempt_relabel {Result : Type} {rename : Result → Result} {scan renamed : Scan Result}
    (natural : Scan.Natural relabeling rename scan renamed) :
    (branch.relabel relabeling).attempt renamed =
      (rename (branch.attempt scan).1,
        (branch.attempt scan).2.1.map (Token.relabel relabeling),
        (branch.attempt scan).2.2.relabel relabeling) := by
  have read := natural.apply ⟨branch.stream, [], #[]⟩
  simp only [Scanner.relabel, List.map_nil, Array.map_empty] at read
  have front : (branch.relabel relabeling).stream = branch.stream.relabel relabeling := rfl
  unfold attempt
  rw [front, read]
  generalize scan ⟨branch.stream, [], #[]⟩ = outcome
  obtain ⟨result, scanner⟩ := outcome
  simp [relabel, Shared.relabel]

/-- A construct is given up alike. -/
theorem giveUp_relabel (first : Token) (consumed : List Token) :
    (branch.relabel relabeling).giveUp (first.relabel relabeling)
        (consumed.map (Token.relabel relabeling)) =
      (branch.giveUp first consumed).relabel relabeling := by
  unfold giveUp
  rw [write_relabel_singleton]
  have front : (branch.relabel relabeling).stream = branch.stream.relabel relabeling := rfl
  rw [front, Stream.push_relabel]
  rfl

/-- A definition is carried out alike. -/
theorem defineBy_relabel (first : Token) {scan renamed : Scan (Option Macro)}
    (natural : Scan.Natural relabeling (Scan.relabelDefinition relabeling) scan renamed) :
    (branch.relabel relabeling).defineBy (first.relabel relabeling) renamed =
      (branch.defineBy first scan).relabel relabeling := by
  unfold defineBy
  rw [attempt_relabel branch natural]
  dsimp only
  cases (branch.attempt scan).1 with
  | none => exact giveUp_relabel ..
  | some definition => exact define_relabel ..

theorem defineMarked_relabel (first : Token) (isGlobal : Bool) :
    (branch.relabel relabeling).defineMarked (first.relabel relabeling) isGlobal =
      (branch.defineMarked first isGlobal).relabel relabeling := by
  unfold defineMarked
  have front : (branch.relabel relabeling).shared.scope =
      branch.shared.scope.relabel relabeling := rfl
  rw [front, attempt_relabel branch (Scan.natural_marked _ isGlobal)]
  dsimp only
  cases (branch.attempt (Scan.marked branch.shared.scope isGlobal)).1 with
  | defines definition => exact define_relabel ..
  | givenUp => exact giveUp_relabel ..
  | notOurs => exact write_relabel_cons ..

theorem defineNewCommand_relabel (first : Token) (word : Text) :
    (branch.relabel relabeling).defineNewCommand (first.relabel relabeling) word =
      relabelOutcome relabeling (relabel relabeling)
        (branch.defineNewCommand first word) := by
  unfold defineNewCommand
  rw [attempt_relabel branch Scan.natural_newCommand]
  dsimp only
  rcases (branch.attempt Scan.newCommand).1 with error | _ | definition
  · rfl
  · exact congrArg Except.ok (giveUp_relabel ..)
  · dsimp only [Except.map, Option.map_some]
    have bound : ((branch.attempt Scan.newCommand).2.2.relabel relabeling).shared.scope.binds
        definition.name =
          (branch.attempt Scan.newCommand).2.2.shared.scope.binds definition.name :=
      Scope.binds_relabel ..
    rw [Macro.name_relabel, bound, define_relabel]
    split <;> rfl

/-- A macro is called alike. -/
theorem call_relabel (use : Token) (definition : Macro) :
    (branch.relabel relabeling).call (use.relabel relabeling)
        (definition.relabel relabeling) =
      (branch.call use definition).relabel relabeling := by
  unfold call
  have counted : ({ branch.relabel relabeling with
      steps := (branch.relabel relabeling).steps + 1 } : Branch) =
        relabel relabeling { branch with steps := branch.steps + 1 } := rfl
  rw [counted, attempt_relabel _ (Scan.natural_invocation definition use)]
  dsimp only
  generalize attempt { branch with steps := branch.steps + 1 } (Scan.invocation definition use) =
    outcome
  obtain ⟨problem | arguments, consumed, after⟩ := outcome
  · dsimp only [Except.map]
    rw [Token.span_relabel, report_relabel, giveUp_relabel]
  · dsimp only [Except.map]
    rw [Macro.replacement_relabel, Macro.substitute_relabel, Macro.name_relabel]
    have front : (after.relabel relabeling).stream = after.stream.relabel relabeling := rfl
    rw [front, Stream.pushCall_relabel]
    rfl

/-- A macro is invoked alike, within the same limits. -/
theorem invoke_relabel (limits : Limits) (use : Token) (definition : Macro) :
    (branch.relabel relabeling).invoke limits (use.relabel relabeling)
        (definition.relabel relabeling) =
      relabelOutcome relabeling (relabel relabeling)
        (branch.invoke limits use definition) := by
  have same : (branch.relabel relabeling).admission limits = branch.admission limits := rfl
  unfold invoke
  rw [same]
  rcases branch.admission limits with _ | ⟨maxSteps⟩ | ⟨maxDepth⟩ | _
  · rfl
  · dsimp only
    rw [Token.span_relabel, report_relabel, write_relabel_singleton]
    rfl
  · dsimp only
    rw [Token.span_relabel, report_relabel, write_relabel_singleton]
    rfl
  · exact congrArg Except.ok (call_relabel ..)

/-- An environment is begun alike. -/
theorem beginEnvironment_relabel (commands : CommandTable) (first : Token) :
    (branch.relabel relabeling).beginEnvironment commands (first.relabel relabeling) =
      (branch.beginEnvironment commands first).relabel relabeling := by
  unfold beginEnvironment
  rw [attempt_relabel branch Scan.natural_environmentName]
  dsimp only [id]
  cases (branch.attempt Scan.environmentName).1.filter commands.isVerbatim with
  | none => exact giveUp_relabel ..
  | some name =>
    dsimp only
    rw [write_relabel_cons]
    rfl

/-- A verbatim body is passed alike. -/
theorem passVerbatim_relabel (name : Text) (token : Token) :
    (branch.relabel relabeling).passVerbatim name (token.relabel relabeling) =
      (branch.passVerbatim name token).relabel relabeling := by
  unfold passVerbatim
  rw [Token.isControlWord_relabel, attempt_relabel branch Scan.natural_environmentName]
  dsimp only [id]
  rw [write_relabel_cons, write_relabel_singleton]
  split <;> rfl

theorem meaning?_relabel (token : Token) :
    (branch.relabel relabeling).meaning? (token.relabel relabeling) =
      (branch.meaning? token).map (Macro.relabel relabeling) := by
  have found : (branch.relabel relabeling).shared.scope.lookup token.macroName =
      (branch.shared.scope.lookup token.macroName).map (Macro.relabel relabeling) :=
    Scope.lookup_relabel ..
  unfold meaning?
  rw [Token.isDefinable_relabel, Token.macroName_relabel, found]
  split <;> rfl

/-- A branch in renamed files follows the same directives. -/
theorem follows?_relabel (token : Token) :
    (branch.relabel relabeling).follows? (token.relabel relabeling) =
      (branch.follows? token).map (Scan.Directive.relabel relabeling) := by
  have same : ((branch.relabel relabeling).aborted ||
      (branch.relabel relabeling).verbatim.isSome) =
        (branch.aborted || branch.verbatim.isSome) := rfl
  unfold follows?
  rw [meaning?_relabel, Option.isSome_map, same, Token.kind_relabel,
    attempt_relabel branch Scan.natural_inclusion]
  split
  · rfl
  · cases token.kind with
    | controlWord word =>
      dsimp only
      split <;> rfl
    | _ => rfl

variable {branch} {settings : Settings} {site other : Site} {nested otherNested : Nested}
  {token : Token}

/-- A control word is obeyed alike. -/
theorem obey_relabel {word : Text}
    (unfollowed : isInclusionWord word = true → (branch.attempt Scan.inclusion).1 = none) :
    (branch.relabel relabeling).obey settings other otherNested (token.relabel relabeling)
        word =
      relabelOutcome relabeling (relabel relabeling)
        (branch.obey settings site nested token word) := by
  unfold obey
  split
  · exact congrArg Except.ok (defineMarked_relabel ..)
  · split
    · exact congrArg Except.ok (defineBy_relabel _ _ (Scan.natural_definition _))
    · split
      · exact congrArg Except.ok (defineBy_relabel _ _ (Scan.natural_letBinding _ _))
      · split
        · exact defineNewCommand_relabel ..
        · split
          · rename_i includes
            unfold followDirective
            rw [attempt_relabel branch Scan.natural_inclusion]
            dsimp only
            rw [unfollowed includes]
            exact congrArg Except.ok (giveUp_relabel ..)
          · split
            · exact congrArg Except.ok (beginEnvironment_relabel ..)
            · exact congrArg Except.ok (write_relabel_singleton ..)

/-- **What a branch does at a token does not depend on the numbers of files**, nor on the file
table, if it does not follow a directive there. -/
theorem step_relabel (unfollowed : branch.follows? token = none)
    (base : other.baseDepth = site.baseDepth) :
    (branch.relabel relabeling).step settings other otherNested
        (token.relabel relabeling) =
      relabelOutcome relabeling (relabel relabeling)
        (branch.step settings site nested token) := by
  have aborted : (branch.relabel relabeling).aborted = branch.aborted := rfl
  have verbatim : (branch.relabel relabeling).verbatim = branch.verbatim := rfl
  unfold step
  rw [aborted, verbatim, meaning?_relabel, Token.kind_relabel]
  by_cases stopped : branch.aborted = true
  · rw [if_pos stopped, if_pos stopped]
    exact congrArg Except.ok (write_relabel_singleton ..)
  · rw [if_neg stopped, if_neg stopped]
    cases code : branch.verbatim with
    | some name => exact congrArg Except.ok (passVerbatim_relabel ..)
    | none =>
      dsimp only
      cases meaning : branch.meaning? token with
      | some definition => exact invoke_relabel ..
      | none =>
        dsimp only [Option.map_none]
        cases kind : token.kind with
        | beginGroup =>
          dsimp only
          rw [branch.withScope_relabel (Scope.push_relabel _), write_relabel_singleton]
          rfl
        | endGroup =>
          dsimp only
          have closed : ((branch.relabel relabeling).withScope fun scope =>
              if other.baseDepth < scope.depth then scope.pop else scope) =
              (branch.withScope fun scope =>
                if site.baseDepth < scope.depth then scope.pop else scope).relabel relabeling := by
            refine branch.withScope_relabel ?_
            rw [base, Scope.depth_relabel, Scope.pop_relabel]
            split <;> rfl
          rw [closed, write_relabel_singleton]
          rfl
        | controlWord word =>
          refine obey_relabel fun includes => ?_
          simpa [follows?, stopped, code, meaning, kind, includes] using unfollowed
        | _ => exact congrArg Except.ok (write_relabel_singleton ..)

theorem start_relabel (document : Document) (shared : Shared) :
    start (document.relabel relabeling) (shared.relabel relabeling) =
      (start document shared).relabel relabeling := by
  have content : ((document.relabel relabeling).tokens.filter fun token =>
      !token.isEndOfInput).map ({ · with ticket := none }) =
        ((document.tokens.filter fun token => !token.isEndOfInput).map
          ({ · with ticket := none })).map (Token.relabel relabeling) := by
    rw [Document.tokens_relabel, List.filter_map, List.map_map, List.map_map]
    rfl
  unfold start
  rw [content, Stream.ofTokens_relabel]
  simp [relabel]

/-- **The document that a branch leaves behind does not depend on the numbers of files**, save for
those numbers. -/
theorem relabel_result (commands : CommandTable) (document : Document) (branch : Branch) :
    (branch.result commands document).relabel relabeling =
      splice (branch.inclusions.map (Inclusion.relabel relabeling))
        { Document.ofTokens ((branch.output.toList.map (Token.relabel relabeling)) ++
            [{ kind := .endOfInput, raw := [],
               span := document.endOfInput.span.relabel relabeling }])
            document.source (relabeling.span document.fileId) commands with
          fileId := relabeling.file document.fileId } := by
  unfold result
  dsimp only
  rw [← splice_relabel, Document.relabel_ofTokens, List.map_append]
  rfl

end Branch

end Expansion

end TexSource
