import TexSource.Proofs.Expansion.Nesting
import TexSource.Proofs.Expansion.Replacement
import TexSource.Proofs.Expansion.Restoring

/-!
# Constructs that come to nothing

A branch gives a construct up (`Branch.GivesUp`) where the tokens behind its first one do not have
the shape that it needs, or a limit refuses the use of a macro. However far the branch looked ahead
before it found out, it then goes on behind the first token as if it had not looked
(`Branch.LosesNothing`). A construct that is not given up is carried out (`Branch.CarriesOut`).
-/

namespace TexSource

namespace Expansion

namespace Branch

variable {settings : Settings} {site : Site} {nested : Nested} {before branch after : Branch}
  {token : Token} {word : Text}

/-- A token is a control word without a meaning as a macro. -/
structure Primitive (branch : Branch) (token : Token) (word : Text) : Prop where
  isWord : token.kind = .controlWord word
  unbound : branch.shared.scope.lookup word = none

/-- A construct comes to nothing. -/
inductive GivesUp (settings : Settings) (branch : Branch) (first : Token) : Prop where
  | definition {word : Text} {isGlobal : Bool} (primitive : branch.Primitive first word)
      (defines : Scan.definer? word = some isGlobal)
      (misshapen : (branch.attempt (Scan.definition isGlobal)).1 = none)
  | letBinding (primitive : branch.Primitive first "let")
      (misshapen : (branch.attempt (Scan.letBinding branch.shared.scope false)).1 = none)
  | marked {word : Text} (primitive : branch.Primitive first word)
      (marks : Scan.isDefinitionMark word = true)
      (misshapen :
        (branch.attempt (Scan.marked branch.shared.scope (word = "global"))).1 = .givenUp)
  | newCommand {word : Text} (primitive : branch.Primitive first word)
      (defines : isNewCommandWord word = true)
      (misshapen : (branch.attempt Scan.newCommand).1 = .ok none)
  | inclusion {word : Text} (primitive : branch.Primitive first word)
      (includes : isInclusionWord word = true)
      (misshapen : (branch.attempt Scan.inclusion).1 = none)
  /-- No name of an environment follows, or one that is not verbatim. -/
  | environment (primitive : branch.Primitive first "begin")
      (other : (branch.attempt Scan.environmentName).1.filter settings.commands.isVerbatim = none)
  | use {definition : Macro} {problem : Problem} (meaning : branch.meaning? first = some definition)
      (admitted : branch.admission settings.limits = some .admitted)
      (misshapen : (branch.attempt (Scan.invocation definition first)).1 = .error problem)
  | refused {definition : Macro} {stand : Admission}
      (meaning : branch.meaning? first = some definition)
      (stands : branch.admission settings.limits = some stand) (refused : stand ≠ .admitted)

/-- The first token of a construct is written, and the tokens behind it are read next. No macro is
defined, no file looked for, and no replacement read. -/
structure LosesNothing (before : Branch) (first : Token) (rest : List Token) (after : Branch) :
    Prop where
  output : after.output = before.output.push first
  ahead : after.stream.tokens = rest
  scope : after.shared.scope = before.shared.scope
  table : after.shared.table = before.shared.table
  reportedFiles : after.shared.reportedFiles = before.shared.reportedFiles
  inclusions : after.inclusions = before.inclusions
  verbatim : after.verbatim = before.verbatim

theorem obey_of_isDefinitionMark (marks : Scan.isDefinitionMark word = true) :
    branch.obey settings site nested token word =
      .ok (branch.defineMarked token (word = "global")) := by
  rw [obey, if_pos marks]

/-- The first token of a construct is written, and where tokens behind it were read, by a scan with
a property, those consumed are put back. -/
structure PutsBack (property : {Result : Type} → Scan Result → Prop) (before : Branch)
    (first : Token) (after : Branch) : Prop where
  output : after.output = before.output.push first
  stream : after.stream = before.stream ∨ ∃ (Result : Type) (scan : Scan Result), property scan ∧
    after.stream = (before.attempt scan).2.2.stream.push (before.attempt scan).2.1
  scope : after.shared.scope = before.shared.scope
  table : after.shared.table = before.shared.table
  reportedFiles : after.shared.reportedFiles = before.shared.reportedFiles
  inclusions : after.inclusions = before.inclusions
  verbatim : after.verbatim = before.verbatim

section

variable {property : {Result : Type} → Scan Result → Prop}

theorem putsBack_giveUp {Result : Type} (branch : Branch) {scan : Scan Result}
    (holds : property scan) (first : Token) :
    PutsBack property branch first
      ((branch.attempt scan).2.2.giveUp first (branch.attempt scan).2.1) where
  output := Array.push_eq_append.symm
  stream := .inr ⟨_, scan, holds, rfl⟩
  scope := rfl
  table := rfl
  reportedFiles := rfl
  inclusions := rfl
  verbatim := rfl

theorem putsBack_call {use : Token} {definition : Macro} {problem : Problem}
    (holds : property (Scan.invocation definition use))
    (misshapen : (branch.attempt (Scan.invocation definition use)).1 = .error problem) :
    PutsBack property branch use (branch.call use definition) := by
  have counted := putsBack_giveUp { branch with steps := branch.steps + 1 } holds use
  have misshapen : ({ branch with steps := branch.steps + 1 }.attempt
    (Scan.invocation definition use)).1 = .error problem := misshapen
  unfold call
  dsimp only
  rw [misshapen]
  exact ⟨counted.output, counted.stream, rfl, rfl, rfl, rfl, rfl⟩

/-- A use of a macro that a limit refuses is written. -/
theorem putsBack_invoke {limits : Limits} {use : Token} {definition : Macro}
    {stand : Admission} (stands : branch.admission limits = some stand)
    (refused : stand ≠ .admitted) :
    ∃ after, branch.invoke limits use definition = .ok after ∧
      PutsBack property branch use after := by
  rw [invoke, stands]
  have written : branch.output ++ [use] = branch.output.push use := Array.push_eq_append.symm
  cases stand with
  | stepLimitReached maxSteps => exact ⟨_, rfl, written, .inl rfl, rfl, rfl, rfl, rfl, rfl⟩
  | callLimitExceeded maxDepth => exact ⟨_, rfl, written, .inl rfl, rfl, rfl, rfl, rfl, rfl⟩
  | admitted => exact absurd rfl refused

/-- Where a construct comes to nothing, the tokens that a scan consumed are put back. -/
theorem putsBack_step (composes : Scan.Composes property) {first : Token}
    (expands : branch.Expands) (givesUp : branch.GivesUp settings first) :
    ∃ after, branch.step settings site nested first = .ok after ∧
      PutsBack property branch first after := by
  cases givesUp with
  | @definition word isGlobal primitive defines misshapen =>
    refine ⟨_, ?_, putsBack_giveUp branch (composes.definition isGlobal) first⟩
    rw [step_of_word expands primitive.isWord primitive.unbound, obey_of_definer defines, defineBy]
    dsimp only
    rw [misshapen]
    rfl
  | letBinding primitive misshapen =>
    have holds := composes.letBinding branch.shared.scope false
    refine ⟨_, ?_, putsBack_giveUp branch holds first⟩
    rw [step_of_word expands primitive.isWord primitive.unbound]
    change Except.ok (branch.defineBy first _) = _
    rw [defineBy]
    dsimp only
    rw [misshapen]
    rfl
  | @marked word primitive marks misshapen =>
    have holds := composes.marked branch.shared.scope (word = "global")
    refine ⟨_, ?_, putsBack_giveUp branch holds first⟩
    rw [step_of_word expands primitive.isWord primitive.unbound, obey_of_isDefinitionMark marks,
      defineMarked]
    dsimp only
    rw [misshapen]
  | newCommand primitive defines misshapen =>
    refine ⟨_, ?_, putsBack_giveUp branch composes.newCommand first⟩
    rw [step_of_word expands primitive.isWord primitive.unbound, obey_of_isNewCommandWord defines,
      defineNewCommand]
    dsimp only
    rw [misshapen]
  | inclusion primitive includes misshapen =>
    refine ⟨_, ?_, putsBack_giveUp branch composes.inclusion first⟩
    rw [step_of_word expands primitive.isWord primitive.unbound, obey_of_isInclusionWord includes,
      followDirective]
    dsimp only
    rw [misshapen]
  | environment primitive other =>
    refine ⟨_, ?_, putsBack_giveUp branch composes.environmentName first⟩
    rw [step_of_word expands primitive.isWord primitive.unbound]
    change Except.ok (branch.beginEnvironment settings.commands first) = _
    rw [beginEnvironment]
    dsimp only
    rw [other]
  | @use definition problem meaning admitted misshapen =>
    refine ⟨_, ?_, putsBack_call (composes.invocation definition first) misshapen⟩
    rw [step_of_meaning expands meaning, invoke, admitted]
  | refused meaning stands refused =>
    rw [step_of_meaning expands meaning]
    exact putsBack_invoke stands refused

end

/-- However much a scan consumed, it is read again where the construct is given up. -/
theorem losesNothing_step {first : Token} (expands : branch.Expands)
    (givesUp : branch.GivesUp settings first) :
    ∃ after, branch.step settings site nested first = .ok after ∧
      LosesNothing branch first branch.stream.tokens after := by
  obtain ⟨after, done, back⟩ := putsBack_step Scan.composes_restores expands givesUp
  have ahead : after.stream.tokens = branch.stream.tokens := by
    rcases back.stream with same | ⟨_, scan, restores, same⟩
    · rw [same]
    · rw [same]
      exact tokens_giveUp_attempt branch restores first
  exact ⟨after, done, back.output, ahead, back.scope, back.table, back.reportedFiles,
    back.inclusions, back.verbatim⟩

/-- **A construct that is given up loses nothing.** -/
theorem exists_losesNothing {first : Token} {rest : List Token} (expands : before.Expands)
    (ahead : before.stream.tokens = first :: rest)
    (givesUp : GivesUp settings { before with stream := before.stream.next.2 } first) :
    ∃ after, Reads settings site nested before after ∧ LosesNothing before first rest after := by
  obtain ⟨behind, found, left⟩ := exists_next ahead
  rw [found] at givesUp
  have same : { before with stream := behind }.Expands := ⟨expands.running, expands.code⟩
  obtain ⟨after, done, nothing⟩ := losesNothing_step same givesUp
  exact ⟨after, ⟨first, behind, found, done⟩, nothing.output, nothing.ahead.trans left,
    nothing.scope, nothing.table, nothing.reportedFiles, nothing.inclusions, nothing.verbatim⟩

/-- A branch that has to read `\newcommand*{\a} [1][\x7b`, where the default ends nowhere. -/
def openDefault : Branch where
  stream := .ofTokens
    [.ofKind (.controlWord "newcommand"), .ofChar '*', .ofKind (.beginGroup (.char '\x7b')),
      .ofKind (.controlWord "a"), .ofKind (.endGroup (.char '\x7d')), .ofKind .space,
      .ofChar '[', .ofChar '1', .ofChar ']', .ofChar '[', .ofKind (.beginGroup (.char '\x7b'))]
  steps := 0
  aborted := false
  verbatim := none
  output := #[]
  inclusions := #[]
  shared := ⟨Scope.empty, .empty noFiles.currentDirectory, #[], []⟩

/-- All that is read up to the end of the input is read again. -/
theorem exists_losesNothing_openDefault :
    ∃ after : Branch,
      Reads ⟨noFiles, {}, .standard⟩ ⟨0, [0], 0⟩ none openDefault after ∧
      after.output = #[.ofKind (.controlWord "newcommand")] ∧
      after.stream.tokens = openDefault.stream.tokens.tail ∧
      after.shared.scope = Scope.empty := by
  have givesUp : GivesUp ⟨noFiles, {}, .standard⟩
      { openDefault with stream := openDefault.stream.next.2 }
      (.ofKind (.controlWord "newcommand")) := .newCommand ⟨rfl, rfl⟩ rfl rfl
  obtain ⟨after, reads, nothing⟩ := exists_losesNothing ⟨rfl, rfl⟩ rfl givesUp
  exact ⟨after, reads, nothing.output, nothing.ahead, nothing.scope⟩

/-- A control word starts a construct where it is not bound as a macro. -/
def isConstructWord (word : Text) : Bool :=
  Scan.isDefinitionMark word || (Scan.definer? word).isSome || word = "let" ||
    isNewCommandWord word || isInclusionWord word || word = "begin"

/-- A construct comes to something. -/
inductive CarriesOut (before : Branch) (first : Token) (after : Branch) : Prop where
  | defines {definition : Macro}
      (scope : after.shared.scope = before.shared.scope.define definition)
      (output : after.output = before.output)
  /-- A command that is only provided has a meaning already. -/
  | provided {definition : Macro} (bound : before.shared.scope.binds definition.name = true)
      (scope : after.shared.scope = before.shared.scope) (output : after.output = before.output)
  /-- Marks without a definer are written with what was consumed behind them. -/
  | marks {consumed : List Token} (ahead : before.stream.tokens = consumed ++ after.stream.tokens)
      (output : after.output = before.output ++ first :: consumed)
  | follows {directive : Scan.Directive}
    (found : (before.attempt Scan.inclusion).1 = some directive)
      (ticket : Option Nat) (output : after.output =
        before.output ++ Scan.enclosed { first with ticket } directive.tokens)
  | enters {name : Text} {consumed : List Token} (verbatim : after.verbatim = some name)
      (ahead : before.stream.tokens = consumed ++ after.stream.tokens)
      (output : after.output = before.output ++ first :: consumed)
  | calls {name : Text} {replacement : List Token} {stream : Stream}
      (pushed : after.stream = stream.pushCall name replacement)
      (output : after.output = before.output)

theorem givesUp_or_carriesOut_invoke {definition : Macro}
    (meaning : before.meaning? token = some definition)
    (done : before.invoke settings.limits token definition = .ok after) :
    GivesUp settings before token ∨ CarriesOut before token after := by
  unfold invoke at done
  cases stands : before.admission settings.limits with
  | none =>
    rw [stands] at done
    cases done
  | some stand =>
    by_cases admitted : stand = .admitted
    · subst admitted
      rw [stands] at done
      cases done
      cases outcome : (before.attempt (Scan.invocation definition token)).1 with
      | error problem => exact .inl (.use meaning stands outcome)
      | ok arguments =>
        have outcome : ({ before with steps := before.steps + 1 }.attempt
          (Scan.invocation definition token)).1 = .ok arguments := outcome
        refine .inr ?_
        unfold call
        dsimp only
        rw [outcome]
        exact .calls rfl rfl
    · exact .inl (.refused meaning stands admitted)

theorem carriesOut_defineBy {first : Token} {scan : Scan (Option Macro)} {definition : Macro}
    (found : (before.attempt scan).1 = some definition) :
    CarriesOut before first (before.defineBy first scan) := by
  unfold defineBy
  dsimp only
  rw [found]
  exact .defines rfl rfl

theorem givesUp_or_carriesOut_defineMarked (primitive : before.Primitive token word)
    (marks : Scan.isDefinitionMark word = true) :
    GivesUp settings before token ∨
      CarriesOut before token (before.defineMarked token (word = "global")) := by
  have restores := Scan.composes_restores.marked before.shared.scope (word = "global")
  cases outcome : (before.attempt (Scan.marked before.shared.scope (word = "global"))).1 with
  | givenUp => exact .inl (.marked primitive marks outcome)
  | defines definition =>
    refine .inr ?_
    unfold defineMarked
    dsimp only
    rw [outcome]
    exact .defines rfl rfl
  | notOurs =>
    refine .inr ?_
    unfold defineMarked
    dsimp only
    rw [outcome]
    exact .marks (tokens_attempt before restores) rfl

theorem givesUp_or_carriesOut_defineNewCommand (primitive : before.Primitive token word)
    (defines : isNewCommandWord word = true)
    (done : before.defineNewCommand token word = .ok after) :
    GivesUp settings before token ∨ CarriesOut before token after := by
  unfold defineNewCommand at done
  dsimp only at done
  split at done
  · cases done
  · exact .inl (.newCommand primitive defines ‹_›)
  · split at done
    · rename_i provided
      cases done
      exact .inr (.provided (Bool.and_eq_true_iff.mp provided).2 rfl rfl)
    · cases done
      exact .inr (.defines rfl rfl)

theorem givesUp_or_carriesOut_followDirective (primitive : before.Primitive token word)
    (includes : isInclusionWord word = true)
    (done : before.followDirective settings site nested token = .ok after) :
    GivesUp settings before token ∨ CarriesOut before token after := by
  unfold followDirective at done
  dsimp only at done
  split at done
  · exact .inl (.inclusion primitive includes ‹_›)
  · rename_i directive found
    cases loaded : load settings site nested directive.name token.span
        (before.attempt Scan.inclusion).2.2.shared with
    | error abort =>
      rw [loaded] at done
      cases done
    | ok result =>
      rw [loaded] at done
      cases done
      exact .inr (.follows found _ rfl)

theorem givesUp_or_carriesOut_beginEnvironment (primitive : before.Primitive token "begin") :
    GivesUp settings before token ∨
      CarriesOut before token (before.beginEnvironment settings.commands token) := by
  have restores := Scan.composes_restores.environmentName
  cases verbatim : (before.attempt Scan.environmentName).1.filter settings.commands.isVerbatim with
  | none => exact .inl (.environment primitive verbatim)
  | some name =>
    refine .inr ?_
    unfold beginEnvironment
    dsimp only
    rw [verbatim]
    exact .enters rfl (tokens_attempt before restores) rfl

/-- **A construct is given up or carried out.** -/
theorem givesUp_or_carriesOut (expands : before.Expands)
    (starts : (before.meaning? token).isSome = true ∨
      ∃ word, before.Primitive token word ∧ isConstructWord word = true)
    (done : before.step settings site nested token = .ok after) :
    GivesUp settings before token ∨ CarriesOut before token after := by
  rcases starts with means | ⟨word, primitive, constructs⟩
  · obtain ⟨definition, meaning⟩ := Option.isSome_iff_exists.mp means
    rw [step_of_meaning expands meaning] at done
    exact givesUp_or_carriesOut_invoke meaning done
  rw [step_of_word expands primitive.isWord primitive.unbound] at done
  by_cases marks : Scan.isDefinitionMark word = true
  · rw [obey_of_isDefinitionMark marks] at done
    cases done
    exact givesUp_or_carriesOut_defineMarked primitive marks
  cases defines : Scan.definer? word with
  | some isGlobal =>
    rw [obey_of_definer defines] at done
    cases done
    cases outcome : (before.attempt (Scan.definition isGlobal)).1 with
    | none => exact .inl (.definition primitive defines outcome)
    | some definition => exact .inr (carriesOut_defineBy outcome)
  | none =>
    by_cases binding : word = "let"
    · subst binding
      cases done
      cases outcome : (before.attempt (Scan.letBinding before.shared.scope false)).1 with
      | none => exact .inl (.letBinding primitive outcome)
      | some definition => exact .inr (carriesOut_defineBy outcome)
    by_cases newCommand : isNewCommandWord word = true
    · rw [obey_of_isNewCommandWord newCommand] at done
      exact givesUp_or_carriesOut_defineNewCommand primitive newCommand done
    by_cases includes : isInclusionWord word = true
    · rw [obey_of_isInclusionWord includes] at done
      exact givesUp_or_carriesOut_followDirective primitive includes done
    have begins : word = "begin" := by
      simpa [isConstructWord, marks, defines, binding, newCommand, includes] using constructs
    subst begins
    cases done
    exact givesUp_or_carriesOut_beginEnvironment primitive

end Branch

end Expansion

end TexSource
