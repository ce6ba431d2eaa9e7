import TexSource.Proofs.Expansion.NewCommands
import TexSource.Proofs.Expansion.Printed

/-!
# A parameter character before the body

A parameter character between the parameter text of a definition and the brace that opens its body
does nothing: the macro is the one that the same definition without it defines. So if the
parameter text ends in a parameter, this has no delimiter. Its argument is a group, without the
braces, or a single token (`Scan.Gives`); the tokens behind this, and a brace that may follow them,
are left where they are.
-/

namespace TexSource

namespace Expansion

namespace Scan

/-- What stands in the place of an argument fits a parameter with a delimiter, possibly an empty
one. Without a delimiter it is a group or a token that is no brace, and blanks and comments may
stand in front of it. -/
inductive Gives : (stop : List Token) → Supply → Prop where
  | delimited {stop : List Token} {supply : Supply} (delimits : stop ≠ [])
      (supplies : Supplies stop supply) : Gives stop supply
  | group {supply : Supply} (group : Grouped supply) : Gives [] supply
  | single {gap : List Token} {token : Token}
      (skipped : ∀ token ∈ gap, isSkipped false token = true)
      (significant : isSkipped false token = false) (noBrace : token.isBrace = false) :
      Gives [] ⟨gap ++ [token], [token]⟩

theorem takes_of_gives {stop : List Token} {supply : Supply}
    (plain : ∀ token ∈ stop, token.isBrace = false) (gives : Gives stop supply) (name : Text)
    (use : Token) : Takes name use (Macro.parameterBefore stop) supply := by
  cases gives with
  | delimited _ supplies => exact takes_of_supplies plain supplies name use
  | group group => exact takes_of_grouped group name use
  | @single gap token skipped significant noBrace =>
    intro rest
    obtain ⟨noOpener, noCloser⟩ := Token.isBrace_eq_false_iff.mp noBrace
    rw [← List.append_nil (gap ++ [token])]
    refine Consumes.bind (consumes_pastSkipped skipped significant _) ?_
    simp only [noOpener, noCloser, Bool.false_eq_true, if_false]
    exact .pure _ _

/-- Without a delimiter, tokens that are no braces are an argument as they stand only if there is
one of them. -/
theorem gives_front_iff {front : List Token} (plain : ∀ token ∈ front, token.isBrace = false) :
    Gives [] ⟨front, front⟩ ↔ ∃ token, front = [token] ∧ isSkipped false token = false := by
  constructor
  · generalize written : Supply.mk front front = supply
    intro gives
    cases gives with
    | delimited delimits => exact absurd rfl delimits
    | group group =>
      cases group with
      | @intro gap argument opener _ _ opens =>
        obtain ⟨rfl, -⟩ := Supply.mk.inj written
        have noBrace := plain opener (by simp)
        simp [Token.isBrace, opens] at noBrace
    | @single gap token skipped significant noBrace =>
      obtain ⟨-, rfl⟩ := Supply.mk.inj written
      exact ⟨token, rfl, significant⟩
  · rintro ⟨token, rfl, significant⟩
    rw [List.forall_mem_singleton] at plain
    exact .single (List.forall_mem_nil _) significant plain

end Scan

namespace Branch

variable {settings : Settings} {site : Site} {nested : Nested} {before : Branch}

/-- Uses of a macro are replaced by a body, whatever way their arguments are written in: the body
with the arguments filled in is read next, and behind it what stands behind the last argument. -/
def Substitutes (settings : Settings) (site : Site) (nested : Nested) (definition : Macro)
    (text : Macro.ParameterText) (body : List Token) : Prop :=
  ∀ ⦃before : Branch⦄ ⦃use : Token⦄ ⦃spelled rest : List Token⦄ ⦃supplies : List Scan.Supply⦄,
    before.Expands → before.MayCall settings.limits → before.meaning? use = some definition →
    Token.Match spelled text.literal → List.Forall₂ Scan.Gives text.stops supplies →
    before.stream.tokens = use :: spelled ++ supplies.flatMap Scan.Supply.written ++ rest →
    ∃ after filled, Reads settings site nested before after ∧ after.output = before.output ∧
      after.shared = before.shared ∧
      Macro.Filled (supplies.map Scan.Supply.argument) body filled ∧
      after.stream.tokens = filled ++ rest

theorem substitutes_toMacro (settings : Settings) (site : Site) (nested : Nested)
    (text : Macro.ParameterText) (name : Text) (body : List Token) (isGlobal : Bool) :
    Substitutes settings site nested (text.toMacro name body isGlobal) text body := by
  intro before use spelled rest supplies expands mayCall meaning same gives ahead
  have takes : List.Forall₂ (Scan.Takes (text.toMacro name body isGlobal).name use)
      (text.toMacro name body isGlobal).parameters supplies :=
    Scan.forall₂_takes (fun plain fits => Scan.takes_of_gives plain fits name use)
      text.isBrace_of_mem_stops gives
  obtain ⟨stream, left, reads⟩ := reads_use_of_consumes expands mayCall meaning
    (Scan.consumes_invocation same takes rest) ahead
  refine ⟨_, _, reads, rfl, rfl, Macro.filled_substitute body, ?_⟩
  rw [Stream.tokens_pushCall, left]
  rfl

/-- **A parameter character before the body.** The definition leaves nothing in the output, and
its name means the macro that it would mean without this character. So a parameter at the end of the
parameter text takes all that stands before a brace only if this is a single token. -/
theorem exists_substitutes {definer name mark opener closer : Token} {word : Text}
    {isGlobal : Bool} {body rest : List Token} (expands : before.Expands)
    (isWord : definer.kind = .controlWord word) (defines : Scan.definer? word = some isGlobal)
    (unbound : before.shared.scope.lookup word = none) (definable : name.isDefinable = true)
    (text : Macro.ParameterText) (isMark : mark.isParameter = true)
    (opens : opener.isBeginGroup = true) (balanced : Token.Balanced body)
    (closes : closer.isEndGroup = true)
    (ahead : before.stream.tokens =
      definer :: name :: (text.tokens ++ [mark]) ++ opener :: body ++ closer :: rest) :
    ∃ after, Reads settings site nested before after ∧ after.output = before.output ∧
      after.stream.tokens = rest ∧ after.Expands ∧
      (before.MayCall settings.limits → after.MayCall settings.limits) ∧
      (∀ use : Token, use.kind = name.kind →
        after.meaning? use = some (text.toMacro name.macroName body isGlobal)) ∧
      Substitutes settings site nested (text.toMacro name.macroName body isGlobal) text body ∧
      ∀ front : List Token, (∀ token ∈ front, token.isBrace = false) →
        (Scan.Gives [] ⟨front, front⟩ ↔
          ∃ token, front = [token] ∧ Scan.isSkipped false token = false) := by
  have unopened : ∀ token ∈ text.tokens ++ [mark], token.isBeginGroup = false := by
    rw [List.forall_mem_append, List.forall_mem_singleton]
    exact ⟨text.isBeginGroup_of_mem, Token.isBeginGroup_of_isParameter isMark⟩
  obtain ⟨stream, left, fewer, reads⟩ := reads_definition expands isWord defines unbound definable
    unopened opens balanced closes ahead
  rw [text.ofParameterText_append _ (by simp [Macro.splitParameterText, isMark])] at reads
  exact ⟨_, reads, rfl, left, ⟨expands.running, expands.code⟩,
    fun mayCall => mayCall.of_calls_le rfl fewer,
    fun use same => meaning?_define definable same rfl,
    substitutes_toMacro settings site nested text name.macroName body isGlobal,
    fun _ plain => Scan.gives_front_iff plain⟩

def parameterMark : Token :=
  .ofKind (.parameter (.char '#'))

/-- The parameter text of `\def\m#1`. -/
def oneParameter : Macro.ParameterText where
  literal := []
  slots := [⟨parameterMark, .ofChar '1', [], rfl, List.forall_mem_nil _⟩]
  plain := List.forall_mem_nil _
  numbered := rfl

/-- A branch that has to read `\def\m#1#{[#1##]}\m ab{d}`, without the blank. -/
def braceMarkStart : Branch where
  stream := .ofTokens <|
    .ofKind (.controlWord "def") :: .ofKind (.controlWord "m") ::
      (oneParameter.tokens ++ [parameterMark]) ++
      .ofKind (.beginGroup (.char '\x7b')) :: bracketed ++ .ofKind (.endGroup (.char '\x7d')) ::
      (.ofKind (.controlWord "m") :: [] ++ [.ofChar 'a'] ++
        [.ofChar 'b', .ofKind (.beginGroup (.char '\x7b')), .ofChar 'd',
          .ofKind (.endGroup (.char '\x7d'))])
  steps := 0
  aborted := false
  verbatim := none
  output := #[]
  inclusions := #[]
  shared := ⟨Scope.empty, .empty noFiles.currentDirectory, #[], []⟩

theorem exists_substitutes_oneParameter :
    ∃ first second : Branch,
      Reads ⟨noFiles, {}, .standard⟩ ⟨0, [0], 0⟩ none braceMarkStart first ∧
      Reads ⟨noFiles, {}, .standard⟩ ⟨0, [0], 0⟩ none first second ∧ second.output = #[] ∧
      second.stream.tokens.map Token.kind =
        [.character (.char '[') .other, .character (.char 'a') .other, .parameter (.char '#'),
          .character (.char ']') .other, .character (.char 'b') .other,
          .beginGroup (.char '\x7b'), .character (.char 'd') .other, .endGroup (.char '\x7d')] := by
  have expands : braceMarkStart.Expands := ⟨rfl, rfl⟩
  have balanced : Token.Balanced bracketed := by decide
  obtain ⟨first, reads, quiet, ahead, expands, mayCall, means, substitutes, -⟩ :=
    exists_substitutes expands rfl rfl rfl rfl oneParameter rfl rfl balanced rfl
      (Stream.tokens_ofTokens _)
  have limits : braceMarkStart.MayCall (Settings.limits ⟨noFiles, {}, .standard⟩) :=
    ⟨10000, 64, rfl, rfl, by decide, by decide⟩
  have gives : List.Forall₂ Scan.Gives oneParameter.stops [⟨[.ofChar 'a'], [.ofChar 'a']⟩] :=
    .cons ((Scan.gives_front_iff (by decide)).mpr ⟨_, rfl, rfl⟩) .nil
  obtain ⟨second, filled, uses, same, -, fills, left⟩ :=
    substitutes expands (mayCall limits) (means _ rfl) .nil gives ahead
  rw [Macro.filled_iff.mp fills] at left
  refine ⟨first, second, reads, uses, same.trans quiet, ?_⟩
  rw [left]
  decide

end Branch

/-- A use in which three tokens stand before the brace that the parameter character announces. -/
def braceMarked : Text := "\\def\\m#1#\x7b[#1]\x7d\\m abc\x7bd\x7d"

/-- The argument is the first of them. -/
theorem sourceText_braceMarked :
    ∃ document expanded reports, Document.parse braceMarked .standard .standard 0 = .ok document ∧
      (expand defaults document Scope.empty noTable).outcome = .ok (expanded, reports) ∧
      expanded.sourceText = "[a]bc\x7bd\x7d" ∧ expanded.sourceText ≠ "[abc]\x7bd\x7d" := by
  obtain ⟨document, expanded, reports, parsed, done, passes⟩ :=
    exists_expansion braceMarked 20
      (fun expanded => decide (expanded.sourceText = "[a]bc\x7bd\x7d")) (by decide +kernel)
  have printed := of_decide_eq_true passes
  refine ⟨document, expanded, reports, parsed, done, printed, ?_⟩
  rw [printed]
  decide

end Expansion

end TexSource
