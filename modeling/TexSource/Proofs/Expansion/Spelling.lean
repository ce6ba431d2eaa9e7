import TexSource.Proofs.Expansion.Balance
import TexSource.Proofs.Expansion.Copying

/-!
# Definitions with their braces in pairs

Whether a definition takes each brace with its counterpart can be read off its text
(`Scan.Spells`). One with a parameter text does if no closing brace stands in front of its body and
the body ends. A new command does if its body is a group or no brace, and the braces in its default
match. A copy of a meaning does if the meaning is not that of a brace. Where all definitions that
are carried out are spelled so, an expansion takes braces in pairs (`takesPairs_of_spells`).
-/

namespace TexSource

namespace Expansion

namespace Scan

/-- What stands behind a definer with a parameter text, or behind `\let`. Blanks and comments may
stand in front of the name. -/
inductive SpellsBehind : (word : Text) → (written : List Token) → Prop where
  | definition {word : Text} {name opener closer : Token} {gap parameterText body : List Token}
      {isGlobal : Bool} (defines : definer? word = some isGlobal)
      (skipped : ∀ token ∈ gap, isSkipped false token = true) (definable : name.isDefinable = true)
      (plain : ∀ token ∈ parameterText, token.isBrace = false)
      (opens : opener.isBeginGroup = true) (balanced : Token.Balanced body)
      (closes : closer.isEndGroup = true) :
      SpellsBehind word ((gap ++ [name]) ++ (parameterText ++ opener :: (body ++ [closer])))
  | copy {name source : Token} {gap sourced : List Token}
      (skipped : ∀ token ∈ gap, isSkipped false token = true) (definable : name.isDefinable = true)
      (sources : Sources source sourced) (plain : source.isBrace = false) :
      SpellsBehind "let" ((gap ++ [name]) ++ sourced)

/-- The body of a new command that takes no arguments, with the token it starts with and what
stands behind that. -/
inductive Bodies : (first : Token) → (body rest : List Token) → Prop where
  | single {token : Token} (plain : token.isBrace = false)
      (significant : isSkipped false token = false) (noBracket : token.isCharacter '[' = false) :
      Bodies token [token] []
  | group {opener closer : Token} {body : List Token} (opens : opener.isBeginGroup = true)
      (balanced : Token.Balanced body) (closes : closer.isEndGroup = true) :
      Bodies opener body (body ++ [closer])

/-- The tokens of a definition behind its first word, each brace with its counterpart. -/
inductive Spells (scope : Scope) : (word : Text) → (written : List Token) → Prop where
  | behind {word : Text} {written : List Token} (unmarked : isDefinitionMark word = false)
      (spells : SpellsBehind word written) : Spells scope word written
  | marked {word defining : Text} {marks written : List Token} {isGlobal : Bool} {definer : Token}
      (mark : isDefinitionMark word = true)
      (goes : Goes (markTest scope) (decide (word = "global")) marks isGlobal)
      (isWord : definer.kind = .controlWord defining) (unbound : scope.binds defining = false)
      (unmarked : isDefinitionMark defining = false) (spells : SpellsBehind defining written) :
      Spells scope word (marks ++ definer :: written)
  | command {word : Text} {name : Token} {arity : Nat} {default : Option (List Token)}
      {body written : List Token} (defines : Branch.isNewCommandWord word = true)
      (spells : DefinesCommand name arity default body written) : Spells scope word written
  | plainCommand {word : Text} {name first : Token} {starred : Bool}
      {star named gap body rest : List Token} (defines : Branch.isNewCommandWord word = true)
      (definable : name.isDefinable = true) (stars : Stars starred star)
      (names : Names name starred named) (skipped : ∀ token ∈ gap, isSkipped false token = true)
      (bodies : Bodies first body rest) :
      Spells scope word ((star ++ named) ++ ((gap ++ [first]) ++ rest))

variable {scope : Scope} {word : Text} {name first token : Token} {starred : Bool}
  {gap star named default body rest written : List Token}

/-- Blanks and comments in front of a token that is no brace. -/
theorem balanced_gap (skipped : ∀ token ∈ gap, isSkipped false token = true)
    (plain : token.isBrace = false) : Token.Balanced (gap ++ [token]) :=
  Token.depthBehind_plain <| List.forall_mem_append.mpr
    ⟨fun token member => isBrace_of_isSkipped (skipped token member),
      List.forall_mem_singleton.mpr plain⟩

theorem Sources.balanced (sources : Sources token written) (plain : token.isBrace = false) :
    Token.Balanced written := by
  have spaces {spaces : List Token} (blank : ∀ token ∈ spaces, token.isSpace = true) :
      ∀ token ∈ spaces, token.isBrace = false :=
    fun token member => isBrace_of_isSkipped (isSkipped_of_isSpace blank token member)
  apply Token.depthBehind_plain
  cases sources with
  | alone blank => simpa [or_imp, forall_and, plain] using spaces blank
  | equals blank isSign =>
    simpa [or_imp, forall_and, plain, Token.isBrace_of_isCharacter isSign] using spaces blank
  | @spaced _ _ space blank isSign isSpace =>
    have alone := spaces (List.forall_mem_singleton.mpr isSpace) space (List.mem_singleton_self _)
    simpa [or_imp, forall_and, plain, Token.isBrace_of_isCharacter isSign, alone] using spaces blank

theorem Stars.balanced (stars : Stars starred star) : Token.Balanced star := by
  cases stars with
  | none => rfl
  | star skipped isStar => exact balanced_gap skipped (Token.isBrace_of_isCharacter isStar)

theorem Names.balanced (definable : name.isDefinable = true) (names : Names name starred named) :
    Token.Balanced named := by
  have plain := Token.isBrace_of_isDefinable definable
  cases names with
  | bare skipped => exact balanced_gap skipped plain
  | @braced gap before after opener closer skipped opens blankBefore blankAfter closes =>
    have inside : Token.Balanced (before ++ name :: after) := by
      refine .append (Token.depthBehind_plain fun token member => ?_)
        (Token.depthBehind_plain (List.forall_mem_cons.mpr ⟨plain, fun token member => ?_⟩))
      · exact Token.isBrace_of_isBlank (blankBefore token member)
      · exact Token.isBrace_of_isBlank (blankAfter token member)
    rw [List.append_assoc]
    refine .append (Token.depthBehind_plain fun token member => ?_)
      (Token.balanced_enclosed opens inside closes)
    exact isBrace_of_isSkipped (skipped token member)

theorem Defaults.balanced {default : Option (List Token)} (defaults : Defaults default written) :
    Token.Balanced written := by
  cases defaults with
  | none => rfl
  | some skipped opens bracketable closes =>
    have closing := Token.balanced_singleton_iff.mpr (Token.isBrace_of_isCharacter closes)
    exact (balanced_gap skipped (Token.isBrace_of_isCharacter opens)).append
      (bracketable.balanced.append closing)

theorem DefinesCommand.balanced {arity : Nat} {default : Option (List Token)}
    (defines : DefinesCommand name arity default body written) : Token.Balanced written := by
  cases defines with
  | @intro starred star named defaulted gap gapBehind opening digit closing opener closer definable
      stars names skipped opens isNumber closes defaults skippedBehind opensBody balanced
      closesBody =>
    have number := (Token.readNumber_of_parameterNumber? isNumber).2.1.balanced
    have closing := Token.balanced_singleton_iff.mpr (Token.isBrace_of_isCharacter closes)
    have inside := (balanced_gap skipped (Token.isBrace_of_isCharacter opens)).append
      ((number.append closing).append defaults.balanced)
    have behind : ∀ token ∈ gapBehind, token.isBrace = false :=
      fun token member => isBrace_of_isSkipped (skippedBehind token member)
    have whole := (stars.balanced.append (names.balanced definable)).append
      ((inside.append (Token.depthBehind_plain behind)).append
        (Token.balanced_enclosed opensBody balanced closesBody))
    simpa using whole

theorem Bodies.balanced (bodies : Bodies first body rest) : Token.Balanced (first :: rest) := by
  cases bodies with
  | single plain => exact Token.balanced_singleton_iff.mpr plain
  | group opens balanced closes => exact Token.balanced_enclosed opens balanced closes

theorem SpellsBehind.balanced (spells : SpellsBehind word written) : Token.Balanced written := by
  cases spells with
  | @definition _ _ _ _ _ parameterText _ _ _ skipped definable plain opens balanced closes =>
    have text : Token.Balanced parameterText := Token.depthBehind_plain plain
    exact (balanced_gap skipped (Token.isBrace_of_isDefinable definable)).append
      (text.append (Token.balanced_enclosed opens balanced closes))
  | copy skipped definable sources plain =>
    exact (balanced_gap skipped (Token.isBrace_of_isDefinable definable)).append
      (sources.balanced plain)

/-- The braces match in a definition that is spelled with its braces in pairs. -/
theorem Spells.balanced (spells : Spells scope word written) : Token.Balanced written := by
  cases spells with
  | behind _ spells => exact spells.balanced
  | @marked _ _ _ _ definer _ goes isWord _ _ spells =>
    have plain : definer.isBrace = false := Branch.isBrace_of_kind isWord
    have marks : Token.Balanced _ := Token.depthBehind_plain (isBrace_of_goes_markTest goes)
    rw [← List.singleton_append]
    exact marks.append ((Token.balanced_singleton_iff.mpr plain).append spells.balanced)
  | command _ spells => exact spells.balanced
  | plainCommand _ definable stars names skipped bodies =>
    rw [List.append_assoc _ [_], List.singleton_append]
    refine (stars.balanced.append (names.balanced definable)).append
      (.append (Token.depthBehind_plain fun token member => ?_) bodies.balanced)
    exact isBrace_of_isSkipped (skipped token member)

/-- What is spelled behind a definer that has marks in front of it is read to its end. -/
theorem SpellsBehind.consumes (spells : SpellsBehind word written)
    (unbound : scope.binds word = false) {definer : Token}
    (isWord : definer.kind = .controlWord word)
    (before : List Token) (isGlobal : Bool) (rest : List Token) :
    ∃ definition, ∀ stream, Consumes
      (markedBehind scope ⟨before, some definer, isGlobal, stream⟩) written rest
      (.defines definition) := by
  cases spells with
  | @definition _ name _ _ _ parameterText body global defines skipped definable plain opens
      balanced closes =>
    refine ⟨.ofParameterText name.macroName parameterText body (isGlobal || global),
      fun stream => ?_⟩
    unfold markedBehind
    simp only [isWord, unbound, defines, Bool.false_eq_true, if_false]
    exact (consumes_definition skipped definable
      (fun token member => (Token.isBrace_eq_false_iff.mp (plain token member)).1) opens balanced
      closes (isGlobal || global) rest).map _
  | @copy name source _ _ skipped definable sources =>
    have undefined : definer? "let" = none := rfl
    refine ⟨meaningOf scope name.macroName source isGlobal, fun stream => ?_⟩
    unfold markedBehind
    simp only [isWord, unbound, undefined, Bool.false_eq_true, if_false, if_true]
    exact (consumes_letBinding skipped definable sources scope isGlobal rest).map _

/-- A definition behind marks is read to its end. -/
theorem consumes_marked {defining : Text} {marks : List Token} {before isGlobal : Bool}
    {definer : Token} (goes : Goes (markTest scope) before marks isGlobal)
    (isWord : definer.kind = .controlWord defining) (unbound : scope.binds defining = false)
    (unmarked : isDefinitionMark defining = false) (spells : SpellsBehind defining written)
    (rest : List Token) :
    ∃ definition, Consumes (marked scope before) (marks ++ definer :: written) rest
      (.defines definition) := by
  have stops : markTest scope isGlobal definer = (isGlobal, true) := by
    simp [markTest, isWord, unmarked]
  obtain ⟨definition, consumes⟩ := spells.consumes unbound isWord marks isGlobal rest
  exact ⟨definition, .readUntil goes stops consumes⟩

/-- A new command without arguments is read to the end of its body. -/
theorem consumes_plainCommand (definable : name.isDefinable = true) (stars : Stars starred star)
    (names : Names name starred named) (skipped : ∀ token ∈ gap, isSkipped false token = true)
    (bodies : Bodies first body written) (rest : List Token) :
    Consumes newCommand ((star ++ named) ++ ((gap ++ [first]) ++ written)) rest (.ok (some
      { name := name.macroName
        parameters := newCommandParameters 0 none
        replacement := body })) := by
  refine (consumes_newCommandName definable stars names _).bind ?_
  have list (significant : isSkipped false first = false)
      (noBracket : first.isCharacter '[' = false) (rest : List Token) :
      Consumes argumentList (gap ++ [first]) rest (.ok (some ⟨0, none, some first⟩)) := by
    rw [← List.append_nil (gap ++ [first])]
    refine (consumes_pastSkipped skipped significant _).bind ?_
    have plain : (some first).any (Token.isCharacter · '[') = false := noBracket
    simp only [plain, Bool.false_eq_true, if_false]
    exact .pure _ _
  let done (body : Option (List Token)) : Except NumberError (Option Macro) :=
    .ok (body.map fun body =>
      { name := name.macroName, parameters := newCommandParameters 0 none, replacement := body })
  cases bodies with
  | single plain significant noBracket =>
    have unopened := (Token.isBrace_eq_false_iff.mp plain).1
    refine (list significant noBracket _).bind ?_
    have alone : Consumes (newCommandBody (some first)) [] rest (some [first]) := by
      simpa [newCommandBody, unopened] using Consumes.pure (some [first]) rest
    exact alone.map done
  | @group closer _ opens balanced closes =>
    refine (list (isSkipped_of_isBeginGroup opens false)
      (Token.isCharacter_of_isBeginGroup opens '[') _).bind ?_
    have group : Consumes (newCommandBody (some first)) (body ++ [closer]) rest (some body) := by
      simpa [newCommandBody, opens] using consumes_closedGroup balanced closes rest
    exact group.map done

end Scan

namespace Branch

variable {branch : Branch} {token : Token} {word : Text} {written rest : List Token}

theorem takenBy_of_consumes {Result : Type} {scan : Scan Result} {result : Result}
    {finds : Result → Bool} (consumes : Scan.Consumes scan written rest result)
    (ahead : branch.stream.tokens = written ++ rest) (found : finds result = true) :
    branch.takenBy scan finds = some written := by
  obtain ⟨stream, -, read⟩ := attempt_of_consumes consumes branch ahead
  rw [takenBy_of_finds (by rw [read]; exact found), read]

/-- A definition that is spelled with its braces in pairs takes what it is spelled with. -/
theorem takesBehind?_of_spells (spells : Scan.Spells branch.shared.scope word written)
    (ahead : branch.stream.tokens = written ++ rest) : branch.takesBehind? word = some written := by
  have command (defines : isNewCommandWord word = true) :
      branch.takesBehind? word = branch.takenBy Scan.newCommand (·.toOption.join.isSome) := by
    rcases newCommandWords defines with rfl | rfl | rfl | rfl <;> rfl
  cases spells with
  | behind unmarked spells =>
    rw [takesBehind?, if_neg (by simp [unmarked])]
    cases spells with
    | definition defines skipped definable plain opens balanced closes =>
      rw [defines]
      exact takenBy_of_consumes (Scan.consumes_definition skipped definable
        (fun token member => (Token.isBrace_eq_false_iff.mp (plain token member)).1) opens
        balanced closes _ rest) ahead rfl
    | copy skipped definable sources =>
      exact takenBy_of_consumes (Scan.consumes_letBinding skipped definable sources _ _ rest) ahead
        rfl
  | marked mark goes isWord unbound unmarked spells =>
    rw [takesBehind?, if_pos mark]
    obtain ⟨definition, consumes⟩ :=
      Scan.consumes_marked goes isWord unbound unmarked spells rest
    exact takenBy_of_consumes consumes ahead rfl
  | command defines spells =>
    rw [command defines]
    exact takenBy_of_consumes (Scan.consumes_newCommand spells rest) ahead rfl
  | plainCommand defines definable stars names skipped bodies =>
    rw [command defines]
    exact takenBy_of_consumes
      (Scan.consumes_plainCommand definable stars names skipped bodies rest) ahead rfl

/-- The definition that a branch carries out at a token is spelled with its braces in pairs. -/
def SpellsAt (branch : Branch) (token : Token) : Prop :=
  ∃ word written rest, token.kind = .controlWord word ∧
    Scan.Spells branch.shared.scope word written ∧ branch.stream.tokens = written ++ rest

theorem SpellsAt.balanced (spells : branch.SpellsAt token) {taken : List Token}
    (takes : branch.takes? token = some taken) : Token.Balanced taken := by
  obtain ⟨word, written, rest, isWord, spells, ahead⟩ := spells
  unfold takes? at takes
  split at takes
  · cases takes
  · simp only [isWord, takesBehind?_of_spells spells ahead, Option.some.injEq] at takes
    exact takes ▸ spells.balanced

end Branch

/-- **Reading pairs off the text.** An expansion takes braces in pairs if all definitions that its
branches carry out are spelled with their braces in pairs. -/
theorem takesPairs_of_spells {settings : Settings} {main : Document} {shared : Shared}
    (spells : ∀ depth document ancestors start branch called stopped token stream,
      Nests settings main shared depth document ancestors start →
      Branch.Runs settings (siteOf document ancestors start) (nestedAt settings depth)
        (.start document start) branch called stopped →
      branch.stream.next = (some token, stream) →
      (Branch.takes? { branch with stream } token).isSome = true →
      Branch.SpellsAt { branch with stream } token) :
    TakesPairs settings main shared := by
  intro depth document ancestors start nests branch called stopped token stream taken runs found
    takes
  have carriesOut : (Branch.takes? { branch with stream } token).isSome = true := by
    rw [takes, Option.isSome_some]
  exact (spells depth document ancestors start branch called stopped token stream nests runs found
    carriesOut).balanced takes

end Expansion

end TexSource
