import TexSource.Proofs.Expansion.Replacement

/-!
# Doubled parameter characters

A replacement that holds a text with every parameter character doubled gives the text back,
whatever arguments are filled in and whatever stands behind it (`Macro.Doubled.substitute_append`).
So definitions can stand in the replacements of each other, with their parameter characters doubled
once for each replacement around them (`Macro.Nests`): each use of a macro gives back the next
definition as it would stand alone (`Branch.Unwraps`).
-/

namespace TexSource

namespace Macro

/-- A text with its parameter characters doubled. Of the two characters the second one is that of
the text. -/
inductive Doubled : (text doubled : List Token) → Prop where
  | nil : Doubled [] []
  | parameter {mark token : Token} {text doubled : List Token} (isMark : mark.isParameter = true)
      (isParameter : token.isParameter = true) (later : Doubled text doubled) :
      Doubled (token :: text) (mark :: token :: doubled)
  | other {token : Token} {text doubled : List Token} (plain : token.isParameter = false)
      (later : Doubled text doubled) : Doubled (token :: text) (token :: doubled)

/-- Writes each parameter character of a text twice. -/
def double (text : List Token) : List Token :=
  text.flatMap fun token => if token.isParameter then [token, token] else [token]

theorem doubled_double (text : List Token) : Doubled text (double text) := by
  induction text with
  | nil => exact .nil
  | cons token text ih =>
    rw [double, List.flatMap_cons]
    split
    · rename_i isParameter
      exact .parameter isParameter isParameter ih
    · rename_i plain
      exact .other (Bool.eq_false_iff.mpr plain) ih

variable {arguments : List (List Token)} {text doubled : List Token}

/-- What is doubled can be told from the doubled text. -/
theorem Doubled.unique {other : List Token} (doubles : Doubled text doubled)
    (others : Doubled other doubled) : text = other := by
  induction doubles generalizing other with
  | nil =>
    cases others
    rfl
  | parameter isMark _ _ ih =>
    cases others with
    | parameter _ _ later => rw [ih later]
    | other plain => exact absurd isMark (by simp [plain])
  | other plain _ ih =>
    cases others with
    | parameter isMark => exact absurd isMark (by simp [plain])
    | other _ later => rw [ih later]

/-- A token that is no parameter character stands for itself. -/
theorem substitute_cons_plain {token : Token} (plain : token.isParameter = false)
    (rest : List Token) :
    substitute arguments (token :: rest) = token.markExpanded :: substitute arguments rest := by
  cases rest with
  | nil => rfl
  | cons next rest => rw [substitute, if_neg (by simp [plain])]

/-- **A doubled text** is given back as it is, up to the mark of expanded tokens. A pair of
parameter characters is never torn apart, neither by those in front of it nor by those behind. -/
theorem Doubled.substitute_append (doubles : Doubled text doubled) (rest : List Token) :
    substitute arguments (doubled ++ rest) =
      text.map Token.markExpanded ++ substitute arguments rest := by
  induction doubles with
  | nil => rfl
  | parameter isMark isParameter _ ih =>
    rw [List.cons_append, List.cons_append, substitute, if_pos isMark, if_pos isParameter, ih]
    rfl
  | other plain _ ih =>
    rw [List.cons_append, substitute_cons_plain plain, ih]
    rfl

/-- The mark of expanded tokens makes no difference in a body. -/
theorem Filled.map_markExpanded {body filled : List Token} (fills : Filled arguments body filled) :
    Filled arguments (body.map Token.markExpanded) filled := by
  induction fills with
  | nil => exact .nil
  | argument isMark isNumber found _ ih => exact .argument isMark isNumber found ih
  | doubled isMark isSecond _ ih => exact .doubled isMark isSecond ih
  | @other token body filled other _ ih =>
    refine .other (other.imp_right fun other next first => ?_) ih
    rw [List.head?_map] at first
    obtain ⟨original, isFirst, rfl⟩ := Option.map_eq_some_iff.mp first
    exact other original isFirst

theorem substitute_map_markExpanded (replacement : List Token) :
    substitute arguments (replacement.map Token.markExpanded) =
      substitute arguments replacement :=
  (filled_iff.mp (filled_substitute replacement).map_markExpanded).symm

/-- What stands in front of a token that is neither a parameter character nor the number of a
parameter is filled in for itself. -/
theorem Filled.append_cons {head : Token} {front filled rest others : List Token}
    (plain : head.isParameter = false) (unnumbered : head.parameterNumber? = none)
    (fills : Filled arguments front filled) (behind : Filled arguments (head :: rest) others) :
    Filled arguments (front ++ head :: rest) (filled ++ others) := by
  induction fills with
  | nil => exact behind
  | argument isMark isNumber found _ ih =>
    rw [List.append_assoc]
    exact .argument isMark isNumber found ih
  | doubled isMark isSecond _ ih => exact .doubled isMark isSecond ih
  | @other token body filled other _ ih =>
    refine .other (other.imp_right fun other next first => ?_) ih
    cases body with
    | cons => exact other next first
    | nil =>
      obtain rfl := Option.some_inj.mp first
      exact ⟨plain, fun number isNumber => nomatch unnumbered.symm.trans isNumber⟩

/-- How a definition is written in a replacement: what stands in front of it, the control sequence
that it starts with, its tokens up to its body and those from there on, and what stands behind. -/
structure Level where
  front : List Token
  definer : Token
  head : List Token
  tail : List Token
  back : List Token
  starts : definer.isControlSequence = true

/-- The definition of a level, with a body. -/
def Level.definition (level : Level) (body : List Token) : List Token :=
  level.definer :: (level.head ++ body ++ level.tail)

theorem Level.definition_injective (level : Level) : Function.Injective level.definition := by
  intro body other same
  exact List.append_cancel_left (List.append_cancel_right (List.cons.inj same).2)

/-- A text of definitions inside of each other, the outermost level first. At each level there is
the definition of a macro whose body is the text of the levels below, and its parameter characters
are doubled, those in its body too. -/
inductive Nests (inner : List Token) : List Level → (text : List Token) → Prop where
  | here : Nests inner [] inner
  | within {level : Level} {levels : List Level} {body doubled : List Token}
      (nests : Nests inner levels body) (doubles : Doubled (level.definition body) doubled) :
      Nests inner (level :: levels) (level.front ++ doubled ++ level.back)

theorem Level.substitute_doubled (level : Level) {body doubled : List Token}
    (doubles : Doubled (level.definition body) doubled) :
    substitute arguments (level.front ++ doubled ++ level.back) =
      substitute arguments level.front ++ (level.definition body).map Token.markExpanded ++
        substitute arguments level.back := by
  have starts := level.starts
  unfold Token.isControlSequence at starts
  have plain : level.definer.isParameter = false := by
    cases kind : level.definer.kind <;> simp_all [Token.isParameter]
  have unnumbered : level.definer.parameterNumber? = none := by
    cases kind : level.definer.kind <;> simp_all [Token.parameterNumber?]
  have filled : substitute arguments (doubled ++ level.back) =
      (level.definition body).map Token.markExpanded ++ substitute arguments level.back :=
    doubles.substitute_append level.back
  unfold Level.definition at doubles
  cases doubles with
  | parameter _ isParameter => exact absurd isParameter (by simp [plain])
  | @other _ _ doubled =>
    have front : Filled arguments level.front _ := filled_substitute level.front
    have behind : Filled arguments (level.definer :: (doubled ++ level.back)) _ :=
      filled_substitute _
    rw [List.append_assoc, List.append_assoc, ← filled]
    exact (filled_iff.mp (front.append_cons plain unnumbered behind)).symm

end Macro

namespace Expansion

namespace Branch

variable {settings : Settings} {site : Site} {nested : Nested}

/-- Uses of a macro give a text back. Whatever the arguments are, the text is read next, between
what its replacement holds in front of it and behind it, and then what stands behind the use. -/
def GivesBack (settings : Settings) (site : Site) (nested : Nested) (definition : Macro)
    (front text back : List Token) : Prop :=
  ∀ ⦃before : Branch⦄ ⦃use : Token⦄ ⦃behind : Stream⦄ ⦃arguments : List (List Token)⦄
      ⦃scanner : Scanner⦄,
    before.Expands → before.MayCall settings.limits → before.meaning? use = some definition →
    before.stream.next = (some use, behind) →
    Scan.invocation definition use ⟨behind, [], #[]⟩ = (.ok arguments, scanner) →
    ∃ after, Reads settings site nested before after ∧ after.output = before.output ∧
      after.shared.scope = before.shared.scope ∧ after.Expands ∧
      after.stream.tokens = Macro.substitute arguments front ++ text ++
        Macro.substitute arguments back ++ scanner.stream.tokens

theorem givesBack_of_substitute {definition : Macro} {front text back : List Token}
    (same : ∀ arguments, Macro.substitute arguments definition.replacement =
      Macro.substitute arguments front ++ text ++ Macro.substitute arguments back) :
    GivesBack settings site nested definition front text back := by
  intro before use behind arguments scanner expands mayCall meaning found scanned
  have admitted := mayCall.admission
  rw [found] at admitted
  have still : { before with stream := behind }.Expands := ⟨expands.running, expands.code⟩
  have done : step settings site nested { before with stream := behind } use =
      .ok (call { before with stream := behind } use definition) := by
    rw [step_of_meaning still meaning, invoke, admitted]
  refine ⟨_, ⟨use, behind, found, done⟩, ?_⟩
  simp only [call, attempt, scanned, true_and]
  refine ⟨⟨expands.running, expands.code⟩, ?_⟩
  rw [Stream.tokens_pushCall, same]

/-- What the replacements of definitions inside of each other come to. The definition of the first
level stands doubled in the text, and a macro that has the text as its replacement, however it was
defined, gives this definition back. The same is true of its body and the levels below, down to the
text in the innermost definition. -/
def Unwraps (settings : Settings) (site : Site) (nested : Nested) (inner : List Token) :
    List Macro.Level → (text : List Token) → Prop
  | [], text => text = inner
  | level :: levels, text => ∃ body doubled, text = level.front ++ doubled ++ level.back ∧
      Macro.Doubled (level.definition body) doubled ∧
      Unwraps settings site nested inner levels body ∧ ∀ definition : Macro,
        definition.replacement.map Token.markExpanded = text.map Token.markExpanded →
        GivesBack settings site nested definition level.front
          ((level.definition body).map Token.markExpanded) level.back

/-- **Definitions inside of each other** come out one by one. -/
theorem unwraps_of_nests {inner text : List Token} {levels : List Macro.Level}
    (nests : Macro.Nests inner levels text) :
    Unwraps settings site nested inner levels text := by
  induction nests with
  | here => rfl
  | @within level levels body doubled _ doubles ih =>
    refine ⟨body, doubled, rfl, doubles, ih, fun definition same => ?_⟩
    refine givesBack_of_substitute fun arguments => ?_
    rw [← Macro.substitute_map_markExpanded, same, Macro.substitute_map_markExpanded,
      level.substitute_doubled doubles]

theorem depthBehind_map_markExpanded (depth : Nat) (tokens : List Token) :
    Token.depthBehind depth (tokens.map Token.markExpanded) = Token.depthBehind depth tokens := by
  induction tokens generalizing depth with
  | nil => rfl
  | cons token tokens ih =>
    have opens : token.markExpanded.isBeginGroup = token.isBeginGroup := rfl
    have closes : token.markExpanded.isEndGroup = token.isEndGroup := rfl
    simp only [List.map_cons, Token.depthBehind, opens, closes, ih]

/-- The definition of a level gives a name a meaning by a parameter text. -/
inductive Spells (name : Token) : Macro.Level → Prop where
  | intro {front parameterText back : List Token} {definer opener closer : Token} {word : Text}
      {isGlobal : Bool} (starts : definer.isControlSequence = true)
      (isWord : definer.kind = .controlWord word) (defines : Scan.definer? word = some isGlobal)
      (definable : name.isDefinable = true)
      (unopened : ∀ token ∈ parameterText, token.isBeginGroup = false)
      (opens : opener.isBeginGroup = true) (closes : closer.isEndGroup = true) :
      Spells name ⟨front, definer, name :: parameterText ++ [opener], [closer], back, starts⟩

/-- A definition that is given back has its body as the replacement of its macro. -/
theorem exists_defined {before : Branch} {level : Macro.Level} {name : Token}
    {body rest : List Token} (spells : Spells name level) (balanced : Token.Balanced body)
    (expands : before.Expands)
    (unbound : before.shared.scope.lookup level.definer.macroName = none)
    (ahead : before.stream.tokens = (level.definition body).map Token.markExpanded ++ rest) :
    ∃ after definition, Reads settings site nested before after ∧ after.output = before.output ∧
      after.stream.tokens = rest ∧ after.Expands ∧
      (before.MayCall settings.limits → after.MayCall settings.limits) ∧
      (∀ use : Token, use.kind = name.kind → after.meaning? use = some definition) ∧
      definition.replacement = body.map Token.markExpanded := by
  cases spells with
  | @intro _ parameterText _ definer opener closer word isGlobal _ isWord defines definable unopened
      opens closes =>
    have unbound : before.shared.scope.lookup word = none := by
      simpa [Token.macroName, Token.value, Token.Kind.value, isWord] using unbound
    have isWord : definer.markExpanded.kind = .controlWord word := isWord
    have definable : name.markExpanded.isDefinable = true := definable
    have opens : opener.markExpanded.isBeginGroup = true := opens
    have closes : closer.markExpanded.isEndGroup = true := closes
    have unopened : ∀ token ∈ parameterText.map Token.markExpanded, token.isBeginGroup = false := by
      intro token member
      obtain ⟨original, inside, rfl⟩ := List.mem_map.mp member
      exact unopened original inside
    have balanced : Token.Balanced (body.map Token.markExpanded) :=
      (depthBehind_map_markExpanded 0 body).trans balanced
    have ahead : before.stream.tokens = definer.markExpanded :: name.markExpanded ::
        parameterText.map Token.markExpanded ++ opener.markExpanded ::
          body.map Token.markExpanded ++ closer.markExpanded :: rest := by
      simpa [Macro.Level.definition] using ahead
    obtain ⟨stream, left, fewer, reads⟩ := reads_definition expands isWord defines unbound definable
      unopened opens balanced closes ahead
    exact ⟨_, _, reads, rfl, left, ⟨expands.running, expands.code⟩, (·.of_calls_le rfl fewer),
      fun use same => meaning?_define definable same rfl, rfl⟩

/-- What doubled parameter characters are for. Every text can be doubled, and a doubled text is
given back, whatever the arguments are and whatever stands behind. So definitions in the
replacements of each other, with their parameter characters doubled once at each level, come out of
the uses of the outer macros, and where one that is balanced is read, its macro has the body as its
replacement that was written at its level. -/
structure RestoresDoubled (settings : Settings) (site : Site) (nested : Nested) : Prop where
  exists_doubled (text : List Token) : ∃ doubled, Macro.Doubled text doubled
  restores {text doubled : List Token} (doubles : Macro.Doubled text doubled)
    (arguments : List (List Token)) (rest : List Token) :
    Macro.substitute arguments (doubled ++ rest) =
      text.map Token.markExpanded ++ Macro.substitute arguments rest
  unwraps {inner text : List Token} {levels : List Macro.Level}
    (nests : Macro.Nests inner levels text) : Unwraps settings site nested inner levels text
  defined {before : Branch} {level : Macro.Level} {name : Token} {body rest : List Token}
    (spells : Spells name level) (balanced : Token.Balanced body) (expands : before.Expands)
    (unbound : before.shared.scope.lookup level.definer.macroName = none)
    (ahead : before.stream.tokens = (level.definition body).map Token.markExpanded ++ rest) :
    ∃ after definition, Reads settings site nested before after ∧ after.output = before.output ∧
      after.stream.tokens = rest ∧ after.Expands ∧
      (before.MayCall settings.limits → after.MayCall settings.limits) ∧
      (∀ use : Token, use.kind = name.kind → after.meaning? use = some definition) ∧
      definition.replacement = body.map Token.markExpanded

/-- **Doubling escapes parameter characters.** -/
theorem restoresDoubled (settings : Settings) (site : Site) (nested : Nested) :
    RestoresDoubled settings site nested where
  exists_doubled text := ⟨_, Macro.doubled_double text⟩
  restores doubles _ rest := doubles.substitute_append rest
  unwraps := unwraps_of_nests
  defined := exists_defined

/-- The body `(#1)`. -/
def parenthesized : List Token :=
  [.ofChar '(', .ofKind (.parameter (.char '#')), .ofChar '1', .ofChar ')']

/-- The definition of `\b` with one parameter, alone in a replacement. -/
def defineB : Macro.Level where
  front := []
  definer := .ofKind (.controlWord "def")
  head := [.ofKind (.controlWord "b"), .ofKind (.parameter (.char '#')), .ofChar '1'] ++
    [.ofKind (.beginGroup (.char '\x7b'))]
  tail := [.ofKind (.endGroup (.char '\x7d'))]
  back := []
  starts := rfl

/-- The definition of `\a` without a parameter, alone in a replacement. -/
def defineA : Macro.Level where
  front := []
  definer := .ofKind (.controlWord "def")
  head := [.ofKind (.controlWord "a")] ++ [.ofKind (.beginGroup (.char '\x7b'))]
  tail := [.ofKind (.endGroup (.char '\x7d'))]
  back := []
  starts := rfl

/-- The replacement `\def\a{\def\b####1{(####1)}}`. -/
def quadrupled : List Token :=
  [] ++ Macro.double (defineA.definition
    ([] ++ Macro.double (defineB.definition parenthesized) ++ [])) ++ []

/-- A branch that has to read `\c` where the replacement of this macro holds two definitions. -/
def quadrupledStart : Branch where
  stream := .ofTokens [.ofKind (.controlWord "c")]
  steps := 0
  aborted := false
  verbatim := none
  output := #[]
  inclusions := #[]
  shared := ⟨Scope.empty.define ⟨"c", [], quadrupled, false, []⟩,
    .empty noFiles.currentDirectory, #[], []⟩

/-- The definition of `\b` comes out of the use of `\a`, whose definition comes out of that of
`\c`. -/
theorem restoresDoubled_quadrupled :
    ∃ first second definition,
      Reads ⟨noFiles, {}, .standard⟩ ⟨0, [0], 0⟩ none quadrupledStart first ∧
      Reads ⟨noFiles, {}, .standard⟩ ⟨0, [0], 0⟩ none first second ∧
      second.meaning? (.ofKind (.controlWord "a")) = some definition ∧
      GivesBack ⟨noFiles, {}, .standard⟩ ⟨0, [0], 0⟩ none definition []
        ((defineB.definition parenthesized).map Token.markExpanded) [] := by
  obtain ⟨-, -, unwraps, defined⟩ := restoresDoubled ⟨noFiles, {}, .standard⟩ ⟨0, [0], 0⟩ none
  have nests : Macro.Nests parenthesized [defineA, defineB] quadrupled :=
    .within (.within .here (Macro.doubled_double _)) (Macro.doubled_double _)
  obtain ⟨body, doubled, split, doubles, ⟨_, _, -, -, rfl, inner⟩, outer⟩ := unwraps nests
  have split : Macro.double _ = doubled := List.append_cancel_right split
  have written : body = [] ++ Macro.double (defineB.definition parenthesized) ++ [] :=
    defineA.definition_injective ((split ▸ doubles).unique (Macro.doubled_double _))
  have balanced : Token.Balanced body := written ▸ (by decide)
  have limits : quadrupledStart.MayCall (Settings.limits ⟨noFiles, {}, .standard⟩) :=
    ⟨10000, 64, rfl, rfl, by decide, by decide⟩
  obtain ⟨first, uses, -, scope, expands, left⟩ :=
    @outer ⟨"c", [], quadrupled, false, []⟩ rfl quadrupledStart _ _ _ _ ⟨rfl, rfl⟩ limits rfl rfl
      rfl
  have unopened := List.forall_mem_nil fun token => Token.isBeginGroup token = false
  have spells : Spells (.ofKind (.controlWord "a")) defineA :=
    .intro rfl rfl rfl rfl unopened rfl rfl
  obtain ⟨second, definition, reads, -, -, -, -, means, replacement⟩ :=
    defined spells balanced expands (by rw [scope]; rfl)
      (left.trans (List.append_nil (List.map Token.markExpanded _ ++ [])))
  refine ⟨first, second, definition, uses, reads, means _ rfl, inner definition ?_⟩
  rw [replacement, List.map_map]
  rfl

end Branch

end Expansion

end TexSource
