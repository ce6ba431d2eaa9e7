import TexSource.Proofs.Expansion.Nesting
import TexSource.Proofs.Expansion.Replacement

/-!
# Definition and use of a new command

A new command is defined with a number of arguments in brackets and, perhaps, a default for the
first of them (`Scan.DefinesCommand`). Its uses give the first argument in brackets or leave it to
the default, and the others in braces (`Scan.TakesArguments`); they are replaced by the body with
the arguments filled in, as those of other macros are.
-/

namespace TexSource

/-- Balanced tokens in which closing brackets stand within braces only. -/
structure Token.Bracketable (tokens : List Token) : Prop where
  balanced : Token.Balanced tokens
  hidden : ∀ place (inside : place < tokens.length), Token.Balanced (tokens.take place) →
    tokens[place].isCharacter ']' = false

instance (tokens : List Token) : Decidable (Token.Bracketable tokens) :=
  decidable_of_iff (Token.Balanced tokens ∧ ∀ place (inside : place < tokens.length),
      Token.Balanced (tokens.take place) → tokens[place].isCharacter ']' = false)
    ⟨fun ⟨balanced, hidden⟩ => ⟨balanced, hidden⟩, fun both => ⟨both.balanced, both.hidden⟩⟩

theorem Token.isBrace_of_isBlank {token : Token} (blank : token.isBlank = true) :
    token.isBrace = false := by
  unfold Token.isBlank Token.Kind.isBlank at blank
  cases kind : token.kind <;>
    simp_all [Token.isBrace, Token.isBeginGroup, Token.isEndGroup]

theorem Token.isBrace_of_isDefinable {token : Token} (definable : token.isDefinable = true) :
    token.isBrace = false := by
  unfold Token.isDefinable at definable
  cases kind : token.kind <;>
    simp_all [Token.isBrace, Token.isBeginGroup, Token.isEndGroup]

theorem Glyph.code_of_asciiDigit? {glyph : Glyph} {number : Nat}
    (isDigit : glyph.asciiDigit? = some number) : glyph.code = 48 + number ∧ number ≤ 9 := by
  cases glyph with
  | byte offset => cases isDigit
  | char character =>
    unfold Glyph.asciiDigit? at isDigit
    dsimp only at isDigit
    split at isDigit
    · rename_i between
      have bounds : 48 ≤ character.toNat ∧ character.toNat ≤ 57 := by
        simpa [Char.isDigit, UInt32.le_iff_toNat_le] using between
      cases isDigit
      simp only [Glyph.code]
      omega
    · cases isDigit

/-- An ASCII digit is a decimal digit of its value, and no blank. -/
theorem Glyph.decimalValue?_of_asciiDigit? {glyph : Glyph} {number : Nat}
    (isDigit : glyph.asciiDigit? = some number) :
    glyph.decimalValue? = some number ∧ glyph.isBlank = false := by
  obtain ⟨code, small⟩ := Glyph.code_of_asciiDigit? isDigit
  constructor
  · unfold Glyph.decimalValue? Unicode.decimalZeros
    rw [List.find?_cons_of_pos (by simp [code]; omega), Option.map_some, code,
      Nat.add_sub_cancel_left]
  · simp [Glyph.isBlank, code]
    omega

theorem readNumber_singleton {glyph : Glyph} {number : Nat}
    (isDigit : glyph.decimalValue? = some number) : readNumber [glyph] = .ok number := by
  simp [readNumber, isDigit, maxNumberDigits, decimalNumber]

/-- A digit is read as the number that it stands for. -/
theorem Token.readNumber_of_parameterNumber? {digit : Token} {number : Nat}
    (isNumber : digit.parameterNumber? = some number) :
    0 < number ∧ Token.Bracketable [digit] ∧ Text.strip digit.value = digit.value ∧
      digit.value ≠ [] ∧ digit.value.all Glyph.isDigit = true ∧
      readNumber digit.value = .ok number := by
  unfold Token.parameterNumber? at isNumber
  cases kind : digit.kind with
  | character glyph category =>
    rw [kind] at isNumber
    obtain ⟨isDigit, positive⟩ := Option.filter_eq_some_iff.mp isNumber
    obtain ⟨value, solid⟩ := Glyph.decimalValue?_of_asciiDigit? isDigit
    have unbraced : digit.isBrace = false := by
      simp [Token.isBrace, Token.isBeginGroup, Token.isEndGroup, kind]
    have written : digit.value = [glyph] := by simp [Token.value, kind, Token.Kind.value]
    refine ⟨by simpa using positive, ⟨?_, fun place inside _ => ?_⟩, ?_⟩
    · exact Token.depthBehind_plain fun token member => by
        rwa [List.mem_singleton.mp member]
    · obtain rfl : place = 0 := by simpa using inside
      have other : glyph ≠ .char ']' := by
        rintro rfl
        cases isDigit
      simpa [Token.isCharacter, kind] using other
    · rw [written]
      refine ⟨by simp [Text.strip, Text.stripStart, Text.stripEnd, Text.dropWhileEnd, solid],
        List.cons_ne_nil _ _, by simp [Glyph.isDigit, value], readNumber_singleton value⟩
  | _ =>
    rw [kind] at isNumber
    cases isNumber

namespace Expansion

namespace Scan

variable {name opening opener digit closing closer : Token} {arity : Nat}
  {default : Option (List Token)} {gap spaces body tokens rest written : List Token}

theorem goes_bracketTest {before : List Token} {depth behind : Nat}
    (read : Token.depthBehind 0 before = some depth)
    (found : Token.depthBehind depth tokens = some behind)
    (hidden : ∀ place (inside : place < (before ++ tokens).length),
      Token.Balanced ((before ++ tokens).take place) →
        (before ++ tokens)[place].isCharacter ']' = false) :
    Goes bracketTest (depth : Int) tokens behind := by
  induction tokens generalizing before depth with
  | nil =>
    cases found
    exact .nil _
  | cons token rest ih =>
    rw [← List.singleton_append] at found
    obtain ⟨middle, first, later⟩ := Token.exists_depthBehind_of_append found
    have readOn : Token.depthBehind 0 (before ++ [token]) = some middle := by
      rw [Token.depthBehind_append, read, Option.bind_some, first]
    refine .cons ?_ (ih readOn later (by simpa using hidden))
    have here := hidden before.length (by simp)
    rw [List.take_left, List.getElem_append_right (Nat.le_refl _)] at here
    simp only [Nat.sub_self, List.getElem_cons_zero] at here
    unfold bracketTest
    by_cases opens : token.isBeginGroup = true
    · rw [Token.depthBehind_beginGroup opens] at first
      cases first
      rw [if_pos opens]
      rfl
    by_cases closes : token.isEndGroup = true
    · rw [if_neg opens, if_pos closes]
      cases depth with
      | zero =>
        rw [Token.depthBehind_stray closes] at first
        cases first
      | succ outer =>
        rw [Token.depthBehind_endGroup closes] at first
        cases first
        simp
    · rw [Token.depthBehind_other (by simp [Token.isBrace, opens, closes])] at first
      cases first
      rw [if_neg opens, if_neg closes]
      cases depth with
      | zero => simp [here read]
      | succ outer => simp; omega

/-- Brackets are read to the closing one. -/
theorem consumes_bracket (bracketable : Token.Bracketable tokens)
    (closes : closing.isCharacter ']' = true) (rest : List Token) :
    Consumes bracket (tokens ++ [closing]) rest (some tokens) := by
  have goes : Goes bracketTest 0 tokens 0 :=
    @goes_bracketTest tokens [] 0 0 rfl bracketable.balanced bracketable.hidden
  obtain ⟨category, kind⟩ := Token.kind_of_isCharacter closes
  have stops : bracketTest 0 closing = (0, true) := by
    simp [bracketTest, Token.isBeginGroup, Token.isEndGroup, kind, closes]
  exact .readUntil goes stops fun _ => .pure _ _

/-- A star behind the word that defines a new command, or none. -/
inductive Stars : (starred : Bool) → (written : List Token) → Prop where
  | none : Stars false []
  | star {gap : List Token} {star : Token} (skipped : ∀ token ∈ gap, isSkipped false token = true)
      (isStar : star.isCharacter '*' = true) : Stars true (gap ++ [star])

/-- How the name of a new command is written: alone, or in braces. Alone and without a star in
front, an active star would be read as that star. -/
inductive Names (name : Token) (starred : Bool) : (written : List Token) → Prop where
  | bare {gap : List Token} (skipped : ∀ token ∈ gap, isSkipped false token = true)
      (noStar : starred = false → name.isCharacter '*' = false) : Names name starred (gap ++ [name])
  | braced {gap before after : List Token} {opener closer : Token}
      (skipped : ∀ token ∈ gap, isSkipped false token = true) (opens : opener.isBeginGroup = true)
      (blankBefore : ∀ token ∈ before, token.isBlank = true)
      (blankAfter : ∀ token ∈ after, token.isBlank = true) (closes : closer.isEndGroup = true) :
      Names name starred ((gap ++ [opener]) ++ ((before ++ name :: after) ++ [closer]))

/-- How the default of the first argument is written, if there is one. -/
inductive Defaults : (default : Option (List Token)) → (written : List Token) → Prop where
  | none : Defaults none []
  | some {gap default : List Token} {opening closing : Token}
      (skipped : ∀ token ∈ gap, isSkipped false token = true)
      (opens : opening.isCharacter '[' = true) (bracketable : Token.Bracketable default)
      (closes : closing.isCharacter ']' = true) :
      Defaults (some default) ((gap ++ [opening]) ++ (default ++ [closing]))

/-- The tokens behind the word that defines a new command. Blanks and comments may stand between
the parts. -/
inductive DefinesCommand (name : Token) (arity : Nat) (default : Option (List Token))
    (body : List Token) : (written : List Token) → Prop where
  | intro {starred : Bool} {star named defaulted gap gapBehind : List Token}
      {opening digit closing opener closer : Token} (definable : name.isDefinable = true)
      (stars : Stars starred star) (names : Names name starred named)
      (skipped : ∀ token ∈ gap, isSkipped false token = true)
      (opens : opening.isCharacter '[' = true) (isNumber : digit.parameterNumber? = some arity)
      (closes : closing.isCharacter ']' = true) (defaults : Defaults default defaulted)
      (skippedBehind : ∀ token ∈ gapBehind, isSkipped false token = true)
      (opensBody : opener.isBeginGroup = true) (balanced : Token.Balanced body)
      (closesBody : closer.isEndGroup = true) :
      DefinesCommand name arity default body ((star ++ named) ++
        ((gap ++ [opening]) ++ (([digit] ++ [closing]) ++ (defaulted ++ (gapBehind ++ [opener]))) ++
          (body ++ [closer])))

theorem DefinesCommand.definable (defines : DefinesCommand name arity default body written) :
    name.isDefinable = true := by
  cases defines with
  | intro definable => exact definable

theorem consumes_nextPastStar {starred : Bool} {star : List Token} {token : Token}
    (stars : Stars starred star) (skipped : ∀ token ∈ gap, isSkipped false token = true)
    (significant : isSkipped false token = false)
    (noStar : starred = false → token.isCharacter '*' = false) (rest : List Token) :
    Consumes nextPastStar (star ++ (gap ++ [token])) rest (some token) := by
  have here := consumes_pastSkipped skipped significant rest
  cases stars with
  | none =>
    have plain : (some token).any (Token.isCharacter · '*') = false := noStar rfl
    rw [List.nil_append, ← List.append_nil (gap ++ [token])]
    refine Consumes.bind here ?_
    simp only [plain, Bool.false_eq_true, if_false]
    exact .pure _ _
  | @star starGap star skippedStar isStar =>
    refine (consumes_pastSkipped skippedStar (isSkipped_of_isCharacter isStar false) _).bind ?_
    have found : (some star).any (Token.isCharacter · '*') = true := isStar
    simp only [found, if_true]
    exact here

theorem soleToken?_blanks {before after : List Token}
    (blankBefore : ∀ token ∈ before, token.isBlank = true)
    (blankAfter : ∀ token ∈ after, token.isBlank = true) (solid : name.isBlank = false) :
    soleToken? (before ++ name :: after) = some name := by
  have front : before.filter (fun token => !token.isBlank) = [] := by simpa using blankBefore
  have back : after.filter (fun token => !token.isBlank) = [] := by simpa using blankAfter
  simp [soleToken?, front, back, solid]

theorem consumes_newCommandName {starred : Bool} {star named : List Token}
    (definable : name.isDefinable = true) (stars : Stars starred star)
    (names : Names name starred named) (rest : List Token) :
    Consumes newCommandName (star ++ named) rest (some name) := by
  have unbraced := (Token.isBrace_eq_false_iff.mp (Token.isBrace_of_isDefinable definable)).1
  have solid : name.isBlank = false := by
    unfold Token.isDefinable at definable
    cases kind : name.kind <;> simp_all [Token.isBlank, Token.Kind.isBlank]
  cases names with
  | bare skipped noStar =>
    have first := consumes_nextPastStar stars skipped (isSkipped_of_isDefinable definable false)
      noStar rest
    rw [← List.append_nil (star ++ _)]
    refine Consumes.bind first ?_
    simp only [unbraced, Bool.false_eq_true, if_false, Option.filter_some, definable, if_true]
    exact .pure _ _
  | @braced gap before after opener closer skipped opens blankBefore blankAfter closes =>
    have noStar := Token.isCharacter_of_isBeginGroup opens '*'
    have balanced : Token.Balanced (before ++ name :: after) := by
      refine Token.depthBehind_plain fun token member => ?_
      rcases List.mem_append.mp member with inBefore | inBehind
      · exact Token.isBrace_of_isBlank (blankBefore token inBefore)
      rcases List.mem_cons.mp inBehind with rfl | inAfter
      · exact Token.isBrace_of_isDefinable definable
      · exact Token.isBrace_of_isBlank (blankAfter token inAfter)
    rw [← List.append_assoc]
    refine (consumes_nextPastStar stars skipped (isSkipped_of_isBeginGroup opens false)
      (fun _ => noStar) _).bind ?_
    dsimp only
    rw [if_pos opens]
    have read := (consumes_closedGroup balanced closes rest).map fun body =>
      (body.bind soleToken?).filter Token.isDefinable
    rwa [Option.bind_some, soleToken?_blanks blankBefore blankAfter solid, Option.filter_some,
      if_pos definable] at read

theorem consumes_argumentList {defaulted gapBehind : List Token}
    (skipped : ∀ token ∈ gap, isSkipped false token = true)
    (opens : opening.isCharacter '[' = true) (isNumber : digit.parameterNumber? = some arity)
    (closes : closing.isCharacter ']' = true) (defaults : Defaults default defaulted)
    (skippedBehind : ∀ token ∈ gapBehind, isSkipped false token = true)
    (opensBody : opener.isBeginGroup = true) (rest : List Token) :
    Consumes argumentList
      ((gap ++ [opening]) ++ (([digit] ++ [closing]) ++
        (defaulted ++ (gapBehind ++ [opener])))) rest
      (.ok (some ⟨arity, default, some opener⟩)) := by
  obtain ⟨positive, bracketable, stripped, nonempty, digits, read⟩ :=
    Token.readNumber_of_parameterNumber? isNumber
  have behind := consumes_pastSkipped skippedBehind (isSkipped_of_isBeginGroup opensBody false)
  refine (consumes_pastSkipped skipped (isSkipped_of_isCharacter opens false) _).bind ?_
  have found : (some opening).any (Token.isCharacter · '[') = true := opens
  simp only [found, if_true]
  refine (consumes_bracket bracketable closes _).bind ?_
  have written : Text.strip (((some [digit]).getD []).flatMap Token.value) = digit.value := by
    simp [stripped]
  simp only [written, nonempty, digits, read, ne_eq, not_false_eq_true, decide_true, Bool.and_self,
    if_true]
  cases defaults with
  | none =>
    have noBracket : (some opener).any (Token.isCharacter · '[') = false :=
      Token.isCharacter_of_isBeginGroup opensBody '['
    rw [List.nil_append, ← List.append_nil (gapBehind ++ [opener])]
    refine Consumes.bind (behind _) ?_
    simp only [noBracket, Bool.false_and, Bool.false_eq_true, if_false]
    exact .pure _ _
  | @some gap default opening closing skipped opens bracketable closes =>
    rw [List.append_assoc]
    refine (consumes_pastSkipped skipped (isSkipped_of_isCharacter opens false) _).bind ?_
    have found : (some opening).any (Token.isCharacter · '[') = true := opens
    simp only [found, positive, decide_true, Bool.and_self, if_true]
    refine (consumes_bracket bracketable closes _).bind ?_
    exact (behind rest).map fun next =>
      (.ok (some ⟨arity, some default, next⟩) : Except NumberError (Option ArgumentList))

theorem consumes_newCommand (defines : DefinesCommand name arity default body written)
    (rest : List Token) :
    Consumes newCommand written rest (.ok (some
      { name := name.macroName
        parameters := newCommandParameters arity default
        replacement := body })) := by
  cases defines with
  | @intro _ _ _ _ _ _ _ _ _ opener closer definable stars names skipped opens isNumber closes
      defaults skippedBehind opensBody balanced closesBody =>
    refine (consumes_newCommandName definable stars names _).bind ?_
    refine (consumes_argumentList skipped opens isNumber closes defaults skippedBehind opensBody
      _).bind ?_
    have group : Consumes (newCommandBody (some opener)) (body ++ [closer]) rest (some body) := by
      simpa [newCommandBody, opensBody] using consumes_closedGroup balanced closesBody rest
    exact group.map fun body =>
      (.ok (body.map fun body =>
        { name := name.macroName
          parameters := newCommandParameters arity default
          replacement := body }) : Except NumberError (Option Macro))

/-- An argument in braces. Blanks and comments may stand in front of it. -/
inductive Grouped : Supply → Prop where
  | intro {gap argument : List Token} {opener closer : Token}
      (skipped : ∀ token ∈ gap, isSkipped false token = true) (opens : opener.isBeginGroup = true)
      (balanced : Token.Balanced argument) (closes : closer.isEndGroup = true) :
      Grouped ⟨(gap ++ [opener]) ++ (argument ++ [closer]), argument⟩

/-- What stands behind the name of a new command in its use, with the arguments that it gives.
Where the only argument is left to its default, no space or opening bracket may follow, which would
be taken for the beginning of an argument. -/
inductive TakesArguments (arity : Nat) (rest : List Token) :
    (default : Option (List Token)) → (written : List Token) → (arguments : List (List Token)) →
      Prop where
  | groups {supplies : List Supply} (groups : ∀ supply ∈ supplies, Grouped supply)
      (count : supplies.length = arity) :
      TakesArguments arity rest none (supplies.flatMap Supply.written)
        (supplies.map Supply.argument)
  | bracketed {spaces default actual : List Token} {opening closing : Token}
      {supplies : List Supply} (blank : ∀ token ∈ spaces, token.isSpace = true)
      (opens : opening.isCharacter '[' = true) (bracketable : Token.Bracketable actual)
      (closes : closing.isCharacter ']' = true) (groups : ∀ supply ∈ supplies, Grouped supply)
      (count : supplies.length + 1 = arity) :
      TakesArguments arity rest (some default)
        (((spaces ++ [opening]) ++ (actual ++ [closing])) ++ supplies.flatMap Supply.written)
        (actual :: supplies.map Supply.argument)
  | omitted {default : List Token} {supplies : List Supply}
      (groups : ∀ supply ∈ supplies, Grouped supply) (count : supplies.length + 1 = arity)
      (apart : arity = 1 → ∀ token ∈ rest.head?,
        token.isSpace = false ∧ token.isCharacter '[' = false) :
      TakesArguments arity rest (some default) (supplies.flatMap Supply.written)
        (default :: supplies.map Supply.argument)

variable {use : Token} {supplies : List Supply} {text : Text}

theorem takes_of_grouped {supply : Supply} (group : Grouped supply) (name : Text) (use : Token) :
    Takes name use .undelimited supply := by
  intro rest
  cases group with
  | @intro gap argument opener closer skipped opens balanced closes =>
    refine (consumes_pastSkipped skipped (isSkipped_of_isBeginGroup opens false) _).bind ?_
    have noEnd := Token.isEndGroup_of_isBeginGroup opens
    simpa [opens, noEnd] using consumes_closedGroup balanced closes rest

theorem consumes_groups (groups : ∀ supply ∈ supplies, Grouped supply) (found : List (List Token))
    (rest : List Token) :
    Consumes (arguments text use found (List.replicate supplies.length .undelimited))
      (supplies.flatMap Supply.written) rest
      (.ok (found.reverse ++ supplies.map Supply.argument)) := by
  refine consumes_arguments ?_ found rest
  induction supplies with
  | nil => exact .nil
  | cons supply supplies ih =>
    rw [List.forall_mem_cons] at groups
    exact .cons (takes_of_grouped groups.1 text use) (ih groups.2)

theorem consumes_bracketed {default actual : List Token}
    (blank : ∀ token ∈ spaces, token.isSpace = true) (opens : opening.isCharacter '[' = true)
    (bracketable : Token.Bracketable actual) (closes : closing.isCharacter ']' = true)
    (rest : List Token) :
    Consumes (argument text use (.optional default))
      ((spaces ++ [opening]) ++ (actual ++ [closing])) rest (some actual) := by
  have skipped : ∀ token ∈ spaces, isSkipped true token = true :=
    fun token member => by simp [isSkipped, blank token member]
  refine (consumes_pastSkipped skipped (isSkipped_of_isCharacter opens true) _).bind ?_
  dsimp only
  rw [if_pos opens]
  exact consumes_bracket bracketable closes rest

/-- Where no bracket follows, the default is taken, and no more than spaces are read. -/
theorem consumes_omitted {default : List Token} (blank : ∀ token ∈ spaces, token.isSpace = true)
    (apart : ∀ token ∈ rest.head?, token.isSpace = false ∧ token.isCharacter '[' = false) :
    Consumes (argument text use (.optional default)) spaces rest (some default) := by
  have skipped : ∀ token ∈ spaces, isSkipped true token = true :=
    fun token member => by simp [isSkipped, blank token member]
  cases rest with
  | nil =>
    have first : Consumes (nextSignificant true) spaces [] none :=
      .readAll (goes_skipped skipped) fun _ => .pure _ _
    rw [← List.append_nil spaces]
    exact first.bind (.pure _ _)
  | cons token rest =>
    obtain ⟨solid, noBracket⟩ := apart token rfl
    have significant : isSkipped true token = false := by simp [isSkipped, solid]
    refine (consumes_pastSkipped skipped significant rest).unread ?_
    simp [noBracket]

/-- The spaces in front of an argument in braces can be read before it. -/
theorem exists_grouped_behind_spaces {supply : Supply} (group : Grouped supply) :
    ∃ spaces behind, supply.written = spaces ++ behind ∧
      (∀ token ∈ spaces, token.isSpace = true) ∧ Grouped ⟨behind, supply.argument⟩ ∧
      ∀ others, ∀ token ∈ (behind ++ others).head?,
        token.isSpace = false ∧ token.isCharacter '[' = false := by
  cases group with
  | @intro gap argument opener closer skipped opens balanced closes =>
    have split := @List.takeWhile_append_dropWhile _ Token.isSpace gap
    have skippedBehind : ∀ token ∈ gap.dropWhile Token.isSpace, isSkipped false token = true :=
      fun token member => skipped token ((List.dropWhile_sublist _).subset member)
    refine ⟨gap.takeWhile Token.isSpace,
      (gap.dropWhile Token.isSpace ++ [opener]) ++ (argument ++ [closer]), ?_, ?_,
      .intro skippedBehind opens balanced closes, ?_⟩
    · simp only [← List.append_assoc, split]
    · exact fun token member => List.mem_takeWhile_imp member
    · cases remains : gap.dropWhile Token.isSpace with
      | nil =>
        rintro others token ⟨⟩
        exact ⟨Token.isSpace_of_isBeginGroup opens, Token.isCharacter_of_isBeginGroup opens '['⟩
      | cons next others =>
        rintro more token ⟨⟩
        have solid : next.isSpace = false := by
          simpa [remains] using List.head?_dropWhile_not Token.isSpace gap
        refine ⟨solid, Bool.eq_false_iff.mpr fun opens => ?_⟩
        have counts := isSkipped_of_isCharacter opens false
        have passes := skippedBehind next (by rw [remains]; exact List.mem_cons_self)
        exact Bool.false_ne_true (counts.symm.trans passes)

theorem consumes_arguments_takes {found : List (List Token)}
    (takes : TakesArguments arity rest default written found) :
    Consumes (arguments text use [] (newCommandParameters arity default)) written rest
      (.ok found) := by
  cases takes with
  | groups groups count =>
    subst count
    exact consumes_groups groups [] rest
  | @bracketed spaces default actual opening closing supplies blank opens bracketable closes groups
      count =>
    subst count
    exact (consumes_bracketed blank opens bracketable closes _).bind
      (consumes_groups groups [actual] rest)
  | @omitted default supplies groups count apart =>
    subst count
    cases supplies with
    | nil =>
      have none : Consumes (argument text use (.optional default)) [] rest (some default) :=
        consumes_omitted (List.forall_mem_nil _) (apart rfl)
      refine @Consumes.bind _ _ [] [] rest _ _ _ _ none ?_
      exact consumes_groups (List.forall_mem_nil _) [default] rest
    | cons supply supplies =>
      rw [List.forall_mem_cons] at groups
      obtain ⟨spaces, behind, split, blank, group, apart⟩ := exists_grouped_behind_spaces groups.1
      have later : ∀ other ∈ (⟨behind, supply.argument⟩ :: supplies : List Supply), Grouped other :=
        List.forall_mem_cons.mpr ⟨group, groups.2⟩
      rw [List.flatMap_cons, split, List.append_assoc]
      refine (consumes_omitted blank ?_).bind (consumes_groups later [default] rest)
      rw [List.append_assoc]
      exact apart _

/-- A use of a new command is read to the end of its last argument. -/
theorem consumes_takesArguments {found : List (List Token)}
    (takes : TakesArguments arity rest default written found) (isGlobal : Bool) :
    Consumes (invocation ⟨text, newCommandParameters arity default, body, isGlobal, []⟩ use) written
      rest (.ok found) := by
  refine (consumes_literal .nil _).bind ?_
  rw [if_pos rfl, ← List.append_nil written]
  exact (consumes_arguments_takes takes).bind (.pure _ _)

end Scan

namespace Branch

variable {settings : Settings} {site : Site} {nested : Nested} {before : Branch}
  {definer name : Token} {word : Text} {arity : Nat} {default : Option (List Token)}
  {body written rest : List Token}

/-- What stands behind the word that defines a new command is read to its end. -/
theorem exists_attempt_newCommand
    (defines : Scan.DefinesCommand name arity default body written)
    (ahead : before.stream.tokens = definer :: written ++ rest) :
    ∃ behind stream : Stream, before.stream.next = (some definer, behind) ∧ stream.tokens = rest ∧
      stream.calls.length ≤ behind.calls.length ∧
      { before with stream := behind }.attempt Scan.newCommand = (.ok (some
        { name := name.macroName
          parameters := Scan.newCommandParameters arity default
          replacement := body }), written, { before with stream }) := by
  rw [List.cons_append] at ahead
  obtain ⟨behind, found, ahead⟩ := exists_next ahead
  obtain ⟨stream, left, read⟩ := attempt_of_consumes (Scan.consumes_newCommand defines rest)
    { before with stream := behind } ahead
  have fewer := calls_attempt { before with stream := behind } Scan.shrinks_newCommand
  rw [read] at fewer
  exact ⟨behind, stream, found, left, fewer, read⟩

/-- The definition of a new command leaves nothing in the output. -/
theorem reads_newCommand (expands : before.Expands) (isWord : definer.kind = .controlWord word)
    (isDefiner : isNewCommandWord word = true) (unbound : before.shared.scope.lookup word = none)
    (defines : Scan.DefinesCommand name arity default body written)
    (ahead : before.stream.tokens = definer :: written ++ rest) :
    ∃ stream : Stream, stream.tokens = rest ∧
      stream.calls.length ≤ before.stream.next.2.calls.length ∧
      Reads settings site nested before
        (if word = "providecommand" ∧ before.shared.scope.binds name.macroName = true then
          { before with stream }
        else
          { before.withScope (·.define
              { name := name.macroName
                parameters := Scan.newCommandParameters arity default
                replacement := body }) with stream }) := by
  obtain ⟨behind, stream, found, left, fewer, read⟩ := exists_attempt_newCommand defines ahead
  refine ⟨stream, left, by rw [found]; exact fewer, definer, behind, found, ?_⟩
  have same : { before with stream := behind }.Expands := ⟨expands.running, expands.code⟩
  rw [step_of_word same isWord unbound, obey_of_isNewCommandWord isDefiner, defineNewCommand, read]
  by_cases provided : word = "providecommand" ∧ before.shared.scope.binds name.macroName = true
  · simp [provided]
  · rw [if_neg provided]
    simp only [Bool.and_eq_true, decide_eq_true_eq]
    rw [if_neg provided]
    rfl

/-- Uses of a new command are replaced by a body. The body with the arguments of the use filled in
is read next, and then what stands behind the use. -/
def ReplacesCommand (settings : Settings) (site : Site) (nested : Nested) (definition : Macro)
    (arity : Nat) (default : Option (List Token)) (body : List Token) : Prop :=
  ∀ ⦃before : Branch⦄ ⦃use : Token⦄ ⦃written rest : List Token⦄ ⦃found : List (List Token)⦄,
    before.Expands → before.MayCall settings.limits → before.meaning? use = some definition →
    Scan.TakesArguments arity rest default written found →
    before.stream.tokens = use :: written ++ rest →
    ∃ after filled, Reads settings site nested before after ∧ after.output = before.output ∧
      after.shared = before.shared ∧ Macro.Filled found body filled ∧
      after.stream.tokens = filled ++ rest

theorem replacesCommand (settings : Settings) (site : Site) (nested : Nested) (text : Text)
    (arity : Nat) (default : Option (List Token)) (body : List Token) (isGlobal : Bool) :
    ReplacesCommand settings site nested
      ⟨text, Scan.newCommandParameters arity default, body, isGlobal, []⟩ arity default body := by
  intro before use written rest found expands mayCall meaning takes ahead
  obtain ⟨stream, left, reads⟩ := reads_use_of_consumes expands mayCall meaning
    (Scan.consumes_takesArguments takes isGlobal) ahead
  refine ⟨_, _, reads, rfl, rfl, Macro.filled_substitute body, ?_⟩
  rw [Stream.tokens_pushCall, left]

/-- **A new command is replaced by the body of its definition.** The definition is read to the
brace that ends its body and leaves nothing in the output. Then its name means a macro whose uses
are replaced by the body, here and wherever this meaning still stands. A command that is only
provided keeps the meaning it has. -/
theorem exists_replacesCommand (expands : before.Expands)
    (isWord : definer.kind = .controlWord word) (isDefiner : isNewCommandWord word = true)
    (unbound : before.shared.scope.lookup word = none)
    (defines : Scan.DefinesCommand name arity default body written)
    (ahead : before.stream.tokens = definer :: written ++ rest) :
    ∃ after, Reads settings site nested before after ∧ after.output = before.output ∧
      after.stream.tokens = rest ∧ after.Expands ∧
      (before.MayCall settings.limits → after.MayCall settings.limits) ∧
      (word = "providecommand" ∧ before.shared.scope.binds name.macroName = true →
        after = { before with stream := after.stream }) ∧
      (¬(word = "providecommand" ∧ before.shared.scope.binds name.macroName = true) →
        ∃ definition, (∀ use : Token, use.kind = name.kind →
            after.meaning? use = some definition) ∧
          ReplacesCommand settings site nested definition arity default body) := by
  obtain ⟨stream, left, fewer, reads⟩ := reads_newCommand expands isWord isDefiner unbound
    defines ahead
  by_cases provided : word = "providecommand" ∧ before.shared.scope.binds name.macroName = true
  · rw [if_pos provided] at reads
    exact ⟨_, reads, rfl, left, ⟨expands.running, expands.code⟩, (·.of_calls_le rfl fewer),
      fun _ => rfl, fun other => absurd provided other⟩
  · rw [if_neg provided] at reads
    have means := replacesCommand settings site nested name.macroName arity default body false
    exact ⟨_, reads, rfl, left, ⟨expands.running, expands.code⟩, (·.of_calls_le rfl fewer),
      fun other => absurd other provided,
      fun _ => ⟨_, fun use same => meaning?_define defines.definable same rfl, means⟩⟩

/-- The body `#1-#2`. -/
def dashed : List Token :=
  [.ofKind (.parameter (.char '#')), .ofChar '1', .ofChar '-',
    .ofKind (.parameter (.char '#')), .ofChar '2']

/-- The rest of the definition `\newcommand* {\o}[2][d]{#1-#2}`. -/
def dashedWritten : List Token :=
  [.ofChar '*', .ofKind .space, .ofKind (.beginGroup (.char '\x7b')), .ofKind (.controlWord "o"),
    .ofKind (.endGroup (.char '\x7d')), .ofChar '[', .ofChar '2', .ofChar ']', .ofChar '[',
    .ofChar 'd', .ofChar ']', .ofKind (.beginGroup (.char '\x7b'))] ++
    (dashed ++ [.ofKind (.endGroup (.char '\x7d'))])

/-- The argument `{x}`. -/
def groupedX : Scan.Supply where
  written := [.ofKind (.beginGroup (.char '\x7b')), .ofChar 'x', .ofKind (.endGroup (.char '\x7d'))]
  argument := [.ofChar 'x']

/-- A branch that has to read `\newcommand* {\o}[2][d]{#1-#2}\o{x}[`. -/
def dashedStart : Branch where
  stream := .ofTokens <| .ofKind (.controlWord "newcommand") :: dashedWritten ++
    (.ofKind (.controlWord "o") :: [groupedX].flatMap Scan.Supply.written ++ [.ofChar '['])
  steps := 0
  aborted := false
  verbatim := none
  output := #[]
  inclusions := #[]
  shared := ⟨Scope.empty, .empty noFiles.currentDirectory, #[], []⟩

/-- The first argument of `\o{x}[` is left to its default. -/
theorem exists_replacesCommand_dashed :
    ∃ first second : Branch,
      Reads ⟨noFiles, {}, .standard⟩ ⟨0, [0], 0⟩ none dashedStart first ∧
      Reads ⟨noFiles, {}, .standard⟩ ⟨0, [0], 0⟩ none first second ∧ second.output = #[] ∧
      second.stream.tokens.map Token.kind =
        [.character (.char 'd') .other, .character (.char '-') .other,
          .character (.char 'x') .other, .character (.char '[') .other] := by
  have expands : dashedStart.Expands := ⟨rfl, rfl⟩
  have star : Scan.Stars true ([] ++ [.ofChar '*']) := .star (List.forall_mem_nil _) rfl
  have names : Scan.Names (.ofKind (.controlWord "o")) true
      (([.ofKind .space] ++ [.ofKind (.beginGroup (.char '\x7b'))]) ++
        (([] ++ .ofKind (.controlWord "o") :: []) ++ [.ofKind (.endGroup (.char '\x7d'))])) :=
    .braced (by decide) rfl (List.forall_mem_nil _) (List.forall_mem_nil _) rfl
  have defaults : Scan.Defaults (some [.ofChar 'd'])
      (([] ++ [.ofChar '[']) ++ ([.ofChar 'd'] ++ [.ofChar ']'])) :=
    .some (List.forall_mem_nil _) rfl (by decide) rfl
  have none := List.forall_mem_nil fun token => Scan.isSkipped false token = true
  have defines : Scan.DefinesCommand (.ofKind (.controlWord "o")) 2 (some [.ofChar 'd']) dashed
      dashedWritten :=
    @Scan.DefinesCommand.intro _ _ _ _ _ _ _ _ [] [] (.ofChar '[') (.ofChar '2') (.ofChar ']')
      (.ofKind (.beginGroup (.char '\x7b')))
      (.ofKind (.endGroup (.char '\x7d'))) rfl star names none
      rfl rfl rfl defaults none rfl (by decide) rfl
  obtain ⟨first, reads, quiet, ahead, expands, mayCall, -, defined⟩ :=
    exists_replacesCommand expands rfl rfl rfl defines (Stream.tokens_ofTokens _)
  obtain ⟨definition, means, replaces⟩ := defined (by decide)
  have limits : dashedStart.MayCall (Settings.limits ⟨noFiles, {}, .standard⟩) :=
    ⟨10000, 64, rfl, rfl, by decide, by decide⟩
  have groups : ∀ supply ∈ [groupedX], Scan.Grouped supply := by
    intro supply member
    rw [List.mem_singleton.mp member]
    exact @Scan.Grouped.intro [] [.ofChar 'x'] (.ofKind (.beginGroup (.char '\x7b')))
      (.ofKind (.endGroup (.char '\x7d'))) none rfl (by decide) rfl
  have takes : Scan.TakesArguments 2 [.ofChar '['] (some [.ofChar 'd'])
      ([groupedX].flatMap Scan.Supply.written)
      ([.ofChar 'd'] :: [groupedX].map Scan.Supply.argument) :=
    .omitted groups rfl (by decide)
  obtain ⟨second, filled, uses, same, -, fills, left⟩ :=
    replaces expands (mayCall limits) (means _ rfl) takes ahead
  rw [Macro.filled_iff.mp fills] at left
  refine ⟨first, second, reads, uses, same.trans quiet, ?_⟩
  rw [left]
  decide

end Branch

end Expansion

end TexSource
