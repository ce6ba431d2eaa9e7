import TexSource.Proofs.Expansion.Pairs
import TexSource.Proofs.Expansion.Restoring

/-!
# Braces that scans take

A definition can take a brace without its counterpart: as its body, in its parameter text, or in a
default. One that does not has its braces in pairs (`Scan.ensures_newCommand`,
`Scan.ensures_definition`, `Scan.ensures_letBinding`). In what is taken for a directive or for a use
of such a macro braces cancel (`Scan.ensures_cancels_inclusion`, `Scan.ensures_invocation`).
-/

namespace TexSource

namespace Expansion

namespace Scan

/-- A star is consumed with the token behind it. -/
theorem ensures_nextPastStar (front : List Token) :
    Ensures (·.consumed = front) nextPastStar fun token scanner =>
      ∃ more, Token.Cancels more ∧ scanner.consumed = front ++ more ++ token.toList := by
  apply (ensures_cancels false front).bind
  intro first
  apply Ensures.of_exists
  intro more cancels
  cases first with
  | none => exact .pure fun scanner same => ⟨more, cancels, same⟩
  | some first =>
    split
    · rename_i star
      have plain : first.isBrace = false := Token.isBrace_of_isCharacter star
      constructor
      intro scanner same
      obtain ⟨others, later, same⟩ := (ensures_cancels false _).ensure scanner same
      exact ⟨_, (cancels.concat plain).append later, by simpa using same⟩
    · exact .pure fun scanner same => ⟨more, cancels, same⟩

/-- What is read of the name of a new command. -/
theorem ensures_newCommandName (front : List Token) :
    Ensures (·.consumed = front) newCommandName fun name scanner => name.isSome = true →
      ∃ more, Token.Cancels more ∧ scanner.consumed = front ++ more := by
  apply (ensures_nextPastStar front).bind
  intro first
  apply Ensures.of_exists
  intro more cancels
  cases first with
  | none => exact .pure fun _ _ found => by cases found
  | some first =>
    dsimp only
    split
    · rename_i opens
      apply (ensures_group opens (front ++ more)).bind
      intro body
      apply Ensures.pure
      intro scanner taken found
      cases body with
      | none => cases found
      | some content =>
        obtain ⟨closer, balanced, -, same⟩ := taken content rfl
        exact ⟨_, cancels.append balanced.cancels, by simpa using same⟩
    · apply Ensures.pure
      intro scanner same found
      cases definable : first.isDefinable with
      | false => simp [definable] at found
      | true =>
        exact ⟨_, cancels.concat (Token.isBrace_of_isDefinable definable), by simpa using same⟩

/-- The default of the first argument leaves the depth outside of braces as it is. -/
theorem ensures_argumentList (front : List Token) :
    Ensures (·.consumed = front) argumentList fun outcome scanner =>
      ∀ list, outcome = .ok (some list) → ∃ more, Token.Cancels more ∧
        (∀ default ∈ list.default, Token.Levels 0 more default) ∧
        scanner.consumed = front ++ more ++ list.next.toList := by
  have nothing : ∀ {before : Scanner → Prop} {outcome : Except NumberError (Option ArgumentList)},
      (∀ list, outcome ≠ .ok (some list)) → Ensures before (Pure.pure outcome : Scan _)
        fun outcome scanner => ∀ list, outcome = .ok (some list) → ∃ more, Token.Cancels more ∧
          (∀ default ∈ list.default, Token.Levels 0 more default) ∧
          scanner.consumed = front ++ more ++ list.next.toList :=
    fun other => .pure fun _ _ list found => absurd found (other list)
  apply (ensures_cancels false front).bind
  intro first
  apply Ensures.of_exists
  intro gap cancels
  split
  · rename_i opensNumber
    obtain ⟨opener, rfl, opens⟩ := isCharacter_of_any opensNumber
    have outside := cancels.concat (Token.isBrace_of_isCharacter opens)
    apply (ensures_bracket _).bind
    intro digits
    dsimp only
    split
    · rename_i number
      obtain ⟨content, rfl⟩ : ∃ content, digits = some content := by
        cases digits with
        | none => exact absurd number (by decide)
        | some content => exact ⟨content, rfl⟩
      apply Ensures.of_some
      apply Ensures.of_exists
      rintro closer ⟨plain, inside⟩
      have numbered := (outside.append inside).concat plain
      split
      · exact nothing fun _ => nofun
      · apply (ensures_cancels false _).bind
        intro second
        apply Ensures.of_exists
        intro gapBehind later
        have outside := numbered.append later
        split
        · rename_i opensDefault
          obtain ⟨opener, rfl, opens⟩ :=
            isCharacter_of_any (Bool.and_eq_true_iff.mp opensDefault).1
          have outside := outside.concat (Token.isBrace_of_isCharacter opens)
          apply (ensures_bracket _).bind
          intro default
          cases default with
          | none => exact nothing fun _ => nofun
          | some default =>
            apply Ensures.of_some
            apply Ensures.of_exists
            rintro closer ⟨plain, inside⟩
            apply (ensures_cancels false _).bind
            intro next
            apply Ensures.pure
            rintro scanner ⟨gapLast, last, same⟩ list found
            cases found
            refine ⟨_, ((outside.append inside).concat plain).append last, ?_, by simpa using same⟩
            rintro _ ⟨⟩
            exact ((inside.levels.behind outside).append [closer]).append gapLast
        · refine .pure fun scanner same list found => ?_
          cases found
          refine ⟨_, outside, fun _ member => absurd member (Option.not_mem_none _), ?_⟩
          simpa using same
    · exact nothing fun _ => nofun
  · refine .pure fun scanner same list found => ?_
    cases found
    exact ⟨gap, cancels, fun _ member => absurd member (Option.not_mem_none _), same⟩

/-- The body of a `\newcommand` stays at its level. -/
theorem ensures_newCommandBody (first : Option Token) (front : List Token) :
    Ensures (·.consumed = front ++ first.toList) (newCommandBody first) fun body scanner =>
      ∀ tokens ∈ body, ∃ more, Token.Levels 0 more tokens ∧ scanner.consumed = front ++ more := by
  cases first with
  | none => exact .pure fun _ _ _ found => absurd found (Option.not_mem_none _)
  | some first =>
    unfold newCommandBody
    dsimp only
    split
    · rename_i opens
      constructor
      intro scanner same tokens found
      obtain ⟨closer, -, balanced, same⟩ :=
        (ensures_group opens front).ensure scanner same tokens found
      exact ⟨_, balanced.levels, same⟩
    · rename_i unopened
      apply Ensures.pure
      rintro scanner same tokens ⟨⟩
      refine ⟨[first], fun behind found => ?_, same⟩
      -- A closing brace alone is read at no depth.
      exact Token.depthBehind_plain (Token.plain_of_depthBehind found (by simpa using unopened))

/-- The parameters of a `\newcommand` are paired if the default is balanced. -/
theorem paired_newCommandParameters {arity : Nat} {default : Option (List Token)}
    (balanced : ∀ tokens ∈ default, Token.Balanced tokens) :
    ∀ parameter ∈ newCommandParameters arity default, parameter.Paired := by
  intro parameter member
  cases default with
  | none =>
    rw [(List.mem_replicate.mp member).2]
    exact .undelimited
  | some tokens =>
    rcases List.mem_cons.mp member with rfl | member
    · exact .optional (balanced tokens rfl)
    · rw [(List.mem_replicate.mp member).2]
      exact .undelimited

/-- **A new command that takes each brace with its counterpart** has its braces in pairs. -/
theorem ensures_newCommand :
    Ensures (·.consumed = []) newCommand fun outcome scanner => ∀ definition,
      outcome = .ok (some definition) → Token.Balanced scanner.consumed → definition.Paired := by
  apply (ensures_newCommandName []).bind
  intro name
  cases name with
  | none => exact .pure fun _ _ _ found => by cases found
  | some name =>
    apply Ensures.of_implies rfl
    apply Ensures.of_exists
    intro named cancels
    apply (ensures_argumentList _).bind
    intro outcome
    split
    · exact .pure fun _ _ _ found => by cases found
    · exact .pure fun _ _ _ found => by cases found
    · rename_i list
      suffices ∀ listed, Token.Cancels listed ∧
          (∀ default ∈ list.default, Token.Levels 0 listed default) →
            Ensures (·.consumed = [] ++ named ++ listed ++ list.next.toList) _ _ from
        (Ensures.of_exists this).weaken fun _ taken => by
          simpa only [and_assoc] using taken list rfl
      rintro listed ⟨cancelsList, level⟩
      apply (ensures_newCommandBody list.next _).bind
      intro body
      apply Ensures.pure
      intro scanner taken definition found balanced
      obtain ⟨tokens, given, rfl⟩ := Option.map_eq_some_iff.mp (Except.ok.inj found)
      obtain ⟨more, inside, same⟩ := taken tokens given
      rw [same, List.nil_append] at balanced
      have body : Token.Balanced tokens :=
        inside.behind (cancels.append cancelsList) 0 balanced
      refine ⟨body, List.forall_mem_nil _, paired_newCommandParameters fun default member => ?_⟩
      exact ((level default member).behind cancels).append more 0 balanced

/-- A report is seen behind the scan. -/
theorem ensures_reported {before : Scanner → Prop} {problem : Problem} {span : Span} :
    Ensures before (report problem span) fun _ scanner => scanner.reports ≠ #[] :=
  ⟨fun _ _ => Array.push_ne_empty⟩

/-- **A definition that takes each brace with its counterpart** has its braces in pairs, if its
replacement ends. -/
theorem ensures_definition (isGlobal : Bool) {front : List Token} (cancels : Token.Cancels front) :
    Ensures (·.consumed = front) (definition isGlobal) fun found scanner =>
      scanner.reports = #[] → Token.Balanced scanner.consumed →
        ∀ definition ∈ found, definition.Paired := by
  have nothing : ∀ {before : Scanner → Prop}, Ensures before (Pure.pure none : Scan _)
      fun (found : Option Macro) scanner => scanner.reports = #[] →
        Token.Balanced scanner.consumed → ∀ definition ∈ found, definition.Paired :=
    .pure fun _ _ _ _ _ found => absurd found (Option.not_mem_none _)
  apply (ensures_cancels false front).bind
  intro name
  apply Ensures.of_exists
  intro gap gapCancels
  cases name with
  | none => exact nothing
  | some name =>
    dsimp only
    split
    · rename_i definable
      have named := (cancels.append gapCancels).concat (Token.isBrace_of_isDefinable definable)
      apply (ensures_reading _ _ _).bind
      intro parameterText
      split
      · rename_i stops
        obtain ⟨opener, stops⟩ := Option.isSome_iff_exists.mp stops
        rw [stops]
        apply Ensures.of_and
        rintro ⟨middle, goes, -⟩
        have unopened : ∀ token ∈ parameterText.before, token.isBeginGroup = false := goes.forall
        apply (ensures_reading _ _ _).bind
        intro body
        cases ends : body.stop with
        | none => exact ensures_reported.bind fun _ => .pure fun _ reported silent =>
            absurd silent reported
        | some closer =>
          apply Ensures.pure
          rintro scanner ⟨same, middle, goes, stopped⟩ - balanced _ ⟨⟩
          obtain ⟨rfl, -⟩ := groupTest_stops (stopped closer ends)
          rw [same, List.append_assoc, List.append_assoc] at balanced
          obtain ⟨behind, read, -⟩ := Token.exists_depthBehind_of_append balanced
          obtain ⟨outside, first, inText⟩ := Token.exists_depthBehind_of_append read
          rw [named 0 outside first] at inText
          exact Macro.paired_ofParameterText _ _ (Token.plain_of_depthBehind inText unopened)
            (depthBehind_of_goes goes)
      · exact nothing
    · exact nothing

/-- The source of a `\let` is consumed with what cancels out before it. -/
theorem ensures_letSource (front : List Token) :
    Ensures (·.consumed = front) letSource fun source scanner => ∀ token ∈ source,
      ∃ more, Token.Cancels more ∧ scanner.consumed = front ++ more ++ [token] := by
  have nothing : ∀ {before : Scanner → Prop}, Ensures before (Pure.pure none : Scan _)
      fun (source : Option Token) scanner => ∀ token ∈ source,
        ∃ more, Token.Cancels more ∧ scanner.consumed = front ++ more ++ [token] :=
    .pure fun _ _ _ found => absurd found (Option.not_mem_none _)
  apply (ensures_cancels true front).bind
  intro first
  apply Ensures.of_exists
  intro gap cancels
  cases first with
  | none => exact nothing
  | some first =>
    dsimp only
    split
    · rename_i equals
      have outside := cancels.concat (Token.isBrace_of_isCharacter equals)
      apply (ensures_next _).bind
      intro second
      cases second with
      | none => exact nothing
      | some second =>
        dsimp only
        split
        · rename_i space
          have skipped : isSkipped true second = true := by rw [isSkipped, space, Bool.true_or]
          have plain : second.isBrace = false := isBrace_of_isSkipped skipped
          constructor
          rintro scanner same token found
          have same := (ensures_next _).ensure scanner same
          rw [found] at same
          exact ⟨_, outside.concat plain, by simpa using same⟩
        · apply Ensures.pure
          rintro scanner same _ ⟨⟩
          exact ⟨_, outside, by simpa using same⟩
    · apply Ensures.pure
      rintro scanner same _ ⟨⟩
      exact ⟨gap, cancels, same⟩

/-- The meaning of a source is paired if the scope is. -/
theorem paired_meaningOf {scope : Scope}
    (paired : ∀ name definition, scope.lookup name = some definition → definition.Paired)
    (name : Text) {source : Token} (plain : source.isBrace = false) (isGlobal : Bool) :
    (meaningOf scope name source isGlobal).Paired := by
  unfold meaningOf
  dsimp only
  split
  · rename_i existing found
    split at found
    · exact (paired _ _ found).rename name isGlobal
    · cases found
  · exact ⟨Token.balanced_singleton_iff.mpr plain, List.forall_mem_nil _, List.forall_mem_nil _⟩

/-- **A macro that copies a meaning** has its braces in pairs, if it copies no brace. -/
theorem ensures_letBinding {scope : Scope}
    (paired : ∀ name definition, scope.lookup name = some definition → definition.Paired)
    (isGlobal : Bool) {front : List Token} (cancels : Token.Cancels front) :
    Ensures (·.consumed = front) (letBinding scope isGlobal) fun found scanner =>
      Token.Balanced scanner.consumed → ∀ definition ∈ found, definition.Paired := by
  have nothing : ∀ {before : Scanner → Prop}, Ensures before (Pure.pure none : Scan _)
      fun (found : Option Macro) scanner =>
        Token.Balanced scanner.consumed → ∀ definition ∈ found, definition.Paired :=
    .pure fun _ _ _ _ found => absurd found (Option.not_mem_none _)
  apply (ensures_cancels false front).bind
  intro target
  apply Ensures.of_exists
  intro gap gapCancels
  cases target with
  | none => exact nothing
  | some target =>
    dsimp only
    split
    · rename_i definable
      have named := (cancels.append gapCancels).concat (Token.isBrace_of_isDefinable definable)
      apply (ensures_letSource _).bind
      intro source
      apply Ensures.pure
      intro scanner taken balanced definition found
      obtain ⟨token, given, rfl⟩ := Option.map_eq_some_iff.mp found
      obtain ⟨more, later, same⟩ := taken token given
      rw [same] at balanced
      obtain ⟨behind, read, last⟩ := Token.exists_depthBehind_of_append balanced
      obtain rfl := (named.append later) 0 behind read
      exact paired_meaningOf paired _ (Token.balanced_singleton_iff.mp last) isGlobal
    · exact nothing

/-- No brace stands among marks. -/
theorem isBrace_of_goes_markTest {scope : Scope} {before behind : Bool} {tokens : List Token}
    (goes : Goes (markTest scope) before tokens behind) :
    ∀ token ∈ tokens, token.isBrace = false := by
  intro token member
  induction goes with
  | nil => cases member
  | @cons before middle last first rest goesOn _ ih =>
    rcases List.mem_cons.mp member with rfl | member
    · unfold markTest at goesOn
      split at goesOn
      · rename_i kind
        simp [Token.isBrace, Token.isBeginGroup, Token.isEndGroup, kind]
      · have skipped := (Prod.ext_iff.mp goesOn).2
        exact isBrace_of_isSkipped (by simpa using skipped)
    · exact ih member

/-- What marks come to: they belong to no definition and have no braces, or to one whose braces are
in pairs. -/
structure Marks (outcome : Marked) (scanner : Scanner) : Prop where
  notOurs (notOurs : outcome = .notOurs) : Token.Cancels scanner.consumed
  defines (silent : scanner.reports = #[]) (balanced : Token.Balanced scanner.consumed)
    {definition : Macro} (defines : outcome = .defines definition) : definition.Paired

namespace Marks

variable {scanner : Scanner}

/-- Nothing is marked if what is consumed cancels out. -/
theorem of_notOurs (cancels : Token.Cancels scanner.consumed) : Marks .notOurs scanner :=
  ⟨fun _ => cancels, fun _ _ _ defines => by cases defines⟩

theorem of_givenUp : Marks .givenUp scanner :=
  ⟨fun notOurs => (by cases notOurs), fun _ _ _ defines => by cases defines⟩

/-- A marked definition is paired if what is consumed is balanced. -/
theorem of_defines {definition : Macro} (paired : scanner.reports = #[] →
    Token.Balanced scanner.consumed → definition.Paired) : Marks (.defines definition) scanner := by
  refine ⟨fun notOurs => (by cases notOurs), fun silent balanced _ defines => ?_⟩
  cases defines
  exact paired silent balanced

end Marks

/-- Behind marks, a definition that is read is paired. -/
theorem ensures_markedBehind {scope : Scope}
    (paired : ∀ name definition, scope.lookup name = some definition → definition.Paired)
    {marks : Reading Bool} (cancels : Token.Cancels marks.before) :
    Ensures (·.consumed = marks.before ++ marks.stop.toList) (markedBehind scope marks) Marks := by
  unfold markedBehind
  dsimp only
  cases stop : marks.stop with
  | none =>
    refine .pure fun scanner same => .of_notOurs ?_
    rw [same]
    exact cancels.append (Token.cancels_plain (List.forall_mem_nil _))
  | some token =>
    have unreads : Ensures (·.consumed = marks.before ++ [token])
        (do unread; return Marked.notOurs) Marks :=
      (Ensures.unread marks.before token).bind fun _ =>
        .pure fun scanner same => .of_notOurs (by rwa [same])
    dsimp only
    split
    · rename_i word kind
      have plain : token.isBrace = false := by
        simp [Token.isBrace, Token.isBeginGroup, Token.isEndGroup, kind]
      have outside := cancels.concat plain
      split
      · exact unreads
      · split
        · apply (ensures_definition _ outside).bind
          intro found
          refine .pure fun scanner taken => ?_
          cases found with
          | none => exact .of_givenUp
          | some definition =>
            exact .of_defines fun silent balanced => taken silent balanced definition rfl
        · split
          · apply (ensures_letBinding paired _ outside).bind
            intro found
            refine .pure fun scanner taken => ?_
            cases found with
            | none => exact .of_givenUp
            | some definition => exact .of_defines fun _ balanced => taken balanced definition rfl
          · exact .pure fun scanner same => .of_notOurs (by rw [same]; exact outside)
    · exact unreads

/-- A definition that is read with its marks is paired. -/
theorem ensures_marked {scope : Scope}
    (paired : ∀ name definition, scope.lookup name = some definition → definition.Paired)
    (isGlobal : Bool) : Ensures (·.consumed = []) (marked scope isGlobal) Marks := by
  apply (ensures_reading _ _ []).bind
  intro marks
  apply Ensures.of_and
  rintro ⟨middle, goes, -⟩
  exact ensures_markedBehind paired (Token.cancels_plain (isBrace_of_goes_markTest goes))

/-- A character is no brace. -/
theorem isBrace_of_isAnyCharacter {token : Token} (character : isAnyCharacter token = true) :
    token.isBrace = false := by
  unfold isAnyCharacter at character
  cases kind : token.kind <;> simp_all [Token.isBrace, Token.isBeginGroup, Token.isEndGroup]

/-- Braces cancel in what is taken of a directive. -/
theorem ensures_cancels_inclusion : Ensures (·.consumed = []) inclusion fun found scanner =>
    found.isSome = true → Token.Cancels scanner.consumed := by
  apply (ensures_cancels true []).bind
  intro token
  apply Ensures.of_exists
  intro gap cancels
  cases token with
  | none => exact .pure fun _ _ found => by cases found
  | some token =>
    dsimp only
    split
    · rename_i opens
      apply (ensures_group opens _).bind
      intro body
      cases body with
      | none => exact .pure fun _ _ found => by cases found
      | some body =>
        apply Ensures.get
        intro scanner taken
        apply Ensures.pure
        rintro _ rfl -
        obtain ⟨closer, balanced, -, same⟩ := taken body rfl
        rw [same]
        exact cancels.append balanced.cancels
    · split
      · rename_i character
        have first := cancels.concat (isBrace_of_isAnyCharacter character)
        apply Ensures.get
        intro scanner same
        have more := ensures_reading (fun _ token => ((), !isAnyCharacter token)) ()
          (gap ++ [token])
        apply (more.weaken fun now (here : now = scanner) => by rw [here]; exact same).bind
        intro reading
        apply Ensures.of_and
        rintro ⟨middle, goes, -⟩
        have whole : Token.Cancels (gap ++ [token] ++ reading.before) :=
          first.append (Token.cancels_plain fun other member =>
            isBrace_of_isAnyCharacter (by simpa using goes.forall other member))
        cases stop : reading.stop with
        | none => exact .pure fun scanner same _ => by rw [same]; simpa using whole
        | some last =>
          apply (Ensures.unread (gap ++ [token] ++ reading.before) last).bind
          intro _
          exact .pure fun scanner same _ => by rw [same]; exact whole
      · exact .pure fun _ _ found => by cases found

/-- A directive that names a file is balanced. -/
theorem balanced_enclosed {first : Token} {rest : List Token} (plain : first.isBrace = false)
    (names : Token.NamesFile rest) : Token.Balanced (enclosed first rest) :=
  Token.balanced_enclosed rfl
    (by rw [Token.Balanced, Token.depthBehind_other plain, names.balanced]) rfl

/-- A scan takes no report back. -/
structure Silent {Result : Type} (scan : Scan Result) : Prop where
  earlier : ∀ scanner, (scan scanner).2.reports = #[] → scanner.reports = #[]

/-- Silence composes. -/
theorem composes_silent : Composes Silent where
  pure _ := ⟨fun _ => id⟩
  bind hfirst hsecond := ⟨fun _ silent => hfirst.earlier _ ((hsecond _).earlier _ silent)⟩
  get := ⟨fun _ => id⟩
  readUntil _ _ := ⟨fun _ => id⟩
  unread := ⟨fun scanner silent => Quiet.unread.reports scanner ▸ silent⟩
  report _ _ := ⟨fun _ silent => absurd silent Array.push_ne_empty⟩

/-- Of silent scans in sequence, each one is silent. -/
theorem Ensures.bind_silent {First Second : Type} {first : Scan First}
    {second : First → Scan Second} {before : Scanner → Prop} {middle : First → Scanner → Prop}
    {after : Second → Scanner → Prop}
    (hfirst : Ensures before first fun result scanner =>
      scanner.reports = #[] → middle result scanner)
    (silent : ∀ result, Silent (second result))
    (hsecond : ∀ result, Ensures (middle result) (second result) fun result scanner =>
      scanner.reports = #[] → after result scanner) :
    Ensures before (first >>= second) fun result scanner =>
      scanner.reports = #[] → after result scanner :=
  ⟨fun scanner holds quiet => (hsecond _).ensure _
    (hfirst.ensure scanner holds ((silent _).earlier _ quiet)) quiet⟩

/-- A literal that agrees is consumed with what cancels out before it. -/
theorem ensures_literal {expected : List Token} (plain : ∀ token ∈ expected, token.isBrace = false)
    (front : List Token) : Ensures (·.consumed = front) (literal expected) fun agrees scanner =>
      agrees = true → ∃ more, Token.Cancels more ∧ scanner.consumed = front ++ more := by
  induction expected generalizing front with
  | nil =>
    exact .pure fun scanner same _ =>
      ⟨[], Token.cancels_plain (List.forall_mem_nil _), by simpa using same⟩
  | cons token rest ih =>
    rw [List.forall_mem_cons] at plain
    apply (ensures_next front).bind
    intro actual
    cases actual with
    | none => exact .pure fun _ _ agrees => by cases agrees
    | some actual =>
      dsimp only
      split
      · rename_i same
        constructor
        intro scanner taken agrees
        obtain ⟨more, cancels, taken⟩ := (ih plain.2 _).ensure scanner taken agrees
        have plain := Token.isBrace_of_sameAs same plain.1
        exact ⟨_, cancels.cons plain, by simpa using taken⟩
      · exact .pure fun _ _ agrees => by cases agrees

end Scan

/-- A search remembers a closing brace without an opening one. -/
theorem extra_of_delimiterTest {reversedStop : List Token} {search : Scan.DelimiterSearch}
    {token : Token} (clear : (Scan.delimiterTest reversedStop search token).1.extra = none) :
    search.extra = none ∧ ∃ behind, Token.depthBehind search.depth [token] = some behind := by
  unfold Scan.delimiterTest at clear
  dsimp only at clear
  by_cases opens : token.isBeginGroup = true
  · rw [if_pos opens] at clear
    exact ⟨clear, _, Token.depthBehind_beginGroup opens⟩
  rw [if_neg opens] at clear
  by_cases closes : token.isEndGroup = true
  · rw [if_pos closes] at clear
    cases depth : search.depth with
    | zero =>
      rw [depth] at clear
      cases extra : search.extra <;> simp [extra] at clear
    | succ outer =>
      rw [depth] at clear
      exact ⟨clear, _, Token.depthBehind_endGroup closes⟩
  · rw [if_neg closes] at clear
    exact ⟨clear, _, Token.depthBehind_other (by simp [Token.isBrace, opens, closes])⟩

/-- A search without an extra brace had none before. -/
theorem extra_of_goes {reversedStop tokens : List Token} {search last : Scan.DelimiterSearch}
    (goes : Goes (Scan.delimiterTest reversedStop) search tokens last) (clear : last.extra = none) :
    search.extra = none := by
  induction goes with
  | nil => exact clear
  | cons goesOn _ ih => exact (extra_of_delimiterTest (by rw [goesOn]; exact ih clear)).1

/-- A search that remembers no closing brace without an opening one counts the depth of braces. -/
theorem exists_depthBehind_of_goes {stop before tokens : List Token} {depth : Nat}
    {last : Scan.DelimiterSearch}
    (goes : Goes (Scan.delimiterTest stop.reverse)
      ⟨depth, Scan.seenBehind before.reverse, none⟩ tokens last)
    (read : Token.depthBehind 0 before = some depth) (clear : last.extra = none) :
    ∃ behind, Token.depthBehind 0 (before ++ tokens) = some behind ∧
      last = ⟨behind, Scan.seenBehind (before ++ tokens).reverse, none⟩ := by
  induction tokens generalizing before depth with
  | nil =>
    cases goes
    exact ⟨depth, by rwa [List.append_nil], by rw [List.append_nil]⟩
  | cons token rest ih =>
    cases goes with
    | cons goesOn later =>
      obtain ⟨-, next, here⟩ :=
        extra_of_delimiterTest (by rw [goesOn]; exact extra_of_goes later clear)
      rw [Scan.delimiterTest_seenBehind read here] at goesOn
      obtain rfl := (Prod.ext_iff.mp goesOn).1
      rw [List.append_cons]
      refine ih later ?_
      rw [Token.depthBehind_append, read, Option.bind_some, here]

namespace Scan

/-- **Braces match in an argument with a delimiter**, if no closing brace without an opening one is
reported in it. -/
theorem ensures_delimited {stop : List Token} (delimits : stop ≠ [])
    (plain : ∀ token ∈ stop, token.isBrace = false) (name : Text) (use : Token)
    (front : List Token) :
    Ensures (·.consumed = front) (delimited stop name use) fun argument scanner =>
      scanner.reports = #[] → ∀ tokens ∈ argument, ∃ more,
        (Token.Cancels more ∧ ∀ depth, Token.Levels depth more tokens) ∧
          scanner.consumed = front ++ more := by
  apply (ensures_reading _ _ front).bind
  intro search
  apply Ensures.of_and
  rintro ⟨middle, goes, stopped⟩
  have reported : Ensures (·.consumed = front ++ search.before ++ search.stop.toList)
      (reportExtra name search.memory.extra) fun _ scanner => scanner.reports = #[] →
        search.memory.extra = none ∧
          scanner.consumed = front ++ search.before ++ search.stop.toList := by
    cases search.memory.extra with
    | none => exact .pure fun _ same _ => ⟨rfl, same⟩
    | some span => exact ⟨fun _ _ silent => absurd silent Array.push_ne_empty⟩
  refine reported.bind_silent (fun _ => ?_) fun _ => ?_
  · unfold delimitedArgument
    split
    · exact composes_silent.bind (composes_silent.report ..) fun _ => composes_silent.pure _
    · exact composes_silent.pure _
  unfold delimitedArgument
  cases stops : search.stop with
  | none =>
    exact ensures_reported.bind fun _ => .pure fun _ _ _ _ found =>
      absurd found (Option.not_mem_none _)
  | some last =>
    apply Ensures.pure
    rintro scanner ⟨clear, same⟩ - tokens ⟨⟩
    have stops := stopped last stops
    have start : Token.depthBehind 0 [] = some 0 := rfl
    obtain ⟨inside, next, here⟩ := extra_of_delimiterTest (by rw [stops]; exact clear)
    obtain ⟨behind, read, rfl⟩ := exists_depthBehind_of_goes goes start inside
    rw [List.nil_append] at read stops
    rw [delimiterTest_seenBehind read here] at stops
    obtain ⟨argument, delimiter, split, balanced, matched⟩ :=
      (endsWith_iff delimits plain).mp (Prod.ext_iff.mp stops).2
    have length : delimiter.length = stop.length := List.Forall₂.length_eq matched
    have taken : (search.before ++ [last]).take ((search.before ++ [last]).length - stop.length) =
        argument := by
      rw [split, ← length, List.length_append, Nat.add_sub_cancel_right, List.take_left]
    refine ⟨argument ++ delimiter, ⟨balanced.cancels.append ?_, fun depth => ?_⟩, ?_⟩
    · exact Token.cancels_plain (matched.plain plain)
    · rw [taken]
      exact (Macro.balanced_stripBraces balanced).levels
    · rw [← split]
      simpa using same

/-- Braces cancel in what is taken for an argument, which leaves the depth of braces as it is where
it is read. -/
theorem ensures_argument (name : Text) (use : Token) {parameter : Parameter}
    (paired : parameter.Paired) (front : List Token) :
    Ensures (·.consumed = front) (argument name use parameter) fun argument scanner =>
      scanner.reports = #[] → ∀ tokens ∈ argument, ∃ more,
        (Token.Cancels more ∧ ∀ depth, Token.Levels depth more tokens) ∧
          scanner.consumed = front ++ more := by
  cases paired with
  | delimited delimits plain => exact ensures_delimited delimits plain name use front
  | undelimited =>
    apply (ensures_cancels false front).bind
    intro token
    apply Ensures.of_exists
    intro gap cancels
    cases token with
    | none => exact .pure fun _ _ _ _ found => absurd found (Option.not_mem_none _)
    | some token =>
      dsimp only
      split
      · exact (Ensures.unread _ token).bind fun _ =>
          .pure fun _ _ _ _ found => absurd found (Option.not_mem_none _)
      · rename_i unclosed
        split
        · rename_i opens
          constructor
          intro scanner same _ tokens found
          obtain ⟨closer, whole, balanced, same⟩ :=
            (ensures_group opens (front ++ gap)).ensure scanner same tokens found
          exact ⟨_, ⟨cancels.append whole.cancels, fun _ => balanced.levels⟩, by simpa using same⟩
        · rename_i unopened
          have plain : token.isBrace = false := by simp [Token.isBrace, unclosed, unopened]
          apply Ensures.pure
          rintro scanner same - _ ⟨⟩
          have single := Token.balanced_singleton_iff.mpr plain
          exact ⟨_, ⟨cancels.concat plain, fun _ => single.levels⟩, by simpa using same⟩
  | @optional default balanced =>
    apply (ensures_cancels true front).bind
    intro token
    apply Ensures.of_exists
    intro gap cancels
    cases token with
    | none =>
      apply Ensures.pure
      rintro scanner same - _ ⟨⟩
      exact ⟨gap, ⟨cancels, fun _ => balanced.levels⟩, by simpa using same⟩
    | some token =>
      dsimp only
      split
      · rename_i opens
        have outside := cancels.concat (Token.isBrace_of_isCharacter opens)
        constructor
        intro scanner same _ tokens found
        obtain ⟨closer, ⟨plain, inside⟩, same⟩ :=
          (ensures_bracket _).ensure scanner same tokens found
        refine ⟨_, ⟨(outside.append inside).concat plain, fun _ => ?_⟩, by simpa using same⟩
        exact (inside.levels.behind outside).append [closer]
      · apply (Ensures.unread _ token).bind
        intro _
        apply Ensures.pure
        rintro scanner same - _ ⟨⟩
        exact ⟨gap, ⟨cancels, fun _ => balanced.levels⟩, same⟩

/-- Arguments stay at their level. -/
theorem ensures_arguments (name : Text) (use : Token) {parameters : List Parameter}
    (paired : ∀ parameter ∈ parameters, parameter.Paired) (found : List (List Token))
    (front : List Token) :
    Ensures (·.consumed = front) (arguments name use found parameters) fun outcome scanner =>
      scanner.reports = #[] → ∀ given, outcome = .ok given → ∃ more,
        (Token.Cancels more ∧ ∀ tokens ∈ given, tokens ∈ found ∨
          ∀ depth, Token.Levels depth more tokens) ∧
          scanner.consumed = front ++ more := by
  induction parameters generalizing found front with
  | nil =>
    apply Ensures.pure
    rintro scanner same - given ⟨⟩
    refine ⟨[], ⟨Token.cancels_plain (List.forall_mem_nil _), fun tokens member => ?_⟩,
      by simpa using same⟩
    exact .inl (List.mem_reverse.mp member)
  | cons parameter rest ih =>
    rw [List.forall_mem_cons] at paired
    refine (ensures_argument name use paired.1 front).bind_silent (fun tokens => ?_)
      fun tokens => ?_
    · cases tokens with
      | none => exact composes_silent.pure _
      | some tokens => exact composes_silent.arguments ..
    cases tokens with
    | none => exact .pure fun _ _ _ _ found => by cases found
    | some tokens =>
      apply Ensures.of_some
      apply Ensures.of_exists
      rintro first ⟨cancels, level⟩
      constructor
      intro scanner same silent given outcome
      obtain ⟨more, ⟨later, levels⟩, same⟩ :=
        (ih paired.2 (tokens :: found) _).ensure scanner same silent given outcome
      refine ⟨first ++ more, ⟨cancels.append later, fun other member => ?_⟩, by simpa using same⟩
      rcases levels other member with earlier | inside
      · rcases List.mem_cons.mp earlier with rfl | earlier
        · exact .inr fun depth => (level depth).append more
        · exact .inl earlier
      · exact .inr fun depth => (inside depth).behind cancels

/-- **Braces cancel in what is taken for a use of a macro** with braces in pairs, and the arguments
leave the depth of braces as it is where they are read. -/
theorem ensures_invocation {definition : Macro} (paired : definition.Paired) (use : Token) :
    Ensures (·.consumed = []) (invocation definition use) fun outcome scanner =>
      scanner.reports = #[] → ∀ arguments, outcome = .ok arguments →
        Token.Cancels scanner.consumed ∧ ∀ tokens ∈ arguments, ∀ depth,
          Token.Levels depth scanner.consumed tokens := by
  apply (ensures_literal paired.literal []).bind
  intro agrees
  split
  · rename_i agrees
    apply Ensures.of_implies agrees
    apply Ensures.of_exists
    intro spelled cancels
    apply (ensures_arguments definition.name use paired.parameters [] _).bind
    intro outcome
    cases outcome with
    | error count => exact .pure fun _ _ _ _ found => by cases found
    | ok found =>
      apply Ensures.pure
      rintro scanner taken silent arguments ⟨⟩
      obtain ⟨more, ⟨later, level⟩, same⟩ := taken silent found rfl
      rw [same, List.nil_append]
      refine ⟨cancels.append later, fun tokens member depth => ?_⟩
      exact ((level tokens member).resolve_left (List.not_mem_nil)) depth |>.behind cancels
  · exact .pure fun _ _ _ _ found => by cases found

end Scan

end Expansion

end TexSource
