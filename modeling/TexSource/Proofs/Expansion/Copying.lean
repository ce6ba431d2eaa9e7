import TexSource.Proofs.Expansion.NewCommands
import TexSource.Proofs.Expansion.Printed
import TexSource.Proofs.Expansion.Scoping

/-!
# Copies of meanings

A `\let` gives a name the present meaning of another token (`Branch.exists_lets`). The meaning of a
macro is copied: as long as the new name is not defined again, its uses come to what the uses of
the macro came to, whatever becomes of the macro. A name without a meaning is not copied but
recorded: a use of the new name is replaced by the old one, which is read next with the meaning
that it has by that time (`sourceText_redefined`).
-/

namespace TexSource

namespace Layered

variable {Key Value : Type} {key : Key} {changes : List (Change Key Value)}

/-- The key that a change binds. -/
def Change.key? : Change Key Value → Option Key
  | .assignedLocally key _ => some key
  | .assignedGlobally key _ => some key
  | _ => none

variable [DecidableEq Key]

theorem seen?_eq_none (others : ∀ change ∈ changes, change.key? ≠ some key) (closed : Nat) :
    seen? key closed changes = none := by
  fun_induction seen? key closed changes with
  | case1 => rfl
  | case2 closed earlier ih => exact ih (List.forall_mem_cons.mp others).2
  | case3 closed earlier ih => exact ih (List.forall_mem_cons.mp others).2
  | case4 closed assigned value earlier both =>
    exact absurd (congrArg some both.1) (List.forall_mem_cons.mp others).1
  | case5 closed assigned value earlier _ ih => exact ih (List.forall_mem_cons.mp others).2
  | case6 closed value earlier => exact absurd rfl (List.forall_mem_cons.mp others).1
  | case7 closed assigned value earlier _ ih => exact ih (List.forall_mem_cons.mp others).2

theorem Evolves.eq_of_nil {base : Nat} {first last : Layered Key Value}
    (evolves : Evolves base first [] last) : last = first := by
  generalize none : ([] : List (Change Key Value)) = changes at evolves
  cases evolves with
  | start => rfl
  | _ => simp at none

/-- A single change closes no layer down to the depth behind it. -/
theorem Evolves.of_length_le_one {base low : Nat} {first last : Layered Key Value}
    (evolves : Evolves low first changes last) (single : changes.length ≤ 1)
    (above : base ≤ first.depth) (behind : base ≤ last.depth) :
    Evolves base first changes last := by
  cases evolves with
  | start => exact .start above
  | @opened earlier last before =>
    obtain rfl : earlier = [] := by simpa using single
    obtain rfl := before.eq_of_nil
    exact (Evolves.start above).opened
  | @closed earlier last before inner =>
    obtain rfl : earlier = [] := by simpa using single
    obtain rfl := before.eq_of_nil
    refine (Evolves.start above).closed ?_
    simp only [depth, pop, List.length_tail] at behind inner ⊢
    omega
  | @assignedLocally earlier last before key value =>
    obtain rfl : earlier = [] := by simpa using single
    obtain rfl := before.eq_of_nil
    exact (Evolves.start above).assignedLocally key value
  | @assignedGlobally earlier last before key value =>
    obtain rfl : earlier = [] := by simpa using single
    obtain rfl := before.eq_of_nil
    exact (Evolves.start above).assignedGlobally key value

/-- A key keeps its value as long as others are assigned, and no layer is closed that was open. -/
theorem Evolves.lookup_of_others {first last : Layered Key Value}
    (evolves : Evolves first.depth first changes last)
    (others : ∀ change ∈ changes, change.key? ≠ some key) : last.lookup key = first.lookup key := by
  rw [evolves.lookup, seen?_eq_none fun change member => others change (List.mem_reverse.mp member)]
  rfl

end Layered

/-- A macro under another name, to be kept elsewhere. -/
def Macro.copy (original : Macro) (name : Text) (isGlobal : Bool) : Macro :=
  { original with name, isGlobal }

/-- A report without its words. -/
def Diagnostic.unworded (report : Diagnostic) : Diagnostic :=
  { report with message := [] }

/-- The report of a problem without its words. -/
def Problem.outline (place : Span) (problem : Problem) : Diagnostic :=
  (problem.reportAt place).unworded

namespace Expansion

namespace Scan

/-- How the token whose meaning is given is written, behind an optional equals sign and one
space. -/
inductive Sources (source : Token) : (written : List Token) → Prop where
  | alone {spaces : List Token} (blank : ∀ token ∈ spaces, token.isSpace = true)
      (solid : source.isSpace = false) (noSign : source.isCharacter '=' = false) :
      Sources source (spaces ++ [source])
  | equals {spaces : List Token} {sign : Token} (blank : ∀ token ∈ spaces, token.isSpace = true)
      (isSign : sign.isCharacter '=' = true) (solid : source.isSpace = false) :
      Sources source ((spaces ++ [sign]) ++ [source])
  | spaced {spaces : List Token} {sign space : Token}
      (blank : ∀ token ∈ spaces, token.isSpace = true) (isSign : sign.isCharacter '=' = true)
      (isSpace : space.isSpace = true) :
      Sources source ((spaces ++ [sign]) ++ ([space] ++ [source]))

theorem consumes_letSource {source : Token} {written : List Token}
    (sources : Sources source written) (rest : List Token) :
    Consumes letSource written rest (some source) := by
  cases sources with
  | alone blank solid noSign =>
    rw [← List.append_nil (_ ++ [source])]
    refine (consumes_pastSpaces blank solid _).bind ?_
    simp only [noSign, Bool.false_eq_true, if_false]
    exact .pure _ _
  | @equals spaces sign blank isSign solid =>
    obtain ⟨category, kind⟩ := Token.kind_of_isCharacter isSign
    refine (consumes_pastSpaces blank (by simp [Token.isSpace, kind]) _).bind ?_
    simp only [isSign, if_true]
    rw [← List.append_nil [source]]
    refine (consumes_next source _).bind ?_
    simp only [solid, Bool.false_eq_true, if_false]
    exact .pure _ _
  | @spaced spaces sign space blank isSign isSpace =>
    obtain ⟨category, kind⟩ := Token.kind_of_isCharacter isSign
    refine (consumes_pastSpaces blank (by simp [Token.isSpace, kind]) _).bind ?_
    simp only [isSign, if_true]
    refine (consumes_next space _).bind ?_
    simp only [isSpace, if_true]
    exact consumes_next source rest

theorem consumes_letBinding {gap written : List Token} {target source : Token}
    (skipped : ∀ token ∈ gap, isSkipped false token = true)
    (definable : target.isDefinable = true) (sources : Sources source written) (scope : Scope)
    (isGlobal : Bool) (rest : List Token) :
    Consumes (letBinding scope isGlobal) ((gap ++ [target]) ++ written) rest
      (some (meaningOf scope target.macroName source isGlobal)) := by
  refine (consumes_pastSkipped skipped (isSkipped_of_isDefinable definable false) _).bind ?_
  dsimp only
  rw [if_pos definable]
  exact (consumes_letSource sources rest).map fun found =>
    found.map fun source => meaningOf scope target.macroName source isGlobal

/-- Two scanners have come to the same, but for the words of their reports. -/
structure Level (first second : Scanner) : Prop where
  stream : first.stream = second.stream
  consumed : first.consumed = second.consumed
  reports : first.reports.map Diagnostic.unworded = second.reports.map Diagnostic.unworded

/-- Two scans read, find and report the same, but for the words of their reports. -/
structure Agree {Result : Type} (first second : Scan Result) : Prop where
  found : ∀ {scanner other}, Level scanner other → (first scanner).1 = (second other).1
  level : ∀ {scanner other}, Level scanner other → Level (first scanner).2 (second other).2

namespace Agree

variable {First Second : Type} {first other : Scan First} {second another : First → Scan Second}

theorem pure (result : First) : Agree (Pure.pure result) (Pure.pure result) :=
  ⟨fun _ => rfl, id⟩

theorem bind (hfirst : Agree first other)
    (hsecond : ∀ result, Agree (second result) (another result)) :
    Agree (first >>= second) (other >>= another) where
  found := by
    intro scanner later level
    change (second (first scanner).1 (first scanner).2).1 =
      (another (other later).1 (other later).2).1
    rw [← hfirst.found level]
    exact (hsecond _).found (hfirst.level level)
  level := by
    intro scanner later level
    change Level (second (first scanner).1 (first scanner).2).2
      (another (other later).1 (other later).2).2
    rw [← hfirst.found level]
    exact (hsecond _).level (hfirst.level level)

theorem readUntil {Memory : Type} (test : Memory → Token → Memory × Bool) (memory : Memory) :
    Agree (Scan.readUntil test memory) (Scan.readUntil test memory) where
  found level := by simp [Scan.readUntil, level.stream]
  level level := ⟨by simp [Scan.readUntil, level.stream],
    by simp [Scan.readUntil, level.stream, level.consumed], level.reports⟩

theorem unread : Agree Scan.unread Scan.unread where
  found _ := rfl
  level := by
    intro scanner other level
    unfold Scan.unread
    rw [level.consumed]
    cases other.consumed.getLast? with
    | none => exact level
    | some token => exact ⟨congrArg (·.push [token]) level.stream, rfl, level.reports⟩

theorem report {problem another : Problem} {span : Span}
    (same : problem.outline span = another.outline span) :
    Agree (Scan.report problem span) (Scan.report another span) where
  found _ := rfl
  level := by
    intro scanner other level
    refine ⟨level.stream, level.consumed, ?_⟩
    change (scanner.reports.push _).map _ = (other.reports.push _).map _
    rw [Array.map_push, Array.map_push, level.reports]
    exact congrArg _ same

theorem nextSignificant (spacesOnly : Bool) :
    Agree (Scan.nextSignificant spacesOnly) (Scan.nextSignificant spacesOnly) :=
  (readUntil ..).bind fun _ => .pure _

theorem literal (expected : List Token) :
    Agree (Scan.literal expected) (Scan.literal expected) := by
  induction expected with
  | nil => exact .pure _
  | cons token rest ih =>
    refine ((readUntil ..).bind fun _ => .pure _).bind fun actual => ?_
    cases actual with
    | none => exact .pure _
    | some actual =>
      dsimp only
      split
      · exact ih
      · exact .pure _

theorem argument (name copy : Text) (use : Token) (parameter : Parameter) :
    Agree (Scan.argument name use parameter) (Scan.argument copy use parameter) := by
  cases parameter with
  | undelimited =>
    refine (nextSignificant _).bind fun token => ?_
    cases token with
    | none => exact .pure _
    | some token =>
      dsimp only
      split
      · exact unread.bind fun _ => .pure _
      · split
        · exact (readUntil ..).bind fun _ => .pure _
        · exact .pure _
  | delimited stop =>
    refine (readUntil ..).bind fun search => .bind ?_ fun _ => ?_
    · cases search.memory.extra with
      | none => exact .pure _
      | some span => exact report rfl
    · unfold delimitedArgument
      split
      · exact bind (report rfl) fun _ => pure none
      · exact .pure _
  | optional default =>
    refine (nextSignificant _).bind fun token => ?_
    cases token with
    | none => exact .pure _
    | some token =>
      dsimp only
      split
      · exact (readUntil ..).bind fun _ => .pure _
      · exact unread.bind fun _ => .pure _

theorem arguments (name copy : Text) (use : Token) (found : List (List Token))
    (parameters : List Parameter) :
    Agree (Scan.arguments name use found parameters)
      (Scan.arguments copy use found parameters) := by
  induction parameters generalizing found with
  | nil => exact .pure _
  | cons parameter rest ih =>
    refine (argument ..).bind fun tokens => ?_
    cases tokens with
    | none => exact .pure _
    | some tokens => exact ih _

end Agree

/-- A copy takes the arguments that the original takes, and complains where it complains. -/
theorem agree_invocation (original : Macro) (name : Text) (isGlobal : Bool) (use : Token)
    (place : Span) :
    Agree (do return (← invocation (original.copy name isGlobal) use).mapError (·.outline place))
      (do return (← invocation original use).mapError (·.outline place)) := by
  unfold invocation
  simp only [bind_assoc]
  refine (Agree.literal _).bind fun agrees => ?_
  cases agrees with
  | false => exact .pure _
  | true =>
    simp only [if_true, bind_assoc]
    refine (Agree.arguments ..).bind fun found => ?_
    cases found <;> exact .pure _

end Scan

namespace Branch

/-- Two branches have come to the same, but for the names of the macros that they have called and
the words of their reports. -/
structure Echoes (first second : Branch) : Prop where
  ahead : first.stream.tokens = second.stream.tokens
  calls : first.stream.calls.length = second.stream.calls.length
  steps : first.steps = second.steps
  aborted : first.aborted = second.aborted
  verbatim : first.verbatim = second.verbatim
  output : first.output = second.output
  inclusions : first.inclusions = second.inclusions
  scope : first.shared.scope = second.shared.scope
  table : first.shared.table = second.shared.table
  reports : first.shared.diagnostics.map Diagnostic.unworded =
    second.shared.diagnostics.map Diagnostic.unworded
  reportedFiles : first.shared.reportedFiles = second.shared.reportedFiles

variable {settings : Settings} {site : Site} {nested : Nested} {before : Branch}

/-- A copy is called as the original is. -/
theorem echoes_call (branch : Branch) (use : Token) (original : Macro) (name : Text)
    (isGlobal : Bool) :
    Echoes (branch.call use (original.copy name isGlobal)) (branch.call use original) := by
  let start : Scanner := ⟨branch.stream, [], #[]⟩
  have agree := Scan.agree_invocation original name isGlobal use use.span
  have level : Scan.Level start start := ⟨rfl, rfl, rfl⟩
  have found : (Scan.invocation (original.copy name isGlobal) use start).1.mapError
      (·.outline use.span) = (Scan.invocation original use start).1.mapError (·.outline use.span) :=
    agree.found level
  have behind : Scan.Level (Scan.invocation (original.copy name isGlobal) use start).2
      (Scan.invocation original use start).2 := agree.level level
  unfold call attempt
  dsimp only
  rcases copied : Scan.invocation (original.copy name isGlobal) use start with ⟨outcome, scanner⟩
  rcases taken : Scan.invocation original use start with ⟨expected, left⟩
  rw [copied, taken] at found behind
  obtain ⟨stream, consumed, reports⟩ := behind
  dsimp only at found stream consumed reports
  rcases outcome with problem | arguments <;> rcases expected with other | others
  · have same : (problem.reportAt use.span).unworded = (other.reportAt use.span).unworded :=
      Except.error.inj found
    constructor <;> simp [giveUp, report, write, Stream.push, stream, consumed, reports, same]
  · cases found
  · cases found
  · obtain rfl : arguments = others := Except.ok.inj found
    constructor
    · simp [Stream.tokens_pushCall, stream, Macro.copy]
    all_goals simp [Stream.pushCall, stream, reports]

/-- Two outcomes of a step are the same, but for the names of the macros that were called and the
words of the reports. -/
inductive Repeats : (first second : Except Abort Branch) → Prop where
  | done {first second : Branch} (echoes : Echoes first second) : Repeats (.ok first) (.ok second)
  | failed (abort : Abort) : Repeats (.error abort) (.error abort)

/-- **A use of a copy comes to what a use of the original comes to.** -/
theorem repeats_invoke (limits : Limits) (branch : Branch) (use : Token) (original : Macro)
    (name : Text) (isGlobal : Bool) :
    Repeats (branch.invoke limits use (original.copy name isGlobal))
      (branch.invoke limits use original) := by
  unfold invoke
  cases admission limits branch with
  | none => exact .failed _
  | some admission =>
    cases admission with
    | admitted => exact .done (echoes_call branch use original name isGlobal)
    | stepLimitReached maxSteps =>
      refine .done ?_
      constructor <;> simp [report, write, Diagnostic.unworded, Problem.reportAt, Problem.kind,
        Problem.severity]
    | callLimitExceeded maxDepth => exact .done (by constructor <;> rfl)

/-- A branch comes from another by reading tokens and does not leave the group in which it starts.
The list tells what is changed in the scope on the way. -/
inductive Remains (settings : Settings) (site : Site) (nested : Nested) (inside : NestedHistory)
    (first : Branch) : Branch → List Scope.Change → Prop where
  | start : Remains settings site nested inside first first []
  | read {branch after : Branch} {stream : Stream} {token : Token} {past : List Scope.Change}
      (before : Remains settings site nested inside first branch past)
      (found : branch.stream.next = (some token, stream))
      (done : step settings site nested { branch with stream } token = .ok after)
      (above : first.shared.scope.depth ≤ after.shared.scope.depth) :
      Remains settings site nested inside first after
        (past ++ changes settings site inside { branch with stream } token)

/-- A run within a group closes no layer that was open at its start. -/
theorem Remains.evolves {inside : NestedHistory} {first branch : Branch}
    {past : List Scope.Change} (records : Records nested inside)
    (above : site.baseDepth ≤ first.shared.scope.depth)
    (remains : Remains settings site nested inside first branch past) :
    Layered.Evolves first.shared.scope.depth first.shared.scope past branch.shared.scope := by
  induction remains with
  | start => exact .start (Nat.le_refl _)
  | @read branch after stream token past before found done behind ih =>
    have outer := ih.depth_le
    have deep : site.baseDepth ≤ ({ branch with stream } : Branch).shared.scope.depth :=
      above.trans outer
    rcases evolves_once_or_inside records deep done with ⟨once, evolves⟩ | evolves
    · exact ih.trans (Nat.le_refl _) (evolves.of_length_le_one once outer behind)
    · exact ih.trans outer evolves

/-- A name keeps the meaning of a macro up to the end of the group, as long as it is not defined
again. -/
def Lasts (settings : Settings) (site : Site) (nested : Nested) (inside : NestedHistory)
    (after : Branch) (name : Token) (definition : Macro) : Prop :=
  ∀ ⦃later : Branch⦄ ⦃past : List Scope.Change⦄,
    Remains settings site nested inside after later past →
    (∀ change ∈ past, change.key? ≠ some name.macroName) →
    ∀ use : Token, use.kind = name.kind → later.meaning? use = some definition

/-- Uses of a macro come to what uses of another macro come to. -/
def Copies (settings : Settings) (site : Site) (nested : Nested) (definition original : Macro) :
    Prop :=
  ∀ ⦃branch : Branch⦄ ⦃use : Token⦄, branch.Expands → branch.meaning? use = some definition →
    Repeats (branch.step settings site nested use) (branch.invoke settings.limits use original)

/-- Uses of a macro are replaced by one token, which is read next. -/
def StandsFor (settings : Settings) (site : Site) (nested : Nested) (definition : Macro)
    (source : Token) : Prop :=
  ∀ ⦃before : Branch⦄ ⦃use : Token⦄ ⦃rest : List Token⦄,
    before.Expands → before.MayCall settings.limits → before.meaning? use = some definition →
    before.stream.tokens = use :: rest →
    ∃ after, Reads settings site nested before after ∧ after.output = before.output ∧
      after.shared = before.shared ∧ after.Expands ∧
      after.stream.tokens = source.markExpanded :: rest

theorem lasts_define {inside : NestedHistory} {after : Branch} {name : Token} {definition : Macro}
    (records : Records nested inside) (above : site.baseDepth ≤ after.shared.scope.depth)
    (means : ∀ use : Token, use.kind = name.kind → after.meaning? use = some definition) :
    Lasts settings site nested inside after name definition := by
  intro later past remains others use same
  have found := means use same
  unfold meaning? at found ⊢
  split at found
  · rename_i definable
    have named : use.macroName = name.macroName := by
      simp only [Token.macroName, Token.value, same]
    rw [if_pos definable, named]
    rw [named] at found
    exact ((remains.evolves records above).lookup_of_others others).trans found
  · cases found

theorem standsFor (settings : Settings) (site : Site) (nested : Nested) (name : Text)
    (source : Token) (isGlobal : Bool) :
    StandsFor settings site nested ⟨name, [], [source.markExpanded], isGlobal, []⟩ source := by
  intro before use rest expands mayCall meaning ahead
  have consumes : Scan.Consumes (Scan.invocation
    ⟨name, [], [source.markExpanded], isGlobal, []⟩ use)
      [] rest (.ok []) := (Scan.consumes_literal .nil _).bind (.pure _ _)
  obtain ⟨stream, left, reads⟩ := reads_use_of_consumes expands mayCall meaning consumes ahead
  refine ⟨_, reads, rfl, rfl, ⟨expands.running, expands.code⟩, ?_⟩
  rw [Stream.tokens_pushCall, left]
  rfl

theorem copies_copy (settings : Settings) (site : Site) (nested : Nested) (original : Macro)
    (name : Text) (isGlobal : Bool) :
    Copies settings site nested (original.copy name isGlobal) original := by
  intro branch use expands meaning
  rw [step_of_meaning expands meaning]
  exact repeats_invoke settings.limits branch use original name isGlobal

section

variable {binder target source : Token} {gap written rest : List Token}

/-- A `\let` leaves nothing in the output. -/
theorem reads_let (expands : before.Expands) (isLet : binder.kind = .controlWord "let")
    (unbound : before.shared.scope.lookup "let" = none)
    (skipped : ∀ token ∈ gap, Scan.isSkipped false token = true)
    (definable : target.isDefinable = true) (sources : Scan.Sources source written)
    (ahead : before.stream.tokens = binder :: ((gap ++ [target]) ++ written) ++ rest) :
    ∃ stream : Stream, stream.tokens = rest ∧
      stream.calls.length ≤ before.stream.next.2.calls.length ∧
      Reads settings site nested before { before.withScope (·.define
        (Scan.meaningOf before.shared.scope target.macroName source false)) with stream } := by
  rw [List.cons_append] at ahead
  obtain ⟨behind, found, ahead⟩ := exists_next ahead
  have consumes := Scan.consumes_letBinding skipped definable sources before.shared.scope false rest
  obtain ⟨stream, left, read⟩ := attempt_of_consumes consumes { before with stream := behind } ahead
  have fewer := calls_attempt { before with stream := behind }
    (Scan.shrinks_letBinding before.shared.scope false)
  rw [read] at fewer
  refine ⟨stream, left, by rw [found]; exact fewer, binder, behind, found, ?_⟩
  have same : { before with stream := behind }.Expands := ⟨expands.running, expands.code⟩
  rw [step_of_word same isLet unbound, obey, if_neg (by decide)]
  change Except.ok (defineBy _ _ (Scan.letBinding before.shared.scope false)) = _
  rw [defineBy, read]
  rfl

/-- **A `\let` copies the meaning of a macro.** It is read to the token whose meaning is given and
leaves nothing in the output. The new name keeps this meaning up to the end of the group, whatever
else is defined: its uses come to what the uses of the macro came to. Only where the token has no
meaning, the new name stands for this token, to be read again at each use. -/
theorem exists_copies {inside : NestedHistory} (records : Records nested inside)
    (above : site.baseDepth ≤ before.shared.scope.depth) (expands : before.Expands)
    (isLet : binder.kind = .controlWord "let") (unbound : before.shared.scope.lookup "let" = none)
    (skipped : ∀ token ∈ gap, Scan.isSkipped false token = true)
    (definable : target.isDefinable = true) (sources : Scan.Sources source written)
    (ahead : before.stream.tokens = binder :: ((gap ++ [target]) ++ written) ++ rest) :
    ∃ after definition, Reads settings site nested before after ∧ after.output = before.output ∧
      after.shared = (before.withScope (·.define definition)).shared ∧
      definition.name = target.macroName ∧ after.stream.tokens = rest ∧ after.Expands ∧
      (before.MayCall settings.limits → after.MayCall settings.limits) ∧
      Lasts settings site nested inside after target definition ∧
      (∀ original, before.meaning? source = some original →
        Copies settings site nested definition original) ∧
      (before.meaning? source = none → StandsFor settings site nested definition source) := by
  obtain ⟨stream, left, fewer, reads⟩ :=
    reads_let expands isLet unbound skipped definable sources ahead
  have named : (Scan.meaningOf before.shared.scope target.macroName source false).name =
      target.macroName := by
    unfold Scan.meaningOf
    dsimp only
    split <;> rfl
  refine ⟨_, Scan.meaningOf before.shared.scope target.macroName source false, reads, rfl, rfl,
    named, left, ⟨expands.running, expands.code⟩, (·.of_calls_le rfl fewer), ?_,
    fun original meaning => ?_, fun meaning => ?_⟩
  · have deep := (evolves_define above
      (Scan.meaningOf before.shared.scope target.macroName source false)).depth_le
    exact lasts_define records deep fun use same => meaning?_define definable same named
  · unfold meaning? at meaning
    simp only [Scan.meaningOf, meaning]
    exact copies_copy settings site nested original target.macroName false
  · unfold meaning? at meaning
    simp only [Scan.meaningOf, meaning]
    exact standsFor settings site nested target.macroName source false

end

/-- The macro `\a` with the body `X`. -/
def xMacro : Macro where
  name := "a"
  parameters := []
  replacement := [.ofChar 'X']

/-- A branch that has to read `\let\b=\a\b`, where `\a` is a macro. -/
def letStart : Branch where
  stream := .ofTokens <| .ofKind (.controlWord "let") ::
    (([] ++ [.ofKind (.controlWord "b")]) ++
      (([] ++ [.ofChar '=']) ++ [.ofKind (.controlWord "a")])) ++ [.ofKind (.controlWord "b")]
  steps := 0
  aborted := false
  verbatim := none
  output := #[]
  inclusions := #[]
  shared := ⟨Scope.empty.define xMacro, .empty noFiles.currentDirectory, #[], []⟩

/-- The use of `\b` comes to what a use of `\a` comes to. -/
theorem exists_copies_x :
    ∃ after : Branch, Reads ⟨noFiles, {}, .standard⟩ ⟨0, [0], 0⟩ none letStart after ∧
      after.output = #[] ∧ after.stream.tokens = [.ofKind (.controlWord "b")] ∧
      Repeats (after.step ⟨noFiles, {}, .standard⟩ ⟨0, [0], 0⟩ none (.ofKind (.controlWord "b")))
        (after.invoke {} (.ofKind (.controlWord "b")) xMacro) := by
  have sources : Scan.Sources (.ofKind (.controlWord "a"))
      (([] ++ [.ofChar '=']) ++ [.ofKind (.controlWord "a")]) :=
    .equals (List.forall_mem_nil _) rfl rfl
  have running : letStart.Expands := ⟨rfl, rfl⟩
  have records : Records none none := .none
  have bottom : (⟨0, [0], 0⟩ : Site).baseDepth ≤ letStart.shared.scope.depth := Nat.zero_le _
  obtain ⟨after, definition, reads, quiet, -, -, ahead, expands, -, lasts, copies, -⟩ :=
    @exists_copies ⟨noFiles, {}, .standard⟩ _ _ _ _ _ _ _ _ _ _ records bottom running rfl rfl
      (List.forall_mem_nil _) rfl sources (Stream.tokens_ofTokens _)
  have means := lasts .start (List.forall_mem_nil _) (.ofKind (.controlWord "b")) rfl
  have bound : letStart.meaning? (.ofKind (.controlWord "a")) = some xMacro :=
    Scope.lookup_define Scope.empty xMacro
  exact ⟨after, reads, quiet, ahead, copies xMacro bound expands means⟩

end Branch

/-- A text in which a name is given the meaning of another, which is a macro only afterwards. -/
def redefined : Text := "\\let\\b\\a\\def\\a\x7bX\x7d\\b"

/-- At the `\let` there is nothing to be copied, and the use behind the definition is replaced by
its body. -/
theorem sourceText_redefined :
    ∃ document expanded reports, Document.parse redefined .standard .standard 0 = .ok document ∧
      Scope.empty.lookup "a" = none ∧
      (expand defaults document Scope.empty noTable).outcome = .ok (expanded, reports) ∧
      expanded.sourceText = "X" ∧ expanded.sourceText ≠ "\\a" := by
  obtain ⟨document, expanded, reports, parsed, done, passes⟩ :=
    exists_expansion redefined 20 (fun expanded => decide (expanded.sourceText = "X"))
      (by decide +kernel)
  have printed := of_decide_eq_true passes
  refine ⟨document, expanded, reports, parsed, rfl, done, printed, ?_⟩
  rw [printed]
  decide

end Expansion

end TexSource
