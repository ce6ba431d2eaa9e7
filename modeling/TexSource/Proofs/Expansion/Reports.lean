import TexSource.Proofs.Expansion.Directives
import TexSource.Proofs.Expansion.Provenance

/-!
# Where an expansion reports problems

What a scan reports it reports at tokens that it has read, or at the use of the macro whose
arguments it looks for (`Scan.Points`). A branch reports problems at tokens that it has read, and
what is reported on the documents that it includes. So if all tokens that come into an expansion
have good spans, its reports have as well (`reports_expand`).
-/

namespace TexSource

namespace Expansion

variable {property : Token → Prop} {good : Span → Prop}

/-- What is remembered of tokens with a property, if it is so at first and behind every token. -/
theorem Stream.memory_readUntil {Memory : Type} {test : Memory → Token → Memory × Bool}
    {holds : Memory → Prop} {memory : Memory} {stream : Stream} (first : holds memory)
    (step : ∀ memory token, holds memory → property token → holds (test memory token).1)
    (tokens : ∀ token ∈ stream.tokens, property token) :
    holds (stream.readUntil test memory).memory := by
  obtain ⟨items, calls⟩ := stream
  unfold readUntil
  dsimp only
  fun_induction readItems test memory items calls with
  | case1 => exact first
  | case2 memory rest calls name ih => exact ih first tokens
  | case3 memory token rest calls remembered seen =>
    have behind := step memory token first (tokens token List.mem_cons_self)
    rwa [seen] at behind
  | case4 memory token rest calls remembered stops seen goesOn later ih =>
    have behind := step memory token first (tokens token List.mem_cons_self)
    rw [seen] at behind
    exact ih behind fun other member => tokens other (List.mem_cons_of_mem _ member)

namespace Scan

variable {First Second : Type}

/-- A scan over tokens with a property reports problems at good spans only. -/
structure Points {Result : Type} (property : Token → Prop) (good : Span → Prop)
    (scan : Scan Result) : Prop where
  point : ∀ scanner, scanner.Carries property →
    (∀ report ∈ scanner.reports, good report.span) →
      ∀ report ∈ (scan scanner).2.reports, good report.span

namespace Points

/-- A scan that reports nothing points nowhere. -/
theorem ofQuiet {scan : Scan First} (quiet : Quiet scan) : Points property good scan :=
  ⟨fun scanner _ earlier => by rw [quiet.reports]; exact earlier⟩

theorem pure (result : First) : Points property good (Pure.pure result) :=
  ofQuiet (.pure result)

/-- What one scan yields is what the next may point at. -/
theorem bind {first : Scan First} {second : First → Scan Second} {middle : First → Prop}
    (hands : Hands property first middle) (hfirst : Points property good first)
    (hsecond : ∀ result, middle result → Points property good (second result)) :
    Points property good (first >>= second) := by
  constructor
  intro scanner carries earlier
  obtain ⟨holds, behind⟩ := hands.hand scanner carries
  exact (hsecond _ holds).point _ behind (hfirst.point scanner carries earlier)

/-- A report points at its span. -/
theorem report {span : Span} (holds : good span) (problem : Problem) :
    Points property good (Scan.report problem span) := by
  constructor
  intro scanner _ earlier report member
  rcases Array.mem_push.mp member with before | rfl
  · exact earlier report before
  · exact holds

end Points

theorem quiet_next : Quiet next :=
  .bind (.readUntil ..) fun _ => .pure _

theorem quiet_bracket : Quiet bracket :=
  .bind (.readUntil ..) fun _ => .pure _

theorem quiet_environmentName : Quiet environmentName := by
  apply Quiet.bind (quiet_nextSignificant _)
  intro token
  cases token with
  | none => exact .pure _
  | some token =>
    dsimp only
    split
    · exact .bind quiet_closedGroup fun _ => .pure _
    · exact .bind .unread fun _ => .pure _

theorem quiet_letBinding (scope : Scope) (isGlobal : Bool) :
    Quiet (letBinding scope isGlobal) := by
  apply Quiet.bind (quiet_nextSignificant _)
  intro target
  cases target with
  | none => exact .pure _
  | some target =>
    dsimp only
    split
    · refine .bind (.bind (quiet_nextSignificant _) fun first => ?_) fun _ => .pure _
      cases first with
      | none => exact .pure _
      | some first =>
        dsimp only
        split
        · refine .bind quiet_next fun second => ?_
          cases second with
          | none => exact .pure _
          | some second =>
            dsimp only
            split
            · exact quiet_next
            · exact .pure _
        · exact .pure _
    · exact .pure _

theorem quiet_newCommandName : Quiet newCommandName := by
  have pastStar : Quiet nextPastStar := by
    apply Quiet.bind (quiet_nextSignificant _)
    intro first
    split
    · exact quiet_nextSignificant _
    · exact .pure _
  apply Quiet.bind pastStar
  intro name
  cases name with
  | none => exact .pure _
  | some token =>
    dsimp only
    split
    · exact .bind quiet_closedGroup fun _ => .pure _
    · exact .pure _

theorem quiet_argumentList : Quiet argumentList := by
  apply Quiet.bind (quiet_nextSignificant _)
  intro first
  split
  · apply Quiet.bind quiet_bracket
    intro digits
    dsimp only
    split
    · split
      · exact .pure _
      · apply Quiet.bind (quiet_nextSignificant _)
        intro second
        split
        · apply Quiet.bind quiet_bracket
          intro default
          split
          · exact .pure _
          · exact .bind (quiet_nextSignificant _) fun _ => .pure _
        · exact .pure _
    · exact .pure _
  · exact .pure _

theorem quiet_newCommand : Quiet newCommand := by
  have body (first : Option Token) : Quiet (newCommandBody first) := by
    cases first with
    | none => exact .pure _
    | some token =>
      unfold newCommandBody
      dsimp only
      split
      · exact quiet_closedGroup
      · exact .pure _
  apply Quiet.bind quiet_newCommandName
  intro name
  cases name with
  | none => exact .pure _
  | some name =>
    apply Quiet.bind quiet_argumentList
    intro list
    split
    · exact .pure _
    · exact .pure _
    · exact .bind (body _) fun _ => .pure _

theorem quiet_literal (expected : List Token) : Quiet (literal expected) := by
  induction expected with
  | nil => exact .pure _
  | cons token rest ih =>
    apply Quiet.bind quiet_next
    intro actual
    cases actual with
    | none => exact .pure _
    | some actual =>
      dsimp only
      split
      · exact ih
      · exact .pure _

section

variable (agrees : ∀ token, property token → good token.span)

include agrees

/-- A definition whose body does not end is reported at the name. -/
theorem points_definition (isGlobal : Bool) : Points property good (definition isGlobal) := by
  refine .bind (hands_nextSignificant _) (.ofQuiet (quiet_nextSignificant _)) fun name read => ?_
  cases name with
  | none => exact .pure _
  | some name =>
    dsimp only
    split
    · refine .bind (.readUntil ..) (.ofQuiet (.readUntil ..)) fun parameterText _ => ?_
      split
      · refine .bind (.readUntil ..) (.ofQuiet (.readUntil ..)) fun body _ => ?_
        have nothing : Hands property (Pure.pure PUnit.unit) fun _ => True := .pure trivial
        split
        · exact .bind (.report ..) (.report (agrees name (read name rfl)) _) fun _ _ => .pure _
        · exact .bind nothing (.pure _) fun _ _ => .pure _
      · exact .pure _
    · exact .pure _

/-- A definition behind marks points at no token. -/
theorem points_marked (scope : Scope) (isGlobal : Bool) :
    Points property good (marked scope isGlobal) := by
  refine .bind (.readUntil ..) (.ofQuiet (.readUntil ..)) fun marks _ => ?_
  unfold markedBehind
  dsimp only
  split
  · exact .pure _
  · split
    · split
      · exact .bind .unread (.ofQuiet .unread) fun _ _ => .pure _
      · split
        · exact .bind (hands_definition _) (points_definition agrees _) fun _ _ => .pure _
        · split
          · exact .ofQuiet (.bind (quiet_letBinding ..) fun _ => .pure _)
          · exact .pure _
    · exact .bind .unread (.ofQuiet .unread) fun _ _ => .pure _

/-- The first closing brace too many before a delimiter is one of the tokens read. -/
theorem extra_delimiterTest (reversedStop : List Token) (search : DelimiterSearch) (token : Token)
    (earlier : ∀ span ∈ search.extra, good span) (holds : property token) :
    ∀ span ∈ (delimiterTest reversedStop search token).1.extra, good span := by
  unfold delimiterTest
  dsimp only
  split
  · exact earlier
  · split
    · split
      · intro span found
        cases extra : search.extra with
        | some other =>
          rw [extra] at found earlier
          exact earlier span found
        | none =>
          rw [extra] at found
          cases found
          exact agrees token holds
      · exact earlier
    · exact earlier

/-- A delimited argument points at the use of the macro. -/
theorem points_delimited (stop : List Token) (name : Text) {use : Token} (holds : property use) :
    Points property good (delimited stop name use) := by
  have search : Hands property (Scan.readUntil (delimiterTest stop.reverse) ⟨0, [], none⟩)
      fun search => ∀ span ∈ search.memory.extra, good span := by
    refine ⟨fun scanner carries => ⟨?_, ((Hands.readUntil ..).hand scanner carries).2⟩⟩
    exact Stream.memory_readUntil nofun
      (fun memory token earlier holds => extra_delimiterTest agrees _ memory token earlier holds)
      carries.stream
  refine .bind search (.ofQuiet (.readUntil ..)) fun search extra => ?_
  have reported : Hands property (reportExtra name search.memory.extra) (fun _ => True) ∧
      Points property good (reportExtra name search.memory.extra) := by
    cases found : search.memory.extra with
    | none => exact ⟨.pure trivial, .pure _⟩
    | some span => exact ⟨.report .., .report (extra span found) _⟩
  refine .bind reported.1 reported.2 fun _ _ => ?_
  unfold delimitedArgument
  split
  · exact .bind (.report ..) (.report (agrees use holds) _) fun _ _ => .pure _
  · exact .pure _

theorem points_argument (name : Text) {use : Token} (holds : property use)
    (parameter : Parameter) : Points property good (argument name use parameter) := by
  cases parameter with
  | optional default =>
    refine .bind (hands_nextSignificant _) (.ofQuiet (quiet_nextSignificant _)) fun token _ => ?_
    cases token with
    | none => exact .pure _
    | some token =>
      dsimp only
      split
      · exact .ofQuiet quiet_bracket
      · exact .bind .unread (.ofQuiet .unread) fun _ _ => .pure _
  | undelimited =>
    refine .bind (hands_nextSignificant _) (.ofQuiet (quiet_nextSignificant _)) fun token _ => ?_
    cases token with
    | none => exact .pure _
    | some token =>
      dsimp only
      split
      · exact .bind .unread (.ofQuiet .unread) fun _ _ => .pure _
      · split
        · exact .ofQuiet quiet_closedGroup
        · exact .pure _
  | delimited stop => exact points_delimited agrees stop name holds

/-- Arguments point at the use of the macro or at their own tokens. -/
theorem points_arguments (name : Text) {use : Token} (holds : property use)
    (found : List (List Token)) {parameters : List Parameter}
    (default : ∀ tokens, .optional tokens ∈ parameters → ∀ token ∈ tokens, property token) :
    Points property good (arguments name use found parameters) := by
  induction parameters generalizing found with
  | nil => exact .pure _
  | cons parameter rest ih =>
    refine .bind (hands_argument name use fun tokens same =>
      default tokens (by rw [same]; exact List.mem_cons_self))
      (points_argument agrees name holds parameter) fun argument _ => ?_
    cases argument with
    | none => exact .pure _
    | some tokens =>
      exact ih _ fun tokens member => default tokens (List.mem_cons_of_mem _ member)

/-- The use of a macro points at itself or at its own tokens. -/
theorem points_invocation {definition : Macro} (yields : definition.Yields property)
    {use : Token} (holds : property use) :
    Points property good (invocation definition use) := by
  refine .bind (hands_literal _) (.ofQuiet (quiet_literal _)) fun agreed _ => ?_
  split
  · refine .bind (hands_arguments _ _ nofun yields.default)
      (points_arguments agrees _ holds _ yields.default) fun outcome _ => ?_
    split <;> exact .pure _
  · exact .pure _

end

end Scan

/-- All reports are at good spans. -/
structure ReportsAt (good : Span → Prop) (reports : Array Diagnostic) : Prop where
  spans : ∀ report ∈ reports, good report.span

/-- What is reported on the documents of files other than the main one is reported at good
spans. -/
def Informs (files : FileSystem) (main : FileId) (good : Span → Prop)
    (kept : FileTable → Prop) : Prop :=
  ∀ table, kept table → ∀ path parent, (table.enter path parent).1.id ≠ main →
    ∀ document later, (table.enter path parent).2.document files (table.enter path parent).1.id =
      (.ok document, later) → ∀ report ∈ document.diagnostics, good report.span

/-- Expanding an included document reports problems at good spans. -/
def Nested.Reports (main : FileId) (property : Token → Prop) (good : Span → Prop)
    (kept : FileTable → Prop) (nested : Nested) : Prop :=
  ∀ reader, nested = some reader → ∀ document ancestors shared, main ∈ ancestors →
    (∀ token ∈ document.tokens, token.isEndOfInput = false → property token) →
    shared.Carries property kept → ReportsAt good shared.diagnostics → ∀ expanded later,
      reader document ancestors shared = .ok (expanded, later) → ReportsAt good later.diagnostics

/-- A report at a good span keeps all of them good. -/
theorem ReportsAt.push {earlier : Array Diagnostic} (reports : ReportsAt good earlier) {span : Span}
    (holds : good span) (problem : Problem) :
    ReportsAt good (earlier.push (problem.reportAt span)) := by
  refine ⟨fun report member => ?_⟩
  rcases Array.mem_push.mp member with earlier | rfl
  · exact reports.spans report earlier
  · exact holds

namespace Branch

variable {kept : FileTable → Prop} {branch after : Branch} {token : Token}

/-- Behind a scan the reports of a branch are those before it and those of the scan. -/
theorem reports_attempt (carries : branch.Carries property kept) {Result : Type}
    {scan : Scan Result} (points : Scan.Points property good scan)
    (reports : ReportsAt good branch.shared.diagnostics) :
    ReportsAt good (branch.attempt scan).2.2.shared.diagnostics := by
  refine ⟨fun report member => ?_⟩
  have member : report ∈ branch.shared.diagnostics ++ (scan ⟨branch.stream, [], #[]⟩).2.reports :=
    member
  rcases Array.mem_append.mp member with earlier | new
  · exact reports.spans report earlier
  · exact points.point ⟨branch.stream, [], #[]⟩ ⟨carries.stream, nofun⟩ nofun report new

section

variable (agrees : ∀ token, property token → good token.span)
  (carries : branch.Carries property kept) (reports : ReportsAt good branch.shared.diagnostics)

include carries reports

/-- What a definition reports is at a good span. -/
theorem reports_defineBy (first : Token) {scan : Scan (Option Macro)}
    (points : Scan.Points property good scan) :
    ReportsAt good (branch.defineBy first scan).shared.diagnostics := by
  have behind := reports_attempt carries points reports
  unfold defineBy
  dsimp only
  cases (branch.attempt scan).1 <;> exact behind

theorem reports_defineNewCommand {word : Text}
    (done : branch.defineNewCommand token word = .ok after) :
    ReportsAt good after.shared.diagnostics := by
  have behind := reports_attempt carries (.ofQuiet Scan.quiet_newCommand) reports
  unfold defineNewCommand at done
  dsimp only at done
  split at done
  · cases done
  · cases done
    exact behind
  · split at done <;> cases done <;> exact behind

theorem reports_beginEnvironment (commands : CommandTable) (first : Token) :
    ReportsAt good (branch.beginEnvironment commands first).shared.diagnostics := by
  have behind := reports_attempt carries (.ofQuiet Scan.quiet_environmentName) reports
  unfold beginEnvironment
  dsimp only
  split <;> exact behind

theorem reports_passVerbatim (name : Text) (token : Token) :
    ReportsAt good (branch.passVerbatim name token).shared.diagnostics := by
  have behind := reports_attempt carries (.ofQuiet Scan.quiet_environmentName) reports
  unfold passVerbatim
  split
  · exact behind
  · exact reports

include agrees

theorem reports_defineMarked (first : Token) (isGlobal : Bool) :
    ReportsAt good (branch.defineMarked first isGlobal).shared.diagnostics := by
  have behind := reports_attempt carries
    (Scan.points_marked agrees branch.shared.scope isGlobal) reports
  unfold defineMarked
  dsimp only
  split <;> exact behind

/-- A use that does not match is reported at its token, and so is one that a limit refuses. -/
theorem reports_invoke {limits : Limits} {definition : Macro}
    (known : definition.Yields property) (holds : property token)
    (done : branch.invoke limits token definition = .ok after) :
    ReportsAt good after.shared.diagnostics := by
  have refused := fun problem => reports.push (agrees token holds) problem
  unfold invoke at done
  split at done
  · cases done
  · cases done
    exact refused _
  · cases done
    exact refused _
  · cases done
    have counted : Branch.Carries property kept { branch with steps := branch.steps + 1 } :=
      { carries with }
    have behind := reports_attempt counted (Scan.points_invocation agrees known holds) reports
    unfold call
    dsimp only
    split
    · exact behind.push (agrees token holds) _
    · exact behind

end

variable {settings : Settings} {site : Site} {nested : Nested} {main : FileId}

/-- With a document that is no main one come the reports on it. -/
theorem reports_locate (informs : Informs settings.files main good kept)
    (inside : main ∈ site.ancestors) {name : Text} {shared later : Shared}
    {located : Except Problem (FileEntry × Document)} (carries : shared.Carries property kept)
    (reports : ReportsAt good shared.diagnostics)
    (done : locate settings site name shared = .ok (located, later)) :
    ReportsAt good later.diagnostics := by
  unfold locate at done
  split at done
  · cases done
  · cases done
    exact reports
  · rename_i path resolved
    dsimp only at done
    split at done
    · cases done
      exact reports
    · rename_i noCycle
      split at done
      · cases done
        exact reports
      · cases done
      · rename_i document table found
        cases done
        have apart : (shared.table.enter path (some site.fileId)).1.id ≠ main := by
          rintro rfl
          exact noCycle (List.contains_iff_mem.mpr inside)
        have given := informs shared.table carries.table path _ apart document table found
        refine ⟨fun report member => ?_⟩
        have member : report ∈ (shared.diagnostics ++
            if shared.reportedFiles.contains (shared.table.enter path (some site.fileId)).1.id then
              [] else document.diagnostics).toList := Array.mem_toList_iff.mpr member
        rw [Array.toList_appendList] at member
        rcases List.mem_append.mp member with earlier | new
        · exact reports.spans report (Array.mem_toList_iff.mp earlier)
        · split at new
          · cases new
          · exact given report new

/-- What loading a file reports is at a good span, in that file or at the anchor. -/
theorem reports_load (supplies : Supplies settings.files main property kept)
    (informs : Informs settings.files main good kept) (inside : main ∈ site.ancestors)
    (below : nested.Reports main property good kept) {name : Text} {anchor : Span}
    (holds : good anchor) {shared later : Shared} {inclusion : Option Inclusion}
    (carries : shared.Carries property kept) (reports : ReportsAt good shared.diagnostics)
    (done : load settings site nested name anchor shared = .ok (inclusion, later)) :
    ReportsAt good later.diagnostics := by
  unfold load at done
  cases nested with
  | none =>
    cases done
    exact reports.push holds _
  | some reader =>
    dsimp only at done
    cases found : locate settings site name shared with
    | error abort =>
      rw [found] at done
      cases done
    | ok result =>
      obtain ⟨located, middle⟩ := result
      rw [found] at done
      have behind := reports_locate informs inside carries reports found
      obtain ⟨carries, supplied⟩ := carries_locate supplies inside carries found
      cases located with
      | error problem =>
        cases done
        exact behind.push holds _
      | ok result =>
        obtain ⟨entry, document⟩ := result
        cases expansion : reader document (site.ancestors ++ [entry.id]) middle with
        | error abort =>
          simp only [bind, Except.bind, expansion] at done
          cases done
        | ok result =>
          simp only [bind, Except.bind, expansion] at done
          cases done
          exact below reader rfl document _ middle (List.mem_append_left _ inside)
            (supplied entry document rfl) carries behind _ _ expansion

section

variable (agrees : ∀ token, property token → good token.span)
  (supplies : Supplies settings.files main property kept)
  (informs : Informs settings.files main good kept) (inside : main ∈ site.ancestors)
  (below : nested.Reports main property good kept)

include agrees supplies informs inside below

/-- What following a directive reports is at a good span. -/
theorem reports_followDirective (hereditary : Hereditary property)
    (carries : branch.Carries property kept) (reports : ReportsAt good branch.shared.diagnostics)
    (holds : property token)
    (done : branch.followDirective settings site nested token = .ok after) :
    ReportsAt good after.shared.diagnostics := by
  have behind := reports_attempt carries (.ofQuiet Scan.quiet_inclusion) reports
  obtain ⟨-, -, carries⟩ := carries.attempt (Scan.hands_inclusion hereditary.toInherited)
  unfold followDirective at done
  dsimp only at done
  split at done
  · cases done
    exact behind
  · rename_i directive same
    cases loaded : load settings site nested directive.name token.span
        (branch.attempt Scan.inclusion).2.2.shared with
    | error abort =>
      rw [loaded] at done
      cases done
    | ok result =>
      rw [loaded] at done
      cases done
      exact reports_load supplies informs inside below (agrees token holds) carries.shared behind
        loaded

/-- **One step** reports problems at good spans. -/
theorem reports_step (hereditary : Hereditary property)
    (carries : branch.Carries property kept) (reports : ReportsAt good branch.shared.diagnostics)
    (holds : property token) (done : branch.step settings site nested token = .ok after) :
    ReportsAt good after.shared.diagnostics := by
  unfold Branch.step at done
  split at done
  · cases done
    exact reports
  · split at done
    · cases done
      exact reports_passVerbatim carries reports ..
    · split at done
      · rename_i definition meaning
        have known : definition.Yields property :=
          carries.shared.scope.lookup (meaning?_eq_some_iff.mp meaning).2
        exact reports_invoke agrees carries reports known holds done
      · split at done
        · cases done
          exact reports
        · cases done
          exact reports
        · unfold obey at done
          split at done
          · cases done
            exact reports_defineMarked agrees carries reports ..
          · split at done
            · cases done
              exact reports_defineBy carries reports _ (Scan.points_definition agrees _)
            · split at done
              · cases done
                exact reports_defineBy carries reports _ (.ofQuiet (Scan.quiet_letBinding ..))
              · split at done
                · exact reports_defineNewCommand carries reports done
                · split at done
                  · exact reports_followDirective agrees supplies informs inside below hereditary
                      carries reports holds done
                  · split at done
                    · cases done
                      exact reports_beginEnvironment carries reports ..
                    · cases done
                      exact reports
        · cases done
          exact reports

/-- **A whole run** reports problems at good spans. -/
theorem reports_run (hereditary : Hereditary property)
    (nests : nested.Carries main property kept) (carries : branch.Carries property kept)
    (reports : ReportsAt good branch.shared.diagnostics)
    (done : branch.run settings site nested = .ok after) :
    ReportsAt good after.shared.diagnostics := by
  fun_induction branch.run settings site nested with
  | case1 branch stream found =>
    cases done
    exact reports
  | case2 branch token stream found abort failed => cases done
  | case3 branch token stream found later stepped ih =>
    have parts := branch.stream.tokens_next
    rw [found] at parts
    have left : ∀ other ∈ token :: stream.tokens, property other := by
      intro other member
      exact carries.stream other (by rw [parts]; exact member)
    rw [List.forall_mem_cons] at left
    have advanced : Branch.Carries property kept { branch with stream } :=
      { carries with stream := left.2 }
    have behind := reports_step agrees supplies informs inside below hereditary advanced reports
      left.1 stepped
    exact ih (advanced.step hereditary supplies inside nests left.1 stepped) behind done

end

end Branch

section

variable {settings : Settings} {main : FileId} {kept : FileTable → Prop}
  (agrees : ∀ token, property token → good token.span) (hereditary : Hereditary property)
  (supplies : Supplies settings.files main property kept)
  (informs : Informs settings.files main good kept)

include agrees hereditary supplies informs

/-- What expanding a document reports is at a good span. -/
theorem reports_expandWith {nested : Nested} (nests : nested.Carries main property kept)
    (below : nested.Reports main property good kept) {document expanded : Document}
    {ancestors : List FileId} (inside : main ∈ ancestors)
    (holds : ∀ token ∈ document.tokens, token.isEndOfInput = false → property token)
    {shared later : Shared} (carries : shared.Carries property kept)
    (reports : ReportsAt good shared.diagnostics)
    (done : expandWith settings nested document ancestors shared = .ok (expanded, later)) :
    ReportsAt good later.diagnostics := by
  obtain ⟨branch, ran, -, rfl⟩ := exists_run_of_expandWith done
  exact Branch.reports_run agrees supplies informs inside below hereditary nests
    (Branch.carries_start hereditary holds carries) reports ran

/-- Every depth of inclusion reports at good spans. -/
theorem reports_expandIncluded (room : Nat) :
    (expandIncluded settings room).Reports main property good kept := by
  induction room with
  | zero => exact nofun
  | succ room below =>
    intro reader same document ancestors shared inside holds carries reports expanded later done
    cases same
    exact reports_expandWith agrees hereditary supplies informs
      (carries_expandIncluded hereditary supplies room) below inside holds carries reports done

end

/-- **Reports of an expansion.** If all tokens that come into an expansion have good spans, and
what is reported on the documents that it includes is reported at good spans, so is all that the
expansion reports. -/
theorem reports_expand {settings : Settings} {document expanded : Document}
    {kept : FileTable → Prop} (agrees : ∀ token, property token → good token.span)
    (hereditary : Hereditary property)
    (supplies : Supplies settings.files document.fileId property kept)
    (informs : Informs settings.files document.fileId good kept)
    (holds : ∀ token ∈ document.tokens, token.isEndOfInput = false → property token)
    {scope : Scope} (bound : scope.Every (Macro.Yields property)) {table : FileTable}
    (filed : kept table) {reports : List Diagnostic}
    (done : (expand settings document scope table).outcome = .ok (expanded, reports)) :
    ∀ report ∈ reports, good report.span := by
  unfold expand at done
  dsimp only at done
  split at done
  · cases done
  · rename_i found
    cases done
    intro report member
    exact reports_expandWith agrees hereditary supplies informs
      (carries_expandIncluded hereditary supplies _)
      (reports_expandIncluded agrees hereditary supplies informs _) (List.mem_singleton.mpr rfl)
      holds ⟨bound, filed⟩ ⟨by simp⟩ found |>.spans report (Array.mem_toList_iff.mp member)

end Expansion

end TexSource
