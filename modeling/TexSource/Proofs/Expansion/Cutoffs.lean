import TexSource.Proofs.Expansion.Identity
import TexSource.Proofs.Expansion.Moves

/-!
# Limits only cut off

Nothing is reported and taken back, and a limit keeps a macro from being called or a file from
being included only with a report. So a branch without reports of limits met none, each of its
steps is the same under limits that allow more (`Branch.step_of_le`), and by induction so are the
branch, the branches below it, and the whole expansion (`expand_of_le`).
-/

namespace TexSource

namespace Expansion

/-- Limits allow at most what others allow. Where a bound on calls is missing no macro is called,
whatever the other bound is. -/
instance : LE Limits where
  le limits wider :=
    (∀ bound ∈ limits.maxDepth, ∃ wide ∈ wider.maxDepth, bound ≤ wide) ∧
      (∀ bound ∈ limits.maxSteps, ∃ wide ∈ wider.maxSteps, bound ≤ wide) ∧
      limits.maxIncludeDepth ≤ wider.maxIncludeDepth

theorem le_rfl_limits (limits : Limits) : limits ≤ limits :=
  ⟨fun bound found => ⟨bound, found, Int.le_refl _⟩,
    fun bound found => ⟨bound, found, Int.le_refl _⟩, Int.le_refl _⟩

/-- Under other limits, with the same files and commands. -/
def Settings.under (settings : Settings) (limits : Limits) : Settings :=
  { settings with limits }

/-- None of the reports is of a limit. -/
def Uncut (reports : List Diagnostic) : Prop :=
  ∀ report ∈ reports, report.kind ≠ .maxExpansionDepthExceeded ∧
    report.kind ≠ .maxInclusionDepthExceeded

/-- What was reported stays reported. -/
def Shared.Keeps (earlier later : Shared) : Prop :=
  earlier.diagnostics.toList <+: later.diagnostics.toList

namespace Shared.Keeps

variable {earlier later last : Shared}

theorem refl (shared : Shared) : shared.Keeps shared :=
  List.prefix_rfl

theorem of_eq (same : later.diagnostics = earlier.diagnostics) : earlier.Keeps later :=
  ⟨[], by rw [List.append_nil, same]⟩

theorem trans (first : earlier.Keeps later) (second : later.Keeps last) : earlier.Keeps last :=
  List.IsPrefix.trans first second

theorem append {more : Array Diagnostic}
    (same : later.diagnostics = earlier.diagnostics ++ more) : earlier.Keeps later := by
  unfold Keeps
  rw [same, Array.toList_append]
  exact List.prefix_append ..

theorem push {report : Diagnostic}
    (same : later.diagnostics = earlier.diagnostics.push report) : earlier.Keeps later := by
  unfold Keeps
  rw [same, Array.toList_push]
  exact List.prefix_append ..

/-- What was not reported in the end never was. -/
theorem uncut (keeps : earlier.Keeps later) (uncut : Uncut later.diagnostics.toList) :
    Uncut earlier.diagnostics.toList :=
  fun report member => uncut report (keeps.subset member)

end Shared.Keeps

/-- A limit that was reported was met. -/
theorem not_uncut_push {reports : Array Diagnostic} {problem : Problem} {span : Span}
    (limits : problem.kind = .maxExpansionDepthExceeded ∨
      problem.kind = .maxInclusionDepthExceeded) :
    ¬Uncut (reports.push (problem.reportAt span)).toList := by
  intro uncut
  obtain ⟨shallow, near⟩ := uncut (problem.reportAt span) (by simp)
  exact limits.elim shallow near

/-- The expansion of an included document takes no report back. -/
def Nested.Keeps (nested : Nested) : Prop :=
  ∀ expandIncluded ∈ nested, ∀ (document : Document) (ancestors : List FileId)
    (shared : Shared) (expanded : Document) (later : Shared),
    expandIncluded document ancestors shared = .ok (expanded, later) → shared.Keeps later

namespace Branch

variable {settings : Settings} {site : Site} {nested : Nested} {branch after : Branch}
  {token : Token}

theorem keeps_attempt (branch : Branch) {Result : Type} (scan : Scan Result) :
    branch.shared.Keeps (branch.attempt scan).2.2.shared :=
  .append rfl

theorem keeps_locate {name : Text} {shared later : Shared}
    {found : Except Problem (FileEntry × Document)}
    (located : locate settings site name shared = .ok (found, later)) : shared.Keeps later := by
  unfold locate at located
  split at located
  · cases located
  · cases located
    exact .refl _
  · dsimp only at located
    split at located
    · cases located
      exact .of_eq rfl
    · split at located
      · cases located
        exact .of_eq rfl
      · cases located
      · cases located
        dsimp only [Shared.Keeps]
        rw [Array.toList_appendList]
        exact List.prefix_append ..

theorem keeps_load (below : nested.Keeps) {name : Text} {anchor : Span} {shared later : Shared}
    {inclusion : Option Inclusion}
    (done : load settings site nested name anchor shared = .ok (inclusion, later)) :
    shared.Keeps later := by
  cases nested with
  | none =>
    cases done
    exact .push rfl
  | some expand =>
    rcases located : locate settings site name shared with
      abort | ⟨problem | ⟨entry, document⟩, middle⟩
    · cases (load_of_failed located).symm.trans done
    · cases (load_of_refused located).symm.trans done
      exact (keeps_locate located).trans (.push rfl)
    · rw [load_of_located located] at done
      cases expansion : expand document (site.ancestors ++ [entry.id]) middle with
      | error abort =>
        rw [expansion] at done
        cases done
      | ok result =>
        obtain ⟨expanded, last⟩ := result
        rw [expansion] at done
        cases done
        exact (keeps_locate located).trans (below expand rfl _ _ _ _ _ expansion)

theorem keeps_step (below : nested.Keeps)
    (done : step settings site nested branch token = .ok after) :
    branch.shared.Keeps after.shared := by
  cases moves_of_step done with
  | writes => exact .refl _
  | opens => exact .refl _
  | closes => exact .refl _
  | defines => exact keeps_attempt branch _
  | provides => exact keeps_attempt branch _
  | unmarked isGlobal => exact keeps_attempt branch (Scan.marked branch.shared.scope isGlobal)
  | givesUp scan => exact keeps_attempt branch scan
  | refuses problem aborted => exact .push rfl
  | misses problem failed =>
    exact (keeps_attempt { branch with steps := branch.steps + 1 } _).trans (.push rfl)
  | @calls definition arguments =>
    exact keeps_attempt { branch with steps := branch.steps + 1 } (Scan.invocation definition token)
  | enters => exact keeps_attempt branch Scan.environmentName
  | passes => exact keeps_attempt branch Scan.environmentName
  | follows follows loaded => exact keeps_load below loaded

theorem keeps_run (below : nested.Keeps) (done : run settings site nested branch = .ok after) :
    branch.shared.Keeps after.shared := by
  fun_induction run settings site nested branch with
  | case1 branch stream finished =>
    cases done
    exact .refl _
  | case2 branch token stream found abort failed => cases done
  | case3 branch token stream found later step ih => exact (keeps_step below step).trans (ih done)

end Branch

theorem keeps_expandWith {settings : Settings} {nested : Nested} (below : nested.Keeps)
    {document expanded : Document} {ancestors : List FileId} {shared later : Shared}
    (done : expandWith settings nested document ancestors shared = .ok (expanded, later)) :
    shared.Keeps later := by
  obtain ⟨last, ran, -, rfl⟩ := exists_run_of_expandWith done
  exact Branch.keeps_run below ran

theorem keeps_expandIncluded (settings : Settings) (room : Nat) :
    (expandIncluded settings room).Keeps := by
  induction room with
  | zero => exact nofun
  | succ room ih =>
    rintro expand ⟨⟩ document ancestors shared expanded later done
    exact keeps_expandWith ih done

/-- What one expansion of included documents comes to without reports of limits, another comes
to as well. -/
def Nested.Agrees (nested other : Nested) : Prop :=
  ∀ expandIncluded ∈ nested, ∃ expandOther ∈ other,
    ∀ (document : Document) (ancestors : List FileId) (shared : Shared) (expanded : Document)
      (later : Shared), expandIncluded document ancestors shared = .ok (expanded, later) →
      Uncut later.diagnostics.toList →
      expandOther document ancestors shared = .ok (expanded, later)

namespace Branch

variable {settings : Settings} {wider : Limits} {site : Site} {nested other : Nested}
  {branch after : Branch} {token : Token}

/-- A macro that limits allow to be called, wider limits allow to be called. -/
theorem admission_of_le {limits : Limits} (within : limits ≤ wider)
    (admitted : branch.admission limits = some .admitted) :
    branch.admission wider = some .admitted := by
  obtain ⟨depth, steps, -⟩ := within
  rcases admission_inv admitted with
    ⟨maxSteps, foundSteps, ⟨_, reached⟩ | ⟨below, maxDepth, foundDepth, stands⟩⟩
  · cases reached
  obtain ⟨_, exceeded⟩ | ⟨shallow, _⟩ := stands
  · cases exceeded
  obtain ⟨wideSteps, foundWideSteps, moreSteps⟩ := steps maxSteps foundSteps
  obtain ⟨wideDepth, foundWideDepth, moreDepth⟩ := depth maxDepth foundDepth
  rw [Option.mem_def] at foundWideSteps foundWideDepth
  rw [admission, foundWideSteps, foundWideDepth]
  dsimp only
  rw [if_neg (by omega), if_neg (by omega)]

/-- A macro that is used without a report of a limit is called. -/
theorem invoke_of_le {limits : Limits} (within : limits ≤ wider) {use : Token}
    {definition : Macro} (done : branch.invoke limits use definition = .ok after)
    (uncut : Uncut after.shared.diagnostics.toList) :
    branch.invoke wider use definition = .ok after := by
  unfold invoke at done
  split at done
  · cases done
  · cases done
    exact absurd uncut (not_uncut_push (.inl rfl))
  · cases done
    exact absurd uncut (not_uncut_push (.inl rfl))
  · rename_i admitted
    rw [invoke, admission_of_le within admitted]
    exact done

/-- A directive that is dealt with without a report of a limit leads to the same. -/
theorem load_of_agrees (agrees : nested.Agrees other) {name : Text} {anchor : Span}
    {shared later : Shared} {inclusion : Option Inclusion}
    (done : load settings site nested name anchor shared = .ok (inclusion, later))
    (uncut : Uncut later.diagnostics.toList) :
    load (settings.under wider) site other name anchor shared = .ok (inclusion, later) := by
  cases nested with
  | none =>
    cases done
    exact absurd uncut (not_uncut_push (.inr rfl))
  | some expand =>
    obtain ⟨expandOther, rfl, same⟩ := agrees expand rfl
    rcases located : locate settings site name shared with
      abort | ⟨problem | ⟨entry, document⟩, middle⟩
    · cases (load_of_failed located).symm.trans done
    · have wide : locate (settings.under wider) site name shared = _ := located
      rw [load_of_refused located] at done
      rw [load_of_refused wide, done]
    · have wide : locate (settings.under wider) site name shared = _ := located
      rw [load_of_located located] at done
      rw [load_of_located wide]
      cases expansion : expand document (site.ancestors ++ [entry.id]) middle with
      | error abort =>
        rw [expansion] at done
        cases done
      | ok result =>
        obtain ⟨expanded, last⟩ := result
        rw [expansion] at done
        cases done
        rw [same _ _ _ _ _ expansion uncut]
        rfl

/-- **A step without a report of a limit is the same under wider limits.** -/
theorem step_of_le (within : settings.limits ≤ wider) (agrees : nested.Agrees other)
    (done : step settings site nested branch token = .ok after)
    (uncut : Uncut after.shared.diagnostics.toList) :
    step (settings.under wider) site other branch token = .ok after := by
  cases follows : branch.follows? token with
  | some directive =>
    rw [step_of_load follows] at done ⊢
    cases loaded : load settings site nested directive.name token.span branch.shared with
    | error abort =>
      rw [loaded] at done
      cases done
    | ok result =>
      rw [loaded] at done
      cases done
      rw [load_of_agrees agrees loaded uncut]
      rfl
  | none =>
    unfold step at done ⊢
    by_cases aborted : branch.aborted = true
    · rw [if_pos aborted] at done ⊢
      exact done
    rw [if_neg aborted] at done ⊢
    cases code : branch.verbatim with
    | some name =>
      rw [code] at done
      exact done
    | none =>
      rw [code] at done
      dsimp only at done ⊢
      cases meaning : branch.meaning? token with
      | some definition =>
        rw [meaning] at done
        exact invoke_of_le within done uncut
      | none =>
        rw [meaning] at done
        dsimp only at done ⊢
        cases kind : token.kind with
        | controlWord word =>
          rw [kind] at done
          by_cases includes : isInclusionWord word = true
          · have unread : (branch.attempt Scan.inclusion).1 = none := by
              simpa [follows?, aborted, code, meaning, kind, includes] using follows
            dsimp only at done ⊢
            rw [obey_of_isInclusionWord includes] at done ⊢
            unfold followDirective at done ⊢
            dsimp only at done ⊢
            rw [unread] at done ⊢
            exact done
          · simp only [obey, includes] at done ⊢
            exact done
        | _ =>
          rw [kind] at done
          exact done

/-- **A branch without reports of limits is the same under wider limits.** -/
theorem run_of_le (within : settings.limits ≤ wider) (agrees : nested.Agrees other)
    (below : nested.Keeps) (done : run settings site nested branch = .ok after)
    (uncut : Uncut after.shared.diagnostics.toList) :
    run (settings.under wider) site other branch = .ok after := by
  fun_induction run settings site nested branch with
  | case1 branch stream finished => rw [run_of_finished finished, done]
  | case2 branch token stream found abort failed => cases done
  | case3 branch token stream found later step ih =>
    have stays := keeps_run below done
    rw [run_of_found found (step_of_le within agrees step (stays.uncut uncut))]
    exact ih done

end Branch

theorem expandWith_of_le {settings : Settings} {wider : Limits} {nested other : Nested}
    (within : settings.limits ≤ wider) (agrees : nested.Agrees other) (below : nested.Keeps)
    {document expanded : Document} {ancestors : List FileId} {shared later : Shared}
    (done : expandWith settings nested document ancestors shared = .ok (expanded, later))
    (uncut : Uncut later.diagnostics.toList) :
    expandWith (settings.under wider) other document ancestors shared = .ok (expanded, later) := by
  obtain ⟨last, ran, rfl, rfl⟩ := exists_run_of_expandWith done
  unfold expandWith
  dsimp only
  rw [Branch.run_of_le within agrees below ran uncut]
  rfl

/-- Wider limits give included files the same room and more. -/
theorem agrees_expandIncluded {settings : Settings} {wider : Limits}
    (within : settings.limits ≤ wider) {room more : Nat} (roomier : room ≤ more) :
    (expandIncluded settings room).Agrees (expandIncluded (settings.under wider) more) := by
  induction room generalizing more with
  | zero => exact nofun
  | succ room ih =>
    obtain ⟨more, rfl⟩ : ∃ less, more = less + 1 := ⟨more - 1, by omega⟩
    rintro expand ⟨⟩
    refine ⟨_, rfl, fun document ancestors shared expanded later done uncut => ?_⟩
    exact expandWith_of_le within (ih (by omega)) (keeps_expandIncluded settings room) done uncut

/-- **Limits only cut off.** An expansion that comes to an end without reports of limits comes
to the same end under wider limits: the same document with the same included documents, the same
reports, and the same scope. -/
theorem expand_of_le {settings : Settings} {wider : Limits} {document expanded : Document}
    {scope : Scope} {table : FileTable} {reports : List Diagnostic}
    (within : settings.limits ≤ wider)
    (done : (expand settings document scope table).outcome = .ok (expanded, reports))
    (uncut : ∀ report ∈ reports, report.kind ≠ .maxExpansionDepthExceeded ∧
      report.kind ≠ .maxInclusionDepthExceeded) :
    expand (settings.under wider) document scope table = expand settings document scope table := by
  have roomier : settings.limits.maxIncludeDepth.toNat ≤ wider.maxIncludeDepth.toNat :=
    Int.toNat_le_toNat within.2.2
  unfold expand expandNested at done ⊢
  dsimp only at done ⊢
  cases expansion : expandWith settings
      (expandIncluded settings settings.limits.maxIncludeDepth.toNat) document [document.fileId]
      ⟨scope, table, #[], []⟩ with
  | error abort =>
    rw [expansion] at done
    cases done
  | ok result =>
    obtain ⟨result, later⟩ := result
    rw [expansion] at done
    cases done
    have same := expandWith_of_le within (agrees_expandIncluded within roomier)
      (keeps_expandIncluded settings _) expansion uncut
    have bound : (settings.under wider).limits.maxIncludeDepth = wider.maxIncludeDepth := rfl
    rw [bound, same]

/-- Limits under which a branch calls one macro, and includes no file. -/
def oneCall : Limits := ⟨some 1, some 1, 0⟩

/-- A text that calls one macro comes to the same under the limits that there are by default. -/
theorem expand_of_le_oneCall :
    oneCall ≤ {} ∧ ∃ document expanded,
      Document.parse "\\def\\a\x7bx\x7d\\a" .standard .standard 0 = .ok document ∧
      (expand ⟨noFiles, oneCall, .standard⟩ document Scope.empty
        (.empty noFiles.currentDirectory)).outcome = .ok (expanded, []) ∧
      expanded.sourceText = "x" ∧
      expand ⟨noFiles, {}, .standard⟩ document Scope.empty (.empty noFiles.currentDirectory) =
        expand ⟨noFiles, oneCall, .standard⟩ document Scope.empty
          (.empty noFiles.currentDirectory) := by
  have within : oneCall ≤ {} :=
    ⟨fun _ same => ⟨64, rfl, by cases same; decide⟩,
      fun _ same => ⟨10000, rfl, by cases same; decide⟩, by decide⟩
  obtain ⟨document, branch, parsed, ran, passes⟩ :=
    exists_mainRun ⟨noFiles, oneCall, .standard⟩ "\\def\\a\x7bx\x7d\\a" 20
      (fun document branch => decide (branch.shared.diagnostics.toList = []) &&
        decide ((branch.result .standard document).sourceText = "x")) (by decide +kernel)
  simp only [Bool.and_eq_true, decide_eq_true_eq] at passes
  have done := outcome_of_mainRun ran
  rw [passes.1] at done
  exact ⟨within, document, _, parsed, done, passes.2, expand_of_le within done nofun⟩

end Expansion

end TexSource
