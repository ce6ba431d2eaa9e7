import TexSource.Expansion

/-!
# Runs of a branch

A branch reads one token after another (`Branch.Reads`), and never for ever. What it comes
to is either that all is read or that a token cannot be dealt with (`Branch.Ends`), and a
run of single tokens leads there (`Branch.exists_ends`). On the way the macros that are
called are counted, and so are the times that the limit on them is reached.
-/

namespace TexSource

namespace Expansion

namespace Stream

/-- The tokens that a stream has still to read. -/
def tokens (stream : Stream) : List Token :=
  stream.items.filterMap fun
    | .token token => some token
    | .endOfCall _ => none

theorem tokens_next (stream : Stream) :
    stream.tokens = stream.next.1.toList ++ stream.next.2.tokens := by
  obtain ⟨items, calls⟩ := stream
  induction items generalizing calls with
  | nil => rfl
  | cons item items ih =>
    cases item with
    | token token => rfl
    | endOfCall name => exact ih calls.tail

theorem tokens_eq_nil {stream : Stream} (finished : stream.next.1 = none) :
    stream.tokens = [] := by
  obtain ⟨items, calls⟩ := stream
  induction items generalizing calls with
  | nil => rfl
  | cons item items ih =>
    cases item with
    | token token => cases finished
    | endOfCall name => exact ih calls.tail finished

end Stream

namespace Branch

variable {settings : Settings} {site : Site} {nested : Nested}

theorem meaning?_eq_some_iff {branch : Branch} {token : Token} {definition : Macro} :
    branch.meaning? token = some definition ↔ token.isDefinable = true ∧
      branch.shared.scope.lookup token.macroName = some definition := by
  unfold meaning?
  split <;> simp_all

/-- A branch comes from another by reading one token. -/
def Reads (settings : Settings) (site : Site) (nested : Nested) (before after : Branch) : Prop :=
  ∃ token stream, before.stream.next = (some token, stream) ∧
    step settings site nested { before with stream } token = .ok after

/-- **No branch reads for ever.** -/
theorem wellFounded_reads (settings : Settings) (site : Site) (nested : Nested) :
    WellFounded fun after before => Reads settings site nested before after := by
  have ranked : WellFounded
      (InvImage (Prod.Lex (· < ·) (· < ·)) (Branch.rank settings.limits)) :=
    InvImage.wf _ (Prod.lex _ _).wf
  refine Subrelation.wf ?_ ranked
  rintro after before ⟨token, stream, found, done⟩
  exact rank_lt found done

/-- A branch comes from another by reading tokens. The numbers are those of the macros
called and of the limits on calls reached on the way. -/
inductive Runs (settings : Settings) (site : Site) (nested : Nested) (first : Branch) :
    Branch → (called stopped : Nat) → Prop where
  | start : Runs settings site nested first first 0 0
  | read {branch after : Branch} {stream : Stream} {token : Token} {called stopped : Nat}
      (before : Runs settings site nested first branch called stopped)
      (found : branch.stream.next = (some token, stream))
      (done : step settings site nested { branch with stream } token = .ok after) :
      Runs settings site nested first after
        (called + (Branch.calls settings.limits { branch with stream } token).toNat)
        (stopped + (Branch.stops settings.limits { branch with stream } token).toNat)

theorem run_of_found {branch after : Branch} {stream : Stream} {token : Token}
    (found : branch.stream.next = (some token, stream))
    (done : step settings site nested { branch with stream } token = .ok after) :
    run settings site nested branch = run settings site nested after := by
  rw [run]
  split
  · rename_i other
    cases found.symm.trans other
  · rename_i other
    cases found.symm.trans other
    split
    · rename_i failed
      cases done.symm.trans failed
    · rename_i later
      cases done.symm.trans later
      rfl

theorem run_of_failed {branch : Branch} {stream : Stream} {token : Token} {abort : Abort}
    (found : branch.stream.next = (some token, stream))
    (failed : step settings site nested { branch with stream } token = .error abort) :
    run settings site nested branch = .error abort := by
  rw [run]
  split
  · rename_i other
    cases found.symm.trans other
  · rename_i other
    cases found.symm.trans other
    split
    · rename_i same
      cases failed.symm.trans same
      rfl
    · rename_i done
      cases failed.symm.trans done

theorem run_of_finished {branch : Branch} {stream : Stream}
    (finished : branch.stream.next = (none, stream)) :
    run settings site nested branch = .ok { branch with stream } := by
  rw [run]
  split
  · rename_i other
    cases finished.symm.trans other
    rfl
  · rename_i other
    cases finished.symm.trans other

/-- What a branch becomes is settled by what it has become so far. -/
theorem Runs.run_eq {first branch : Branch} {called stopped : Nat}
    (runs : Runs settings site nested first branch called stopped) :
    run settings site nested first = run settings site nested branch := by
  induction runs with
  | start => rfl
  | read before found done same => exact same.trans (run_of_found found done)

/-- How a run ends: all is read, or a token cannot be dealt with. -/
inductive Ends (settings : Settings) (site : Site) (nested : Nested) (last : Branch) :
    Except Abort Branch → Prop where
  | finished {stream : Stream} (finished : last.stream.next = (none, stream)) :
      Ends settings site nested last (.ok { last with stream })
  | failed {stream : Stream} {token : Token} {abort : Abort}
      (found : last.stream.next = (some token, stream))
      (failed : step settings site nested { last with stream } token = .error abort) :
      Ends settings site nested last (.error abort)

theorem Runs.exists_ends {first branch : Branch} {called stopped : Nat}
    (runs : Runs settings site nested first branch called stopped) :
    ∃ last called stopped, Runs settings site nested first last called stopped ∧
      Ends settings site nested last (run settings site nested first) := by
  induction branch using (wellFounded_reads settings site nested).induction
      generalizing called stopped with
  | _ branch ih =>
    rw [runs.run_eq]
    rcases found : branch.stream.next with ⟨_ | token, stream⟩
    · rw [run_of_finished found]
      exact ⟨branch, called, stopped, runs, .finished found⟩
    · cases done : step settings site nested { branch with stream } token with
      | error abort =>
        rw [run_of_failed found done]
        exact ⟨branch, called, stopped, runs, .failed found done⟩
      | ok after =>
        rw [← runs.run_eq]
        exact ih after ⟨token, stream, found, done⟩ (runs.read found done)

/-- **Every run reads single tokens up to an end.** -/
theorem exists_ends (settings : Settings) (site : Site) (nested : Nested) (first : Branch) :
    ∃ last called stopped, Runs settings site nested first last called stopped ∧
      Ends settings site nested last (run settings site nested first) :=
  Runs.start.exists_ends

/-- What a run comes to, if it reads no more tokens than a given number. -/
def runWithin (settings : Settings) (site : Site) (nested : Nested) (branch : Branch) :
    (count : Nat) → Option (Except Abort Branch)
  | 0 => none
  | count + 1 =>
    match branch.stream.next with
    | (none, stream) => some (.ok { branch with stream })
    | (some token, stream) =>
      match step settings site nested { branch with stream } token with
      | .error abort => some (.error abort)
      | .ok later => runWithin settings site nested later count

/-- A run that is carried out is the whole run. -/
theorem run_of_runWithin {count : Nat} {branch : Branch} {outcome : Except Abort Branch}
    (ran : runWithin settings site nested branch count = some outcome) :
    run settings site nested branch = outcome := by
  induction count generalizing branch with
  | zero => cases ran
  | succ count ih =>
    unfold runWithin at ran
    split at ran
    · rename_i finished
      cases ran
      exact run_of_finished finished
    · rename_i found
      split at ran
      · rename_i failed
        cases ran
        exact run_of_failed found failed
      · rename_i done
        rw [run_of_found found done]
        exact ih ran

end Branch

/-- What an expansion in a branch of its own comes to. -/
theorem exists_run_of_expandWith {settings : Settings} {nested : Nested}
    {document expanded : Document} {ancestors : List FileId} {shared later : Shared}
    (done : expandWith settings nested document ancestors shared = .ok (expanded, later)) :
    ∃ last, (Branch.start document shared).run settings (siteOf document ancestors shared) nested =
        .ok last ∧
      expanded = last.result settings.commands document ∧
      later = { last.shared with scope := last.shared.scope.popTo shared.scope.depth } := by
  unfold expandWith at done
  dsimp only at done
  cases ran : (Branch.start document shared).run settings (siteOf document ancestors shared)
      nested with
  | error abort =>
    rw [ran] at done
    cases done
  | ok last =>
    rw [ran] at done
    cases done
    exact ⟨last, rfl, rfl, rfl⟩

/-- The main branch of an expansion at the end of its run, if the run reads no more tokens
than a given number and does not fail. -/
def mainRun (settings : Settings) (document : Document) (scope : Scope) (table : FileTable)
    (count : Nat) : Option Branch :=
  let shared : Shared := ⟨scope, table, #[], []⟩
  (Branch.runWithin settings (siteOf document [document.fileId] shared)
    (expandIncluded settings settings.limits.maxIncludeDepth.toNat)
    (Branch.start document shared) count).bind Except.toOption

/-- A main branch that is carried out comes to its end. -/
theorem run_of_mainRun {settings : Settings} {document : Document} {scope : Scope}
    {table : FileTable} {count : Nat} {branch : Branch}
    (ran : mainRun settings document scope table count = some branch) :
    (Branch.start document ⟨scope, table, #[], []⟩).run settings
      (siteOf document [document.fileId] ⟨scope, table, #[], []⟩)
      (expandIncluded settings settings.limits.maxIncludeDepth.toNat) = .ok branch := by
  obtain ⟨outcome, ran, done⟩ := Option.bind_eq_some_iff.mp ran
  cases outcome with
  | error abort => cases done
  | ok last =>
    cases done
    exact Branch.run_of_runWithin ran

/-- What an expansion comes to whose main branch is carried out. -/
theorem outcome_of_mainRun {settings : Settings} {document : Document} {scope : Scope}
    {table : FileTable} {count : Nat} {branch : Branch}
    (ran : mainRun settings document scope table count = some branch) :
    (expand settings document scope table).outcome =
      .ok (branch.result settings.commands document, branch.shared.diagnostics.toList) := by
  unfold expand expandNested expandWith
  simp only [run_of_mainRun ran]
  rfl

theorem scope_of_mainRun {settings : Settings} {document : Document} {scope : Scope}
    {table : FileTable} {count : Nat} {branch : Branch}
    (ran : mainRun settings document scope table count = some branch) :
    (expand settings document scope table).scope = branch.shared.scope.popTo scope.depth := by
  unfold expand expandNested expandWith
  simp only [run_of_mainRun ran]
  rfl

/-- A text whose main branch reads no more tokens than a given number, and passes a test in the
end. -/
theorem exists_mainRun (settings : Settings) (source : Text) (count : Nat)
    (test : Document → Branch → Bool)
    (checked : ((Document.parse source .standard settings.commands 0).toOption.bind fun document =>
      (mainRun settings document Scope.empty (.empty settings.files.currentDirectory) count).filter
        (test document)).isSome = true) :
    ∃ document branch, Document.parse source .standard settings.commands 0 = .ok document ∧
      mainRun settings document Scope.empty (.empty settings.files.currentDirectory) count =
        some branch ∧ test document branch = true := by
  obtain ⟨branch, found⟩ := Option.isSome_iff_exists.mp checked
  obtain ⟨document, parsed, ran⟩ := Option.bind_eq_some_iff.mp found
  obtain ⟨ran, passes⟩ := Option.filter_eq_some_iff.mp ran
  cases outcome : Document.parse source .standard settings.commands 0 with
  | error failure =>
    rw [outcome] at parsed
    cases parsed
  | ok other =>
    rw [outcome] at parsed
    cases parsed
    exact ⟨document, branch, rfl, ran, passes⟩

end Expansion

end TexSource
