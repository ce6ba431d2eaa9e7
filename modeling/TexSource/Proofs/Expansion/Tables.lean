import TexSource.Proofs.Expansion.Directives
import TexSource.Proofs.FileTable.Mirrors

/-!
# The file table in an expansion

What an expansion does with the file table of a run is to enter and to parse files
(`FileTable.Develops`), also where it fails. So the table goes on to mirror the file system.
-/

namespace TexSource

namespace Expansion

/-- What an expansion shares with others in the end, whether it fails or not. -/
def sharedOf {Result : Type} (shared : Result → Shared) : Except Abort Result → Shared
  | .error abort => abort.shared
  | .ok result => shared result

variable {settings : Settings} {site : Site} {nested : Nested} {shared : Shared} {name : Text}

/-- The expansion of an included document develops the file table. -/
def Nested.Develops (settings : Settings) (nested : Nested) : Prop :=
  ∀ expandIncluded ∈ nested, ∀ (document : Document) (ancestors : List FileId) (shared : Shared),
    shared.table.Develops settings.files
      (sharedOf Prod.snd (expandIncluded document ancestors shared)).table

namespace Branch

/-- The file that a name stands for is entered, whatever becomes of it. -/
theorem develops_enter {path : Path}
    (found : shared.table.resolve settings.files name site.ancestors = .ok (some path)) :
    (shared.table.enter path (some site.fileId)).2.Develops settings.files
      (sharedOf Prod.snd (locate settings site name shared)).table := by
  unfold locate
  rw [found]
  dsimp only
  generalize shared.table.enter path (some site.fileId) = entered
  obtain ⟨entry, table⟩ := entered
  dsimp only
  split
  · exact .refl ..
  · have parsed := FileTable.Develops.document settings.files table entry.id
    generalize table.document settings.files entry.id = result at parsed
    rcases result with ⟨(error | error | _) | document, later⟩ <;> exact parsed

theorem develops_locate (settings : Settings) (site : Site) (name : Text) (shared : Shared) :
    shared.table.Develops settings.files
      (sharedOf Prod.snd (locate settings site name shared)).table := by
  rcases found : shared.table.resolve settings.files name site.ancestors with error | _ | path
  · unfold locate
    rw [found]
    exact .refl ..
  · unfold locate
    rw [found]
    exact .refl ..
  · exact (FileTable.Develops.enter ..).trans (develops_enter found)

/-- A file that was located may be expanded, and others after it. -/
theorem develops_located {expand : Document → List FileId → Shared →
      Except Abort (Document × Shared)}
    (below : Nested.Develops settings (some expand)) (site : Site) (name : Text) (anchor : Span)
    (shared : Shared) :
    (sharedOf Prod.snd (locate settings site name shared)).table.Develops settings.files
      (sharedOf Prod.snd (load settings site (some expand) name anchor shared)).table := by
  unfold load
  dsimp only [bind, Except.bind]
  generalize locate settings site name shared = outcome
  rcases outcome with abort | ⟨problem | ⟨entry, document⟩, later⟩
  · exact .refl ..
  · exact .refl ..
  · have inside := below expand rfl document (site.ancestors ++ [entry.id]) later
    dsimp only
    generalize expand document (site.ancestors ++ [entry.id]) later = expanded at inside
    rcases expanded with abort | ⟨expanded, last⟩ <;> exact inside

theorem develops_load (below : nested.Develops settings) (site : Site) (name : Text)
    (anchor : Span) (shared : Shared) :
    shared.table.Develops settings.files
      (sharedOf Prod.snd (load settings site nested name anchor shared)).table := by
  cases nested with
  | none => exact .refl ..
  | some expand => exact (develops_locate ..).trans (develops_located below ..)

variable {branch : Branch} {token : Token}

theorem table_of_defineNewCommand {abort : Abort} {word : Text}
    (failed : branch.defineNewCommand token word = .error abort) :
    abort.shared.table = branch.shared.table := by
  unfold defineNewCommand at failed
  dsimp only at failed
  split at failed
  · cases failed
    rfl
  · cases failed
  · split at failed <;> cases failed

theorem table_of_obey {abort : Abort} {word : Text}
    (unfollowed : isInclusionWord word = true → (branch.attempt Scan.inclusion).1 = none)
    (failed : branch.obey settings site nested token word = .error abort) :
    abort.shared.table = branch.shared.table := by
  unfold obey at failed
  split at failed
  · cases failed
  · split at failed
    · cases failed
    · split at failed
      · cases failed
      · split at failed
        · exact table_of_defineNewCommand failed
        · split at failed
          · rename_i includes
            unfold followDirective at failed
            dsimp only at failed
            rw [unfollowed includes] at failed
            cases failed
          · split at failed <;> cases failed

/-- Where no directive is followed, the file table stays as it is, whatever else fails. -/
theorem table_of_failed {abort : Abort} (unfollowed : branch.follows? token = none)
    (failed : branch.step settings site nested token = .error abort) :
    abort.shared.table = branch.shared.table := by
  unfold step at failed
  split at failed
  · cases failed
  · rename_i running
    split at failed
    · cases failed
    · rename_i code
      split at failed
      · unfold invoke at failed
        split at failed
        · cases failed
          rfl
        all_goals cases failed
      · rename_i unbound
        split at failed
        · cases failed
        · cases failed
        · rename_i word kind
          refine table_of_obey (fun includes => ?_) failed
          simpa [follows?, running, code, unbound, kind, includes] using unfollowed
        · cases failed

theorem develops_step (below : nested.Develops settings) (site : Site) (branch : Branch)
    (token : Token) :
    branch.shared.table.Develops settings.files
      (sharedOf Branch.shared (branch.step settings site nested token)).table := by
  cases follows : branch.follows? token with
  | some directive =>
    have loaded := develops_load below site directive.name token.span branch.shared
    rw [step_of_load follows]
    generalize load settings site nested directive.name token.span branch.shared = outcome at loaded
    rcases outcome with abort | ⟨inclusion, later⟩ <;> exact loaded
  | none =>
    cases done : branch.step settings site nested token with
    | error abort =>
      have same := table_of_failed follows done
      change branch.shared.table.Develops settings.files abort.shared.table
      rw [same]
      exact .refl ..
    | ok after =>
      obtain ⟨directive, other⟩ | aside := step_cases done
      · cases follows.symm.trans other
      · change branch.shared.table.Develops settings.files after.shared.table
        rw [aside.table]
        exact .refl ..

theorem develops_run (below : nested.Develops settings) (site : Site) (branch : Branch) :
    branch.shared.table.Develops settings.files
      (sharedOf Branch.shared (branch.run settings site nested)).table := by
  fun_induction run settings site nested branch with
  | case1 branch stream finished => exact .refl ..
  | case2 branch token stream found abort failed =>
    have step := develops_step below site { branch with stream } token
    rwa [failed] at step
  | case3 branch token stream found later done ih =>
    have step := develops_step below site { branch with stream } token
    rw [done] at step
    exact step.trans ih

end Branch

theorem develops_expandWith (below : nested.Develops settings) (document : Document)
    (ancestors : List FileId) (shared : Shared) :
    shared.table.Develops settings.files
      (sharedOf Prod.snd (expandWith settings nested document ancestors shared)).table := by
  have run := Branch.develops_run below (siteOf document ancestors shared)
    (Branch.start document shared)
  unfold expandWith
  dsimp only [bind, Except.bind]
  generalize Branch.run settings (siteOf document ancestors shared) nested
    (Branch.start document shared) = outcome at run
  rcases outcome with abort | branch <;> exact run

theorem develops_expandIncluded (settings : Settings) (room : Nat) :
    (expandIncluded settings room).Develops settings := by
  induction room with
  | zero => exact nofun
  | succ room ih =>
    intro expand same
    cases same
    exact develops_expandWith ih

end Expansion

end TexSource
