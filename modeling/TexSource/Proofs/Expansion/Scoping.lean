import TexSource.Proofs.Expansion.GivingUp
import TexSource.Proofs.Expansion.Directives
import TexSource.Proofs.Layers

/-!
# The scope during an expansion

All branches of an expansion share one scope. A branch opens and closes its layers as it reads
braces, and defines macros; what an included file does to the scope stands among the changes of the
branch that includes it (`Branch.history`). No branch closes a layer that was open before it
started, whatever braces it reads, and at its end it closes those that it left open
(`scoped_expand`).
-/

namespace TexSource

/-- A change to the macros that are defined. -/
abbrev Scope.Change := Layered.Change Text Macro

/-- What a definition changes in a scope. -/
def Macro.change (definition : Macro) : Scope.Change :=
  if definition.isGlobal then .assignedGlobally definition.name definition
  else .assignedLocally definition.name definition

namespace Expansion

/-- The changes that included documents make, where documents may be included. -/
abbrev NestedHistory := Option (Document → List FileId → Shared → List Scope.Change)

namespace Branch

variable {settings : Settings} {site : Site} {nested : Nested} {inside : NestedHistory}
  {branch before after : Branch} {token : Token}

/-- The macro that a branch defines at a control word that is not bound as a macro. -/
def defines? (branch : Branch) (word : Text) : Option Macro :=
  if Scan.isDefinitionMark word then
    match (branch.attempt (Scan.marked branch.shared.scope (word = "global"))).1 with
    | .defines definition => some definition
    | _ => none
  else
    match Scan.definer? word with
    | some isGlobal => (branch.attempt (Scan.definition isGlobal)).1
    | none =>
      if word = "let" then (branch.attempt (Scan.letBinding branch.shared.scope false)).1
      else if isNewCommandWord word then
        match (branch.attempt Scan.newCommand).1 with
        | .ok (some definition) =>
          if word = "providecommand" && branch.shared.scope.binds definition.name then none
          else some definition
        | _ => none
      else none

/-- What a branch changes in the scope at a token. A closing brace without an opening one in the
same branch changes nothing. -/
def change? (site : Site) (branch : Branch) (token : Token) : Option Scope.Change :=
  if branch.aborted || branch.verbatim.isSome || (branch.meaning? token).isSome then none
  else
    match token.kind with
    | .beginGroup _ => some .opened
    | .endGroup _ => if site.baseDepth < branch.shared.scope.depth then some .closed else none
    | .controlWord word => (branch.defines? word).map Macro.change
    | _ => none

/-- The changes from the time a branch reads a token up to the time it goes on behind it. -/
def changes (settings : Settings) (site : Site) (inside : NestedHistory) (branch : Branch)
    (token : Token) : List Scope.Change :=
  match inside, branch.opens settings site token with
  | some historyOf, some (document, ancestors, shared) => historyOf document ancestors shared
  | _, _ => (branch.change? site token).toList

/-- The changes that are made up to the end of a run. -/
def history (settings : Settings) (site : Site) (nested : Nested) (inside : NestedHistory)
    (branch : Branch) : List Scope.Change :=
  match _found : branch.stream.next with
  | (none, _) => []
  | (some token, stream) =>
    match _done : step settings site nested { branch with stream } token with
    | .error _ => []
    | .ok later =>
      changes settings site inside { branch with stream } token ++
        history settings site nested inside later
termination_by branch.rank settings.limits
decreasing_by exact rank_lt _found _done

theorem history_of_finished {stream : Stream} (finished : branch.stream.next = (none, stream)) :
    history settings site nested inside branch = [] := by
  rw [history]
  split
  · rfl
  · rename_i found
    cases finished.symm.trans found

theorem history_of_found {stream : Stream} (found : branch.stream.next = (some token, stream))
    (done : step settings site nested { branch with stream } token = .ok after) :
    history settings site nested inside branch =
      changes settings site inside { branch with stream } token ++
        history settings site nested inside after := by
  rw [history]
  split
  · rename_i finished
    cases finished.symm.trans found
  · rename_i other
    cases other.symm.trans found
    split
    · rename_i failed
      cases failed.symm.trans done
    · rename_i same
      cases same.symm.trans done
      rfl

theorem evolves_define {base : Nat} {scope : Scope} (above : base ≤ scope.depth)
    (definition : Macro) :
    Layered.Evolves base scope [definition.change] (scope.define definition) := by
  unfold Macro.change Scope.define
  split
  · exact (Layered.Evolves.start above).assignedGlobally definition.name definition
  · exact (Layered.Evolves.start above).assignedLocally definition.name definition

theorem evolves_defined {base : Nat} {scope : Scope} (above : base ≤ scope.depth)
    (found : Option Macro) :
    Layered.Evolves base scope (found.map Macro.change).toList (found.elim scope scope.define) := by
  cases found with
  | none => exact .start above
  | some definition => exact evolves_define above definition

theorem scope_defineBy (branch : Branch) (first : Token) (scan : Scan (Option Macro)) :
    (branch.defineBy first scan).shared.scope =
      (branch.attempt scan).1.elim branch.shared.scope branch.shared.scope.define := by
  unfold defineBy
  dsimp only
  cases (branch.attempt scan).1 <;> rfl

theorem scope_invoke {limits : Limits} {use : Token} {definition : Macro}
    (done : branch.invoke limits use definition = .ok after) :
    after.shared.scope = branch.shared.scope := by
  unfold invoke at done
  split at done
  · cases done
  · cases done
    rfl
  · cases done
    rfl
  · cases done
    unfold call
    dsimp only
    split <;> rfl

theorem scope_defineNewCommand {first : Token} {word : Text}
    (done : branch.defineNewCommand first word = .ok after) :
    after.shared.scope =
      (match (branch.attempt Scan.newCommand).1 with
        | .ok (some definition) =>
          if word = "providecommand" && branch.shared.scope.binds definition.name then none
          else some definition
        | _ => none).elim branch.shared.scope branch.shared.scope.define := by
  have scope : (branch.attempt Scan.newCommand).2.2.shared.scope = branch.shared.scope := rfl
  unfold defineNewCommand at done
  dsimp only at done
  rw [scope] at done
  rcases outcome : (branch.attempt Scan.newCommand).1 with error | _ | definition
  · rw [outcome] at done
    cases done
  · rw [outcome] at done
    cases done
    rfl
  · rw [outcome] at done
    dsimp only at done ⊢
    split at done
    · rename_i provided
      cases done
      rw [if_pos provided]
      rfl
    · rename_i defines
      cases done
      rw [if_neg defines]
      rfl

/-- A control word that does not stand for an inclusion changes the scope by what it defines. -/
theorem scope_obey {word : Text} (unfollowed : isInclusionWord word = false)
    (done : branch.obey settings site nested token word = .ok after) :
    after.shared.scope =
      (branch.defines? word).elim branch.shared.scope branch.shared.scope.define := by
  unfold obey at done
  unfold defines?
  by_cases marks : Scan.isDefinitionMark word = true
  · rw [if_pos marks] at done ⊢
    cases done
    unfold defineMarked
    dsimp only
    cases (branch.attempt (Scan.marked branch.shared.scope (word = "global"))).1 <;> rfl
  rw [if_neg marks] at done ⊢
  cases defines : Scan.definer? word with
  | some isGlobal =>
    rw [defines] at done
    cases done
    exact scope_defineBy ..
  | none =>
    rw [defines] at done
    dsimp only at done ⊢
    by_cases binding : word = "let"
    · rw [if_pos binding] at done ⊢
      cases done
      exact scope_defineBy ..
    rw [if_neg binding] at done ⊢
    by_cases newCommand : isNewCommandWord word = true
    · rw [if_pos newCommand] at done ⊢
      exact scope_defineNewCommand done
    rw [if_neg newCommand] at done ⊢
    rw [if_neg (by simp [unfollowed])] at done
    split at done
    · cases done
      unfold beginEnvironment
      dsimp only
      split <;> rfl
    · cases done
      rfl

theorem defines?_of_isInclusionWord {word : Text} (includes : isInclusionWord word = true) :
    branch.defines? word = none := by
  have spelled : word = "input" ∨ word = "include" ∨ word = "subfile" := by
    simpa [isInclusionWord, or_assoc] using includes
  rcases spelled with rfl | rfl | rfl <;> rfl

theorem scope_locate {name : Text} {shared later : Shared}
    {outcome : Except Problem (FileEntry × Document)}
    (located : locate settings site name shared = .ok (outcome, later)) :
    later.scope = shared.scope := by
  unfold locate at located
  split at located
  · cases located
  · cases located
    rfl
  · dsimp only at located
    split at located
    · cases located
      rfl
    · split at located <;> cases located <;> rfl

variable {directive : Scan.Directive}

/-- A directive that is followed to a file opens its document. -/
theorem opens_of_located {document : Document} {entry : FileEntry} {later : Shared}
    (follows : branch.follows? token = some directive)
    (located : locate settings site directive.name branch.shared =
      .ok (.ok (entry, document), later)) :
    branch.opens settings site token = some (document, site.ancestors ++ [entry.id], later) := by
  obtain ⟨running, code, unbound, found, word, kind, includes⟩ := follows?_eq_some_iff.mp follows
  have same := shared_attempt branch Scan.quiet_inclusion
  unfold Branch.opens
  rw [if_neg (by simp [running, code, unbound]), kind]
  dsimp only
  rw [if_pos includes, found, same]
  dsimp only [Option.bind_some]
  rw [located]

/-- A directive that opens no document leaves the scope as it is. -/
theorem scope_of_follows (follows : branch.follows? token = some directive)
    (unopened : nested = none ∨ branch.opens settings site token = none)
    (done : branch.step settings site nested token = .ok after) :
    after.shared.scope = branch.shared.scope := by
  rw [step_of_load follows] at done
  cases nested with
  | none =>
    cases done
    rfl
  | some reader =>
    have unopened : branch.opens settings site token = none := by simpa using unopened
    rcases located : locate settings site directive.name branch.shared with
      abort | ⟨problem | ⟨entry, document⟩, later⟩
    · rw [load_of_failed located] at done
      cases done
    · rw [load_of_refused located] at done
      have same := scope_locate located
      cases done
      exact same
    · cases (opens_of_located follows located).symm.trans unopened

/-- What becomes of the scope where a document is opened, its expansion settles. -/
theorem shared_of_opens {reader : Document → List FileId → Shared →
    Except Abort (Document × Shared)}
    {document : Document} {ancestors : List FileId} {state : Shared}
    (opened : branch.opens settings site token = some (document, ancestors, state))
    (done : branch.step settings site (some reader) token = .ok after) :
    state.scope = branch.shared.scope ∧
      ∃ expanded, reader document ancestors state = .ok (expanded, after.shared) := by
  obtain ⟨directive, entry, follows, located, rfl⟩ := located_of_opens opened
  refine ⟨scope_locate located, ?_⟩
  rw [step_of_load follows, load_of_located located] at done
  cases expansion : reader document (site.ancestors ++ [entry.id]) state with
  | error abort =>
    rw [expansion] at done
    cases done
  | ok result =>
    rw [expansion] at done
    cases done
    exact ⟨result.1, rfl⟩

theorem scope_passVerbatim (name : Text) :
    (branch.passVerbatim name token).shared.scope = branch.shared.scope := by
  unfold passVerbatim
  split <;> rfl

/-- A closing brace closes a layer that the branch itself opened, if there is one. -/
theorem evolves_endGroup {base : Nat} {scope : Scope} (above : base ≤ scope.depth) :
    Layered.Evolves base scope (if base < scope.depth then some .closed else none).toList
      (if base < scope.depth then scope.pop else scope) := by
  split
  · exact (Layered.Evolves.start above).closed ‹_›
  · exact .start above

/-- What a token that is read as code and is no macro changes in the scope. -/
theorem evolves_code (above : site.baseDepth ≤ branch.shared.scope.depth)
    (running : branch.aborted = false) (code : branch.verbatim = none)
    (unbound : branch.meaning? token = none) (unfollowed : branch.follows? token = none)
    (done : branch.step settings site nested token = .ok after) :
    Layered.Evolves site.baseDepth branch.shared.scope (branch.change? site token).toList
      after.shared.scope := by
  unfold step at done
  unfold change?
  rw [if_neg (by simp [running]), code, unbound] at done
  rw [if_neg (by simp [running, code, unbound])]
  dsimp only at done
  cases kind : token.kind with
  | beginGroup glyph =>
    rw [kind] at done
    cases done
    exact (Layered.Evolves.start above).opened
  | endGroup glyph =>
    rw [kind] at done
    cases done
    exact evolves_endGroup above
  | controlWord word =>
    rw [kind] at done
    dsimp only at done ⊢
    by_cases includes : isInclusionWord word = true
    · have misshapen : (branch.attempt Scan.inclusion).1 = none := by
        simpa [follows?, running, code, unbound, kind, includes] using unfollowed
      rw [obey_of_isInclusionWord includes, followDirective] at done
      dsimp only at done
      rw [misshapen] at done
      cases done
      rw [defines?_of_isInclusionWord includes]
      exact .start above
    · rw [scope_obey (by simpa using includes) done]
      exact evolves_defined above _
  | _ =>
    rw [kind] at done
    cases done
    exact .start above

/-- What a step that opens no document changes in the scope. -/
theorem evolves_step (above : site.baseDepth ≤ branch.shared.scope.depth)
    (unopened : nested = none ∨ branch.opens settings site token = none)
    (done : branch.step settings site nested token = .ok after) :
    Layered.Evolves site.baseDepth branch.shared.scope (branch.change? site token).toList
      after.shared.scope := by
  cases follows : branch.follows? token with
  | some directive =>
    obtain ⟨running, code, unbound, -, word, kind, includes⟩ := follows?_eq_some_iff.mp follows
    have nothing : branch.change? site token = none := by
      simp [change?, running, code, unbound, kind, defines?_of_isInclusionWord includes]
    rw [nothing, scope_of_follows follows unopened done]
    exact .start above
  | none =>
    cases aborted : branch.aborted with
    | true =>
      rw [step, if_pos aborted] at done
      rw [change?, if_pos (by simp [aborted])]
      cases done
      exact .start above
    | false =>
      cases verbatim : branch.verbatim with
      | some name =>
        rw [step, if_neg (by simp [aborted]), verbatim] at done
        rw [change?, if_pos (by simp [verbatim])]
        cases done
        rw [scope_passVerbatim]
        exact .start above
      | none =>
        cases meaning : branch.meaning? token with
        | some definition =>
          rw [step_of_meaning ⟨aborted, verbatim⟩ meaning] at done
          rw [change?, if_pos (by simp [meaning]), scope_invoke done]
          exact .start above
        | none => exact evolves_code above aborted verbatim meaning follows done

/-- The histories that are kept of included documents tell what becomes of the scope, and that it
comes back to its depth. -/
inductive Records : Nested → NestedHistory → Prop where
  | none : Records none none
  | some {reader : Document → List FileId → Shared → Except Abort (Document × Shared)}
      {historyOf : Document → List FileId → Shared → List Scope.Change}
      (faithful : ∀ document ancestors shared expanded later,
        reader document ancestors shared = .ok (expanded, later) →
        later.scope.depth = shared.scope.depth ∧
          Layered.Evolves shared.scope.depth shared.scope (historyOf document ancestors shared)
            later.scope) :
      Records (some reader) (some historyOf)

/-- A step changes one thing in the scope at most, unless it opens a document, which closes no
layer that is open before it. -/
theorem evolves_once_or_inside (records : Records nested inside)
    (above : site.baseDepth ≤ branch.shared.scope.depth)
    (done : branch.step settings site nested token = .ok after) :
    ((changes settings site inside branch token).length ≤ 1 ∧
      Layered.Evolves site.baseDepth branch.shared.scope (changes settings site inside branch token)
        after.shared.scope) ∨
    Layered.Evolves branch.shared.scope.depth branch.shared.scope
      (changes settings site inside branch token) after.shared.scope := by
  have once : (branch.change? site token).toList.length ≤ 1 := by
    cases branch.change? site token <;> simp
  unfold changes
  cases records with
  | none => exact .inl ⟨once, evolves_step above (.inl rfl) done⟩
  | @some reader historyOf faithful =>
    cases opened : branch.opens settings site token with
    | none => exact .inl ⟨once, evolves_step above (.inr opened) done⟩
    | some opening =>
      obtain ⟨document, ancestors, state⟩ := opening
      obtain ⟨same, expanded, expansion⟩ := shared_of_opens opened done
      obtain ⟨-, evolves⟩ := faithful document ancestors state expanded after.shared expansion
      rw [same] at evolves
      exact .inr evolves

/-- **What a step changes in the scope**, with what is changed in the document that it opens. -/
theorem evolves_changes (records : Records nested inside)
    (above : site.baseDepth ≤ branch.shared.scope.depth)
    (done : branch.step settings site nested token = .ok after) :
    Layered.Evolves site.baseDepth branch.shared.scope (changes settings site inside branch token)
      after.shared.scope := by
  rcases evolves_once_or_inside records above done with ⟨-, once⟩ | inner
  · exact once
  · exact (Layered.Evolves.start above).trans above inner

/-- What is changed up to a point of a run. -/
theorem Runs.exists_evolves {first : Branch} {called stopped : Nat}
    (records : Records nested inside) (above : site.baseDepth ≤ first.shared.scope.depth)
    (runs : Runs settings site nested first branch called stopped) :
    ∃ past, history settings site nested inside first =
        past ++ history settings site nested inside branch ∧
      Layered.Evolves site.baseDepth first.shared.scope past branch.shared.scope := by
  induction runs with
  | start => exact ⟨[], rfl, .start above⟩
  | @read branch after stream token called stopped before found done ih =>
    obtain ⟨past, same, evolves⟩ := ih
    have above : site.baseDepth ≤ ({ branch with stream } : Branch).shared.scope.depth :=
      evolves.depth_le
    have step := evolves_changes records above done
    refine ⟨past ++ changes settings site inside { branch with stream } token, ?_,
      evolves.trans (Nat.le_refl _) step⟩
    rw [same, history_of_found found done, List.append_assoc]

/-- What is changed in a run that comes to its end. -/
theorem evolves_run {last : Branch} (records : Records nested inside)
    (above : site.baseDepth ≤ branch.shared.scope.depth)
    (ran : run settings site nested branch = .ok last) :
    Layered.Evolves site.baseDepth branch.shared.scope
      (history settings site nested inside branch) last.shared.scope := by
  obtain ⟨final, called, stopped, runs, ends⟩ := exists_ends settings site nested branch
  obtain ⟨past, same, evolves⟩ := runs.exists_evolves records above
  rw [ran] at ends
  cases ends with
  | finished finished => rwa [same, history_of_finished finished, List.append_nil]

end Branch

/-- The changes of an expansion in a branch of its own. Groups that are left open are closed at
its end. -/
def historyWith (settings : Settings) (nested : Nested) (inside : NestedHistory)
    (document : Document) (ancestors : List FileId) (shared : Shared) : List Scope.Change :=
  let site := siteOf document ancestors shared
  let start := Branch.start document shared
  let closings :=
    match start.run settings site nested with
    | .ok last => last.shared.scope.depth - site.baseDepth
    | .error _ => 0
  start.history settings site nested inside ++ List.replicate closings .closed

/-- The changes that included documents make, where files may be included inside each other up to
a depth. -/
def historyIncluded (settings : Settings) : (room : Nat) → NestedHistory
  | 0 => none
  | room + 1 =>
    some (historyWith settings (expandIncluded settings room) (historyIncluded settings room))

open Branch in
theorem evolves_expandWith {settings : Settings} {nested : Nested} {inside : NestedHistory}
    (records : Records nested inside) {document expanded : Document} {ancestors : List FileId}
    {shared later : Shared}
    (done : expandWith settings nested document ancestors shared = .ok (expanded, later)) :
    later.scope.depth = shared.scope.depth ∧
      Layered.Evolves shared.scope.depth shared.scope
        (historyWith settings nested inside document ancestors shared) later.scope := by
  obtain ⟨last, ran, -, rfl⟩ := exists_run_of_expandWith done
  have above : (siteOf document ancestors shared).baseDepth ≤
      (start document shared).shared.scope.depth := Nat.le_refl _
  have evolves := evolves_run records above ran
  refine ⟨Layered.depth_popTo evolves.depth_le, ?_⟩
  unfold historyWith
  dsimp only
  rw [ran]
  exact evolves.popTo

theorem records_expandIncluded (settings : Settings) (room : Nat) :
    Branch.Records (expandIncluded settings room) (historyIncluded settings room) := by
  induction room with
  | zero => exact .none
  | succ room ih => exact .some fun _ _ _ _ _ done => evolves_expandWith ih done

/-- The changes of included documents that are open to a branch at a depth below the main
document. -/
def historyAt (settings : Settings) (depth : Nat) : NestedHistory :=
  historyIncluded settings (settings.limits.maxIncludeDepth.toNat - depth)

end Expansion

end TexSource
