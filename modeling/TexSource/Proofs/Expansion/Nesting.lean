import TexSource.Proofs.Expansion.Runs

/-!
# Branches inside each other

A branch has another document expanded only where it opens one (`Branch.step_congr`). Every
branch but the main one is opened in another (`Nests`), which it can be only where more
files may be included, so that branches nest within the limit on included files
(`Nests.depth_le`).
-/

namespace TexSource

namespace Expansion

namespace Branch

variable {settings : Settings} {site : Site} {nested : Nested}

/-- What a branch opens at a token: an included document, the files around it and itself,
and what its branch starts from. -/
def opens (settings : Settings) (site : Site) (branch : Branch) (token : Token) :
    Option (Document × List FileId × Shared) :=
  if branch.aborted || branch.verbatim.isSome || (branch.meaning? token).isSome then none
  else
    match token.kind with
    | .controlWord word =>
      if isInclusionWord word then
        let (directive, _, branch) := branch.attempt Scan.inclusion
        directive.bind fun directive =>
          match locate settings site directive.name branch.shared with
          | .ok (.ok (entry, document), shared) =>
            some (document, site.ancestors ++ [entry.id], shared)
          | _ => none
      else none
    | _ => none

theorem obey_of_isInclusionWord {branch : Branch} {token : Token} {word : Text}
    (includes : isInclusionWord word = true) :
    branch.obey settings site nested token word =
      branch.followDirective settings site nested token := by
  have spelled : word = "input" ∨ word = "include" ∨ word = "subfile" := by
    simpa [isInclusionWord, or_assoc] using includes
  rcases spelled with rfl | rfl | rfl <;> rfl

/-- The words that define a new command. -/
theorem newCommandWords {word : Text} (defines : isNewCommandWord word = true) :
    word = "newcommand" ∨ word = "renewcommand" ∨ word = "providecommand" ∨
      word = "DeclareRobustCommand" := by
  simpa [isNewCommandWord, or_assoc] using defines

theorem obey_of_isNewCommandWord {branch : Branch} {token : Token} {word : Text}
    (defines : isNewCommandWord word = true) :
    branch.obey settings site nested token word = branch.defineNewCommand token word := by
  rcases newCommandWords defines with rfl | rfl | rfl | rfl <;> rfl

variable {reader other : Document → List FileId → Shared → Except Abort (Document × Shared)}

theorem followDirective_congr {branch : Branch} {token : Token}
    (agree : ∀ directive entry document shared,
      (branch.attempt Scan.inclusion).1 = some directive →
      locate settings site directive.name (branch.attempt Scan.inclusion).2.2.shared =
        .ok (.ok (entry, document), shared) →
      reader document (site.ancestors ++ [entry.id]) shared =
        other document (site.ancestors ++ [entry.id]) shared) :
    branch.followDirective settings site (some reader) token =
      branch.followDirective settings site (some other) token := by
  unfold followDirective
  simp only
  cases found : (branch.attempt Scan.inclusion).1 with
  | none => rfl
  | some directive =>
    have loaded : load settings site (some reader) directive.name token.span
          (branch.attempt Scan.inclusion).2.2.shared =
        load settings site (some other) directive.name token.span
          (branch.attempt Scan.inclusion).2.2.shared := by
      unfold load
      simp only
      cases located : locate settings site directive.name
          (branch.attempt Scan.inclusion).2.2.shared with
      | error abort => rfl
      | ok result =>
        rcases result with ⟨_ | ⟨entry, document⟩, shared⟩
        · rfl
        · have same := agree directive entry document shared found located
          simp only [bind, Except.bind, same]
    dsimp only
    rw [loaded]

/-- **A branch has no other document expanded than the one it opens.** -/
theorem step_congr {branch : Branch} {token : Token}
    (agree : ∀ document ancestors shared,
      branch.opens settings site token = some (document, ancestors, shared) →
      reader document ancestors shared = other document ancestors shared) :
    step settings site (some reader) branch token =
      step settings site (some other) branch token := by
  unfold step
  by_cases aborted : branch.aborted = true
  · rw [if_pos aborted, if_pos aborted]
  · rw [if_neg aborted, if_neg aborted]
    cases verbatim : branch.verbatim with
    | some name => rfl
    | none =>
      cases meaning : branch.meaning? token with
      | some definition => rfl
      | none =>
        cases kind : token.kind with
        | controlWord word =>
          dsimp only
          by_cases includes : isInclusionWord word = true
          · rw [obey_of_isInclusionWord includes, obey_of_isInclusionWord includes]
            apply followDirective_congr
            intro directive entry document shared found located
            refine agree document _ shared ?_
            simp [opens, aborted, verbatim, meaning, kind, includes, found, located]
          · simp only [obey, includes]
            rfl
        | _ => rfl

end Branch

/-- The expansion of included documents that is open to a branch at a depth below the main
document. -/
def nestedAt (settings : Settings) (depth : Nat) : Nested :=
  expandIncluded settings (settings.limits.maxIncludeDepth.toNat - depth)

theorem nestedAt_of_isSome {settings : Settings} {depth : Nat}
    (allowed : (nestedAt settings depth).isSome = true) :
    depth < settings.limits.maxIncludeDepth.toNat ∧
      nestedAt settings depth = some (expandWith settings (nestedAt settings (depth + 1))) := by
  unfold nestedAt at allowed ⊢
  cases room : settings.limits.maxIncludeDepth.toNat - depth with
  | zero =>
    rw [room] at allowed
    cases allowed
  | succ room' =>
    have less : settings.limits.maxIncludeDepth.toNat - (depth + 1) = room' := by omega
    rw [less]
    exact ⟨by omega, rfl⟩

/-- The branches of an expansion: the main one, and those of the documents that are opened
in others, each with its depth below the main document, the files around it and itself,
and what it starts from. -/
inductive Nests (settings : Settings) (main : Document) (shared : Shared) :
    (depth : Nat) → Document → List FileId → Shared → Prop where
  | main : Nests settings main shared 0 main [main.fileId] shared
  | opened {depth : Nat} {document included : Document} {ancestors inner : List FileId}
      {start state : Shared} {branch : Branch} {stream : Stream} {token : Token}
      {called stopped : Nat}
      (outer : Nests settings main shared depth document ancestors start)
      (runs : Branch.Runs settings (siteOf document ancestors start) (nestedAt settings depth)
        (.start document start) branch called stopped)
      (found : branch.stream.next = (some token, stream))
      (allowed : (nestedAt settings depth).isSome = true)
      (opens : Branch.opens settings (siteOf document ancestors start) { branch with stream }
        token = some (included, inner, state)) :
      Nests settings main shared (depth + 1) included inner state

/-- The files around an opened document are those around the one that opens it, and
itself. -/
theorem Branch.length_of_opens {settings : Settings} {site : Site} {branch : Branch}
    {token : Token} {document : Document} {ancestors : List FileId} {shared : Shared}
    (opens : branch.opens settings site token = some (document, ancestors, shared)) :
    ancestors.length = site.ancestors.length + 1 := by
  unfold Branch.opens at opens
  split at opens
  · cases opens
  · split at opens
    · split at opens
      · obtain ⟨directive, _, located⟩ := Option.bind_eq_some_iff.mp opens
        split at located
        · cases located
          simp
        · cases located
      · cases opens
    · cases opens

/-- **Branches nest within the limit on included files.** -/
theorem Nests.depth_le {settings : Settings} {main document : Document} {shared start : Shared}
    {depth : Nat} {ancestors : List FileId}
    (nests : Nests settings main shared depth document ancestors start) :
    depth ≤ settings.limits.maxIncludeDepth.toNat ∧ ancestors.length = depth + 1 := by
  induction nests with
  | main => exact ⟨Nat.zero_le _, rfl⟩
  | opened outer runs found allowed opens shallow =>
    obtain ⟨below, _⟩ := nestedAt_of_isSome allowed
    exact ⟨below, (Branch.length_of_opens opens).trans (congrArg Nat.succ shallow.2)⟩

end Expansion

end TexSource
