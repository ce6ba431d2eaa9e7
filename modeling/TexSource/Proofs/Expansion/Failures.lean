import TexSource.FileSystem.Snapshot
import TexSource.Proofs.Expansion.Heredity
import TexSource.Proofs.Expansion.Nesting
import TexSource.Proofs.Lexer.Tiling

/-!
# How an expansion fails

A step fails for a reason of its own (`Branch.failure?`) or because the document that it opens
cannot be expanded. So an expansion fails exactly where one of its branches meets a token that
fails (`outcome_eq_error_iff`), and with limits that are there the reasons are few (`Failure`):
digits that are no number, and a file system that does not tell whether there is a file.
-/

namespace TexSource

namespace Lexer

/-- A text with an assignment of category codes in which a number has too many digits. -/
def Overlong (source : Text) : Prop :=
  ∃ before directive ahead table, source = Token.rawText (before ++ [directive]) ++ ahead ∧
    directive.isControlWord "catcode" = true ∧ OverlongNumber table ahead

theorem overlong_of_lex {source : Text} {table : Catcode.Table} {fileId : FileId}
    {failure : NumberError} (failed : lex source table fileId = .error failure) :
    Overlong source := by
  rcases outcome_lex source table fileId with ⟨_, _, read, _⟩ | ⟨_, _, _, outcome⟩
  · cases failed.symm.trans read
  · cases outcome with
    | @stopped content directive reached ahead _ later tiles split isCatcode overlong =>
      refine ⟨content, directive, ahead, later, ?_, isCatcode, overlong⟩
      rw [split, tiles.reached_eq, List.nil_append]

end Lexer

theorem Document.overlong_of_parse {source : Text} {table : Catcode.Table}
    {commands : CommandTable} {fileId : FileId} {failure : NumberError}
    (failed : Document.parse source table commands fileId = .error failure) :
    Lexer.Overlong source := by
  unfold Document.parse at failed
  cases read : lex source table fileId with
  | error error => exact Lexer.overlong_of_lex read
  | ok result =>
    rw [read] at failed
    cases failed

namespace Expansion

/-- A text of digits that is no number. -/
def Unread (error : NumberError) : Prop :=
  ∃ written : Text, written ≠ [] ∧ written.all Glyph.isDigit = true ∧
    readNumber written = .error error

/-- Why an expansion fails. -/
inductive Failure (settings : Settings) : DocumentError → Prop where
  | missingLimit (missing : settings.limits.maxSteps = none ∨ settings.limits.maxDepth = none) :
      Failure settings .missingLimit
  /-- The number of arguments of a new command is written in digits, and is no number. -/
  | arity {error : NumberError} (unread : Unread error) : Failure settings (.number error)
  /-- The file system does not tell whether a path leads to a file. -/
  | unknownFile {path : Path} {error : FileError}
      (refused : settings.files.isFile path = .error error) : Failure settings (.file error)
  /-- A number in an included file has too many digits. -/
  | overlong {table : FileTable} {id : FileId} {contents : List UInt8} {error : NumberError}
      (read : (table.read settings.files id).1 = .ok contents)
      (long : Lexer.Overlong (Text.decode contents)) : Failure settings (.number error)

namespace Scan

theorem hands_unread_argumentList :
    Hands (fun _ => True) argumentList fun outcome =>
      ∀ error, outcome = .error error → Unread error := by
  apply Hands.bind (hands_nextSignificant _)
  intro first _
  split
  · apply Hands.bind hands_bracket
    intro digits _
    dsimp only
    split
    · rename_i written
      rw [Bool.and_eq_true, decide_eq_true_eq] at written
      split
      · rename_i unread
        apply Hands.pure
        intro error same
        cases same
        exact ⟨_, written.1, written.2, unread⟩
      · apply Hands.bind (hands_nextSignificant _)
        intro second _
        split
        · apply Hands.bind hands_bracket
          intro default _
          split
          · exact .pure fun _ same => nomatch same
          · exact .bind (hands_nextSignificant _) fun _ _ => .pure fun _ same => nomatch same
        · exact .pure fun _ same => nomatch same
    · exact .pure fun _ same => nomatch same
  · exact .pure fun _ same => nomatch same

/-- A new command fails only where the number of its arguments does. -/
theorem hands_unread_newCommand :
    Hands (fun _ => True) newCommand fun outcome =>
      ∀ error, outcome = .error error → Unread error := by
  apply Hands.bind hands_newCommandName
  intro name _
  cases name with
  | none => exact .pure fun _ same => nomatch same
  | some name =>
    apply Hands.bind hands_unread_argumentList
    intro list readList
    split
    · rename_i unread
      apply Hands.pure
      intro error same
      cases same
      exact readList _ rfl
    · exact .pure fun _ same => nomatch same
    · apply Hands.bind (hands_newCommandBody fun _ _ => trivial)
      intro body _
      exact .pure fun _ same => nomatch same

end Scan

theorem refused_of_firstFile {files : FileSystem} {paths : List Path} {error : FileError}
    (failed : FileTable.firstFile files paths = .error error) :
    ∃ path, files.isFile path = .error error := by
  induction paths with
  | nil => cases failed
  | cons path rest ih =>
    rw [FileTable.firstFile] at failed
    cases looked : files.isFile path with
    | error refused =>
      rw [looked] at failed
      cases failed
      exact ⟨path, looked⟩
    | ok isFile =>
      rw [looked] at failed
      cases isFile with
      | true => cases failed
      | false => exact ih failed

theorem refused_of_resolve {files : FileSystem} {table : FileTable} {name : Text}
    {ancestors : List FileId} {extensions : List Text} {error : FileError}
    (failed : table.resolve files name ancestors extensions = .error error) :
    ∃ path, files.isFile path = .error error := by
  unfold FileTable.resolve at failed
  dsimp only at failed
  split at failed <;> exact refused_of_firstFile failed

/-- A document of a file is refused for its contents only if a number in them is too long. -/
theorem overlong_of_document {files : FileSystem} {table : FileTable} {id : FileId}
    {error : DocumentError} (failed : (table.document files id).1 = .error error)
    (read : ∀ unreadable, error ≠ .file unreadable) :
    ∃ number contents, error = .number number ∧ (table.read files id).1 = .ok contents ∧
      Lexer.Overlong (Text.decode contents) := by
  unfold FileTable.document at failed
  dsimp only at failed
  split at failed
  · cases failed
  · split at failed
    · cases failed
      exact absurd rfl (read _)
    · rename_i contents table found
      split at failed
      · rename_i number refused
        cases failed
        exact ⟨number, contents, rfl, by rw [found], Document.overlong_of_parse refused⟩
      · cases failed

theorem missing_of_admission {limits : Limits} {branch : Branch}
    (missing : branch.admission limits = none) :
    limits.maxSteps = none ∨ limits.maxDepth = none := by
  unfold Branch.admission at missing
  cases steps : limits.maxSteps with
  | none => exact .inl rfl
  | some maxSteps =>
    cases depth : limits.maxDepth with
    | none => exact .inr rfl
    | some maxDepth =>
      rw [steps, depth] at missing
      dsimp only at missing
      split at missing
      · cases missing
      · split at missing <;> cases missing

namespace Branch

variable {settings : Settings} {site : Site} {nested : Nested}

theorem failure_of_locate {name : Text} {shared : Shared} {abort : Abort}
    (failed : locate settings site name shared = .error abort) :
    Failure settings abort.cause := by
  unfold locate at failed
  split at failed
  · rename_i error refused
    cases failed
    obtain ⟨path, refused⟩ := refused_of_resolve refused
    exact .unknownFile refused
  · cases failed
  · dsimp only at failed
    split at failed
    · cases failed
    · split at failed
      · cases failed
      · rename_i error table readable read
        cases failed
        have unreadable : ∀ refused, error ≠ .file refused := by
          rintro refused rfl
          exact readable refused rfl
        obtain ⟨number, contents, rfl, found, long⟩ :=
          overlong_of_document (congrArg Prod.fst read) unreadable
        exact .overlong found long
      · cases failed

/-- How a branch fails at a token, where the document that it opens there is not to blame. -/
def failure? (settings : Settings) (site : Site) (includes : Bool) (branch : Branch)
    (token : Token) : Option Abort :=
  if branch.aborted || branch.verbatim.isSome then none
  else
    match branch.meaning? token with
    | some _ =>
      if branch.admission settings.limits = none then some ⟨.missingLimit, branch.shared⟩ else none
    | none =>
      match token.kind with
      | .controlWord word =>
        if isNewCommandWord word then
          let (outcome, _, branch) := branch.attempt Scan.newCommand
          match outcome with
          | .error error => some ⟨.number error, branch.shared⟩
          | .ok _ => none
        else if isInclusionWord word && includes then
          let (directive, _, branch) := branch.attempt Scan.inclusion
          directive.bind fun directive =>
            match locate settings site directive.name branch.shared with
            | .error abort => some abort
            | .ok _ => none
        else none
      | _ => none

/-- The reasons of a branch are among those of an expansion. -/
theorem failure_of_failure? {includes : Bool} {branch : Branch} {token : Token} {abort : Abort}
    (fails : branch.failure? settings site includes token = some abort) :
    Failure settings abort.cause := by
  unfold failure? at fails
  split at fails
  · cases fails
  · split at fails
    · split at fails
      · rename_i missing
        cases fails
        exact .missingLimit (missing_of_admission missing)
      · cases fails
    · split at fails
      · split at fails
        · dsimp only at fails
          split at fails
          · rename_i error unread
            cases fails
            exact .arity ((Scan.hands_unread_newCommand.hand _
              ⟨fun _ _ => trivial, fun _ _ => trivial⟩).1 error unread)
          · cases fails
        · split at fails
          · obtain ⟨directive, _, located⟩ := Option.bind_eq_some_iff.mp fails
            split at located
            · rename_i refused
              cases located
              exact failure_of_locate refused
            · cases located
          · cases fails
      · cases fails

variable (settings site nested) in
/-- The other control words are always obeyed. -/
theorem exists_obey {word : Text} (defines : isNewCommandWord word = false)
    (includes : isInclusionWord word = false) (branch : Branch) (token : Token) :
    ∃ after, branch.obey settings site nested token word = .ok after := by
  simp only [obey, defines, includes, Bool.false_eq_true, if_false]
  split
  · exact ⟨_, rfl⟩
  · split
    · exact ⟨_, rfl⟩
    · split
      · exact ⟨_, rfl⟩
      · split <;> exact ⟨_, rfl⟩

theorem isInclusionWord_of_isNewCommandWord {word : Text} (defines : isNewCommandWord word = true) :
    isInclusionWord word = false := by
  have spelled : word = "newcommand" ∨ word = "renewcommand" ∨ word = "providecommand" ∨
      word = "DeclareRobustCommand" := by
    simpa [isNewCommandWord, or_assoc] using defines
  rcases spelled with rfl | rfl | rfl | rfl <;> decide

theorem invoke_error_iff {limits : Limits} {branch : Branch} {use : Token} {definition : Macro}
    {abort : Abort} :
    branch.invoke limits use definition = .error abort ↔
      branch.admission limits = none ∧ abort = ⟨.missingLimit, branch.shared⟩ := by
  unfold invoke
  split
  · rename_i missing
    simp [missing, eq_comm]
  · rename_i reached
    simp [reached]
  · rename_i exceeded
    simp [exceeded]
  · rename_i admitted
    simp [admitted]

theorem defineNewCommand_error_iff {branch : Branch} {token : Token} {word : Text}
    {abort : Abort} :
    branch.defineNewCommand token word = .error abort ↔
      ∃ error, (branch.attempt Scan.newCommand).1 = .error error ∧
        abort = ⟨.number error, (branch.attempt Scan.newCommand).2.2.shared⟩ := by
  unfold defineNewCommand
  simp only
  split
  · rename_i error unread
    simp [unread, eq_comm]
  · rename_i given
    simp [given]
  · rename_i definition found
    split <;> simp [found]

theorem followDirective_error_iff {branch : Branch} {token : Token} {abort : Abort} :
    branch.followDirective settings site nested token = .error abort ↔
      ∃ directive reader, (branch.attempt Scan.inclusion).1 = some directive ∧
        nested = some reader ∧
        (locate settings site directive.name (branch.attempt Scan.inclusion).2.2.shared =
            .error abort ∨
          ∃ entry document shared,
            locate settings site directive.name (branch.attempt Scan.inclusion).2.2.shared =
              .ok (.ok (entry, document), shared) ∧
            reader document (site.ancestors ++ [entry.id]) shared = .error abort) := by
  unfold followDirective
  simp only
  cases directed : (branch.attempt Scan.inclusion).1 with
  | none => simp
  | some directive =>
    cases nested with
    | none => simp [load]
    | some reader =>
      cases located : locate settings site directive.name
          (branch.attempt Scan.inclusion).2.2.shared with
      | error failed => simp [load, located, bind, Except.bind]
      | ok result =>
        rcases result with ⟨_ | ⟨entry, document⟩, shared⟩
        · simp [load, located, bind, Except.bind, pure, Except.pure]
        · cases read : reader document (site.ancestors ++ [entry.id]) shared with
          | error failed => simp [load, located, bind, Except.bind, read]
          | ok expanded => simp [load, located, bind, Except.bind, pure, Except.pure, read]

/-- **A step fails for a reason of its own, or because of the document that it opens.** -/
theorem step_error_iff {branch : Branch} {token : Token} {abort : Abort} :
    step settings site nested branch token = .error abort ↔
      branch.failure? settings site nested.isSome token = some abort ∨
        ∃ reader document ancestors shared, nested = some reader ∧
          branch.opens settings site token = some (document, ancestors, shared) ∧
          reader document ancestors shared = .error abort := by
  unfold step failure? opens
  by_cases aborted : branch.aborted = true
  · simp [aborted]
  cases verbatim : branch.verbatim with
  | some name => simp [aborted]
  | none =>
    cases meaning : branch.meaning? token with
    | some definition => simp [aborted, invoke_error_iff, eq_comm (b := abort)]
    | none =>
      cases kind : token.kind with
      | controlWord word =>
        simp only [aborted, Option.isSome_none, Bool.or_self, Bool.false_eq_true, if_false]
        by_cases defines : isNewCommandWord word = true
        · have other := isInclusionWord_of_isNewCommandWord defines
          rw [obey_of_isNewCommandWord defines, defineNewCommand_error_iff]
          cases outcome : (branch.attempt Scan.newCommand).1 with
          | error error => simp [defines, other, eq_comm (b := abort)]
          | ok definition => simp [defines, other]
        by_cases includes : isInclusionWord word = true
        · rw [obey_of_isInclusionWord includes, followDirective_error_iff]
          cases directed : (branch.attempt Scan.inclusion).1 with
          | none => simp [defines, includes]
          | some directive =>
            cases nested with
            | none => simp [defines, includes]
            | some reader =>
              cases located : locate settings site directive.name
                  (branch.attempt Scan.inclusion).2.2.shared with
              | error failed => simp [defines, includes, located]
              | ok result =>
                rcases result with ⟨_ | ⟨entry, document⟩, shared⟩
                · simp [defines, includes, located]
                · simp [defines, includes, located, and_assoc]
        · obtain ⟨after, done⟩ := exists_obey settings site nested (by simpa using defines)
            (by simpa using includes) branch token
          simp [done, defines, includes]
      | _ => simp [aborted]

/-- A run fails where a step on its way fails. -/
theorem run_error_iff {first : Branch} {abort : Abort} :
    run settings site nested first = .error abort ↔
      ∃ branch called stopped stream token, Runs settings site nested first branch called stopped ∧
        branch.stream.next = (some token, stream) ∧
        step settings site nested { branch with stream } token = .error abort := by
  constructor
  · intro failed
    obtain ⟨last, called, stopped, runs, ends⟩ := exists_ends settings site nested first
    rw [failed] at ends
    cases ends with
    | failed found step => exact ⟨last, called, stopped, _, _, runs, found, step⟩
  · rintro ⟨branch, called, stopped, stream, token, runs, found, step⟩
    rw [runs.run_eq, run_of_failed found step]

end Branch

variable {settings : Settings}

theorem expandWith_error_iff {nested : Nested} {document : Document} {ancestors : List FileId}
    {shared : Shared} {abort : Abort} :
    expandWith settings nested document ancestors shared = .error abort ↔
      (Branch.start document shared).run settings (siteOf document ancestors shared) nested =
        .error abort := by
  unfold expandWith
  cases ran : (Branch.start document shared).run settings (siteOf document ancestors shared)
      nested with
  | error failed => simp [ran, bind, Except.bind]
  | ok branch => simp [ran, bind, Except.bind, pure, Except.pure]

/-- One of the branches of an expansion meets a token at which it fails. -/
inductive FailsAt (settings : Settings) (main : Document) (shared : Shared) (abort : Abort) :
    Prop where
  | meets {depth : Nat} {document : Document} {ancestors : List FileId} {start : Shared}
      {branch : Branch} {stream : Stream} {token : Token} {called stopped : Nat}
      (nests : Nests settings main shared depth document ancestors start)
      (runs : Branch.Runs settings (siteOf document ancestors start) (nestedAt settings depth)
        (.start document start) branch called stopped)
      (found : branch.stream.next = (some token, stream))
      (fails : Branch.failure? settings (siteOf document ancestors start)
        (nestedAt settings depth).isSome { branch with stream } token = some abort)

section

variable {main document : Document} {shared start : Shared} {depth : Nat}
  {ancestors : List FileId} {abort : Abort}

/-- What a branch fails by, it or a branch below it meets. -/
theorem failsAt_of_error (nests : Nests settings main shared depth document ancestors start)
    (failed : expandWith settings (nestedAt settings depth) document ancestors start =
      .error abort) : FailsAt settings main shared abort := by
  induction room : settings.limits.maxIncludeDepth.toNat - depth using Nat.strongRecOn
      generalizing depth document ancestors start with
  | ind room ih =>
    obtain ⟨branch, called, stopped, stream, token, runs, found, step⟩ :=
      Branch.run_error_iff.mp (expandWith_error_iff.mp failed)
    rcases Branch.step_error_iff.mp step with
      fails | ⟨reader, included, inner, state, present, opens, inside⟩
    · exact .meets nests runs found fails
    · have allowed : (nestedAt settings depth).isSome = true := by simp [present]
      obtain ⟨below, same⟩ := nestedAt_of_isSome allowed
      cases present.symm.trans same
      exact ih _ (by omega) (.opened nests runs found allowed opens) inside rfl

/-- What a branch fails by, the whole expansion fails by. -/
theorem error_of_nests (nests : Nests settings main shared depth document ancestors start)
    (failed : expandWith settings (nestedAt settings depth) document ancestors start =
      .error abort) :
    expandWith settings (nestedAt settings 0) main [main.fileId] shared = .error abort := by
  induction nests with
  | main => exact failed
  | opened _ runs found allowed opens ih =>
    obtain ⟨_, reader⟩ := nestedAt_of_isSome allowed
    have step := Branch.step_error_iff.mpr (.inr ⟨_, _, _, _, reader, opens, failed⟩)
    exact ih (expandWith_error_iff.mpr
      (Branch.run_error_iff.mpr ⟨_, _, _, _, _, runs, found, step⟩))

end

/-- **An expansion fails exactly where one of its branches meets a token that fails.** -/
theorem outcome_eq_error_iff {main : Document} {scope : Scope} {table : FileTable}
    {cause : DocumentError} :
    (expand settings main scope table).outcome = .error cause ↔
      ∃ abort, FailsAt settings main ⟨scope, table, #[], []⟩ abort ∧ abort.cause = cause := by
  have whole : ∀ abort,
      expandWith settings (nestedAt settings 0) main [main.fileId] ⟨scope, table, #[], []⟩ =
          .error abort ↔
        FailsAt settings main ⟨scope, table, #[], []⟩ abort := by
    intro abort
    constructor
    · exact failsAt_of_error .main
    · rintro ⟨nests, runs, found, fails⟩
      have step := Branch.step_error_iff.mpr (.inl fails)
      exact error_of_nests nests (expandWith_error_iff.mpr
        (Branch.run_error_iff.mpr ⟨_, _, _, _, _, runs, found, step⟩))
  have room : nestedAt settings 0 =
      expandIncluded settings settings.limits.maxIncludeDepth.toNat := rfl
  simp only [← whole, room, expand, expandNested]
  cases expandWith settings (expandIncluded settings settings.limits.maxIncludeDepth.toNat) main
      [main.fileId] ⟨scope, table, #[], []⟩ with
  | error abort => simp
  | ok result => simp

/-- The reasons for which an expansion fails. -/
theorem FailsAt.failure {main : Document} {shared : Shared} {abort : Abort}
    (fails : FailsAt settings main shared abort) : Failure settings abort.cause := by
  obtain ⟨-, -, -, fails⟩ := fails
  exact Branch.failure_of_failure? fails

theorem FailsAt.ne_missingLimit {main : Document} {shared : Shared} {abort : Abort}
    {maxSteps maxDepth : Int} (fails : FailsAt settings main shared abort)
    (steps : settings.limits.maxSteps = some maxSteps)
    (depth : settings.limits.maxDepth = some maxDepth) : abort.cause ≠ .missingLimit := by
  intro missing
  have reason := fails.failure
  rw [missing] at reason
  cases reason with
  | missingLimit absent => simp [steps, depth] at absent

/-- What reading and expanding a source text comes to. -/
def expansionOf (settings : Settings) (source : Text) (fileId : FileId) (fileTable : FileTable) :
    Except DocumentError (Document × List Diagnostic) := do
  let document ← (Document.parse source .standard settings.commands fileId).mapError .number
  (expand settings document Scope.empty fileTable).outcome

/-- **Reading and expanding a source gives a result**, unless a number in the source is too long
or a branch of the expansion meets a token that fails: for digits that are no number, for a path
of which the file system tells nothing, or for a number in an included file that is too long. -/
theorem outcome_expansionOf (files : FileSystem) (commands : CommandTable)
    (maxDepth maxSteps maxIncludeDepth : Int) (source : Text) (fileId : FileId)
    (fileTable : FileTable) :
    let settings : Settings := ⟨files, ⟨some maxDepth, some maxSteps, maxIncludeDepth⟩, commands⟩
    (∃ expanded reports,
        expansionOf settings source fileId fileTable = .ok (expanded, reports)) ∨
      (∃ error, expansionOf settings source fileId fileTable = .error (.number error) ∧
        Lexer.Overlong source) ∨
      ∃ document abort, Document.parse source .standard commands fileId = .ok document ∧
        FailsAt settings document ⟨Scope.empty, fileTable, #[], []⟩ abort ∧
        expansionOf settings source fileId fileTable = .error abort.cause ∧
        Failure settings abort.cause ∧ abort.cause ≠ .missingLimit := by
  intro settings
  unfold expansionOf
  cases parsed : Document.parse source .standard commands fileId with
  | error error =>
    exact .inr (.inl ⟨error, rfl, Document.overlong_of_parse parsed⟩)
  | ok document =>
    cases outcome : (expand settings document Scope.empty fileTable).outcome with
    | ok result => exact .inl ⟨result.1, result.2, outcome⟩
    | error cause =>
      obtain ⟨abort, fails, rfl⟩ := outcome_eq_error_iff.mp outcome
      exact .inr (.inr ⟨document, abort, rfl, fails, outcome, fails.failure,
        fails.ne_missingLimit rfl rfl⟩)

/-- The cause by which the main branch of an expansion fails, if it reads no more tokens than a
given number. -/
def mainFailure (settings : Settings) (document : Document) (scope : Scope) (table : FileTable)
    (count : Nat) : Option DocumentError :=
  let shared : Shared := ⟨scope, table, #[], []⟩
  match Branch.runWithin settings (siteOf document [document.fileId] shared)
      (expandIncluded settings settings.limits.maxIncludeDepth.toNat)
      (Branch.start document shared) count with
  | some (.error abort) => some abort.cause
  | _ => none

theorem outcome_of_mainFailure {document : Document} {scope : Scope} {table : FileTable}
    {count : Nat} {cause : DocumentError}
    (failed : mainFailure settings document scope table count = some cause) :
    (expand settings document scope table).outcome = .error cause := by
  unfold mainFailure at failed
  dsimp only at failed
  split at failed
  · rename_i abort ran
    cases failed
    have ran := Branch.run_of_runWithin ran
    have whole := expandWith_error_iff.mpr ran
    unfold expand expandNested
    dsimp only
    rw [whole]
  · cases failed

theorem expansionOf_of_checked {source : Text} {fileId : FileId} {table : FileTable}
    {cause : DocumentError} (count : Nat)
    (checked : ((Document.parse source .standard settings.commands fileId).toOption.bind
      fun document => mainFailure settings document Scope.empty table count) = some cause) :
    expansionOf settings source fileId table = .error cause := by
  unfold expansionOf
  cases parsed : Document.parse source .standard settings.commands fileId with
  | error error =>
    rw [parsed] at checked
    cases checked
  | ok document =>
    rw [parsed] at checked
    exact outcome_of_mainFailure checked

/-- A file system without files. -/
def emptyDisk : FileSystem :=
  FileSystem.Snapshot.toFileSystem ⟨⟨.slash, []⟩, []⟩

/-- A name that is longer than the names of files can be. -/
def longName : Text := List.replicate 256 (.char 'a')

/-- Malformed sources whose expansion fails: the number of arguments of a new command is a digit,
but no decimal one, and a name is too long for a file to have it. -/
theorem expansionOf_fails :
    expansionOf ⟨emptyDisk, {}, .standard⟩ "\\newcommand\\a[²]\x7bb\x7d" 0
        (.empty emptyDisk.currentDirectory) = .error (.number (.notDecimal "²")) ∧
      expansionOf ⟨emptyDisk, {}, .standard⟩ ("\\input\x7b" ++ longName ++ "\x7d") 0
          (.empty emptyDisk.currentDirectory) =
        .error (.file (.system .nameTooLong ⟨.slash, [longName ++ ".tex"]⟩)) :=
  ⟨expansionOf_of_checked 20 (by decide +kernel), expansionOf_of_checked 20 (by decide +kernel)⟩

end Expansion

end TexSource
