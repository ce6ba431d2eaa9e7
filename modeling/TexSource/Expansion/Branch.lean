import TexSource.Expansion.Scan
import TexSource.Expansion.Splice
import TexSource.FileTable

/-!
# Branches of an expansion

A branch expands the tokens of one file: it replaces macros, obeys definitions, and
follows inclusion directives, each in a branch of its own below it. A branch ends
because every step either uses up one of the macro calls that the limits allow or
leaves less to read (`Branch.Progress`), and branches nest only as deep as the limits
allow.
-/

namespace TexSource

namespace Expansion

/-- The bounds of a branch: macros called inside each other, macro calls altogether,
and files included inside each other. Where a bound on calls is missing, no macro can be
called. -/
structure Limits where
  maxDepth : Option Int := some 64
  maxSteps : Option Int := some 10000
  maxIncludeDepth : Int := 16
deriving DecidableEq, Repr

/-- What stays the same during an expansion. -/
structure Settings where
  files : FileSystem
  limits : Limits
  commands : CommandTable

/-- What stays the same during a branch: its file, the files around it from the main
file to itself, and the depth of the scope when it started. -/
structure Site where
  fileId : FileId
  ancestors : List FileId
  baseDepth : Nat

/-- What all branches of an expansion share. -/
structure Shared where
  scope : Scope
  table : FileTable
  diagnostics : Array Diagnostic
  reportedFiles : List FileId

/-- The end of an expansion that cannot go on. -/
structure Abort where
  cause : DocumentError
  shared : Shared

/-- The state of a branch. While `verbatim` names an environment, tokens pass through
untouched up to its end. -/
structure Branch where
  stream : Stream
  steps : Nat
  aborted : Bool
  verbatim : Option Text
  output : Array Token
  inclusions : Array Inclusion
  shared : Shared

/-- The expansion of an included document, absent when no more files may be
included. -/
abbrev Nested := Option (Document → List FileId → Shared → Except Abort (Document × Shared))

namespace Branch

/-- Writes tokens behind those that are written. -/
def write (branch : Branch) (tokens : List Token) : Branch :=
  { branch with output := branch.output ++ tokens }

/-- Adds a report to those of all branches. -/
def report (branch : Branch) (problem : Problem) (span : Span) : Branch :=
  { branch with shared.diagnostics := branch.shared.diagnostics.push (problem.reportAt span) }

/-- Changes the definitions in force. -/
def withScope (branch : Branch) (change : Scope → Scope) : Branch :=
  { branch with shared.scope := change branch.shared.scope }

/-- The outcome of a scan, the tokens it consumed, and the branch behind it. -/
def attempt {Result : Type} (branch : Branch) (scan : Scan Result) :
    Result × List Token × Branch :=
  let (result, scanner) := scan ⟨branch.stream, [], #[]⟩
  (result, scanner.consumed,
    { branch with
      stream := scanner.stream
      shared.diagnostics := branch.shared.diagnostics ++ scanner.reports })

/-- Gives up a construct: its first token is written, and what was consumed behind it
is read again. -/
def giveUp (branch : Branch) (first : Token) (consumed : List Token) : Branch :=
  { branch.write [first] with stream := branch.stream.push consumed }

/-- Defines the macro of a construct that succeeded, or gives the construct up. -/
def defineOrGiveUp (branch : Branch) (first : Token) (consumed : List Token) :
    Option Macro → Branch
  | some definition => branch.withScope (·.define definition)
  | none => branch.giveUp first consumed

/-- Carries out a definition that a scan reads, or gives the command up. -/
def defineBy (branch : Branch) (first : Token) (scan : Scan (Option Macro)) : Branch :=
  let (definition, consumed, branch) := branch.attempt scan
  branch.defineOrGiveUp first consumed definition

/-- A construct that starts with marks before a definer. Marks without a definer are
written with what was consumed behind them. -/
def defineMarked (branch : Branch) (first : Token) (isGlobal : Bool) : Branch :=
  let (outcome, consumed, branch) := branch.attempt (Scan.marked branch.shared.scope isGlobal)
  match outcome with
  | .defines definition => branch.withScope (·.define definition)
  | .givenUp => branch.giveUp first consumed
  | .notOurs => branch.write (first :: consumed)

/-- The definition of a new command. A command that is only provided keeps the meaning
it has. -/
def defineNewCommand (branch : Branch) (first : Token) (word : Text) : Except Abort Branch :=
  let (outcome, consumed, branch) := branch.attempt Scan.newCommand
  match outcome with
  | .error error => .error ⟨.number error, branch.shared⟩
  | .ok none => .ok (branch.giveUp first consumed)
  | .ok (some definition) =>
    if word = "providecommand" && branch.shared.scope.binds definition.name then .ok branch
    else .ok (branch.withScope (·.define definition))

/-- Replaces a use of a macro by its replacement text, with its arguments. -/
def call (branch : Branch) (use : Token) (definition : Macro) : Branch :=
  let (outcome, consumed, branch) :=
    { branch with steps := branch.steps + 1 }.attempt (Scan.invocation definition use)
  match outcome with
  | .error problem => (branch.report problem use.span).giveUp use consumed
  | .ok arguments =>
    let replacement := Macro.substitute arguments definition.replacement
    { branch with stream := branch.stream.pushCall definition.name replacement }

/-- How a use of a macro stands to the limits. -/
inductive Admission where
  | stepLimitReached (maxSteps : Int)
  | callLimitExceeded (maxDepth : Int)
  | admitted
deriving DecidableEq, Repr

/-- How a use of a macro stands to the limits, if none that matters is missing. The limit
on all calls is looked at before the limit on calls inside each other. -/
def admission (limits : Limits) (branch : Branch) : Option Admission :=
  match limits.maxSteps with
  | none => none
  | some maxSteps =>
    if maxSteps ≤ branch.steps then some (.stepLimitReached maxSteps)
    else
      match limits.maxDepth with
      | none => none
      | some maxDepth =>
        if maxDepth ≤ branch.stream.calls.length then some (.callLimitExceeded maxDepth)
        else some .admitted

/-- Reads the arguments of a use and replaces it, within the limits for calls. -/
def invoke (limits : Limits) (branch : Branch) (use : Token) (definition : Macro) :
    Except Abort Branch :=
  match branch.admission limits with
  | none => .error ⟨.missingLimit, branch.shared⟩
  | some (.stepLimitReached maxSteps) =>
    .ok { (branch.report (.stepLimitReached maxSteps definition.name) use.span).write [use] with
      aborted := true }
  | some (.callLimitExceeded maxDepth) =>
    let innermost := (branch.stream.calls.take 3).reverse
    .ok ((branch.report (.callLimitExceeded maxDepth innermost) use.span).write [use])
  | some .admitted => .ok (branch.call use definition)

/-- A `\begin`. The head of a verbatim environment is written, and its body will be. -/
def beginEnvironment (commands : CommandTable) (branch : Branch) (first : Token) : Branch :=
  let (name, consumed, branch) := branch.attempt Scan.environmentName
  match name.filter commands.isVerbatim with
  | some name => { branch.write (first :: consumed) with verbatim := some name }
  | none => branch.giveUp first consumed

/-- A token in the body of a verbatim environment. -/
def passVerbatim (name : Text) (branch : Branch) (token : Token) : Branch :=
  if token.isControlWord "end" then
    let (found, consumed, branch) := branch.attempt Scan.environmentName
    { branch.write (token :: consumed) with
      verbatim := if found = some name then none else some name }
  else
    branch.write [token]

/-- The document that a file name stands for, or the problem that keeps it from being
included. -/
def locate (settings : Settings) (site : Site) (name : Text) (shared : Shared) :
    Except Abort (Except Problem (FileEntry × Document) × Shared) :=
  match shared.table.resolve settings.files name site.ancestors with
  | .error error => .error ⟨.file error, shared⟩
  | .ok none => .ok (.error (.includedFileNotFound name), shared)
  | .ok (some path) =>
    let (entry, table) := shared.table.enter path (some site.fileId)
    if site.ancestors.contains entry.id then
      let chain := (site.ancestors ++ [entry.id]).map fun id => (table.entry id).name
      .ok (.error (.cyclicInclusion chain), { shared with table })
    else
      match table.document settings.files entry.id with
      | (.error (.file error), table) =>
        .ok (.error (.includedFileUnreadable name error.reason), { shared with table })
      | (.error error, table) => .error ⟨error, { shared with table }⟩
      | (.ok document, table) =>
        let reports := if shared.reportedFiles.contains entry.id then [] else document.diagnostics
        .ok (.ok (entry, document), { shared with
          table
          diagnostics := shared.diagnostics ++ reports
          reportedFiles := entry.id :: shared.reportedFiles })

/-- The included document that a file name stands for, expanded in a branch of its
own; nothing, with a report, when the file cannot be included. -/
def load (settings : Settings) (site : Site) (nested : Nested) (name : Text) (anchor : Span)
    (shared : Shared) : Except Abort (Option Inclusion × Shared) :=
  let refuse (shared : Shared) (problem : Problem) : Option Inclusion × Shared :=
    (none, { shared with diagnostics := shared.diagnostics.push (problem.reportAt anchor) })
  match nested with
  | none => .ok (refuse shared (.inclusionLimitExceeded settings.limits.maxIncludeDepth name))
  | some expandIncluded => do
    let (located, shared) ← locate settings site name shared
    match located with
    | .error problem => return refuse shared problem
    | .ok (entry, document) =>
      let (expanded, shared) ← expandIncluded document (site.ancestors ++ [entry.id]) shared
      return (some ⟨entry.id, entry.name, expanded⟩, shared)

/-- An inclusion directive. It is written between braces of no width, so that it stays
one node of the tree, with a ticket if its file was included. -/
def followDirective (settings : Settings) (site : Site) (nested : Nested) (branch : Branch)
    (first : Token) : Except Abort Branch :=
  let (directive, consumed, branch) := branch.attempt Scan.inclusion
  match directive with
  | none => .ok (branch.giveUp first consumed)
  | some directive => do
    let (inclusion, shared) ←
      load settings site nested directive.name first.span branch.shared
    let ticket := inclusion.map fun _ => branch.inclusions.size
    return { branch.write (Scan.enclosed { first with ticket } directive.tokens) with
      inclusions := branch.inclusions ++ inclusion.toList
      shared }

/-- Whether a control word is one of those that define commands with arguments by number. -/
def isNewCommandWord (word : Text) : Bool :=
  word = "newcommand" || word = "renewcommand" || word = "providecommand" ||
    word = "DeclareRobustCommand"

/-- Whether a control word includes a file. -/
def isInclusionWord (word : Text) : Bool :=
  word = "input" || word = "include" || word = "subfile"

/-- A control word that is not bound as a macro. -/
def obey (settings : Settings) (site : Site) (nested : Nested) (branch : Branch) (token : Token)
    (word : Text) : Except Abort Branch :=
  if Scan.isDefinitionMark word then
    .ok (branch.defineMarked token (word = "global"))
  else
    match Scan.definer? word with
    | some isGlobal => .ok (branch.defineBy token (Scan.definition isGlobal))
    | none =>
      if word = "let" then
        .ok (branch.defineBy token (Scan.letBinding branch.shared.scope false))
      else if isNewCommandWord word then
        branch.defineNewCommand token word
      else if isInclusionWord word then
        branch.followDirective settings site nested token
      else if word = "begin" then
        .ok (branch.beginEnvironment settings.commands token)
      else
        .ok (branch.write [token])

/-- The definition of what a token names, if there is one. -/
def meaning? (branch : Branch) (token : Token) : Option Macro :=
  if token.isDefinable then branch.shared.scope.lookup token.macroName else none

/-- What a branch does with the token it has read. -/
def step (settings : Settings) (site : Site) (nested : Nested) (branch : Branch) (token : Token) :
    Except Abort Branch :=
  if branch.aborted then .ok (branch.write [token])
  else
    match branch.verbatim with
    | some name => .ok (branch.passVerbatim name token)
    | none =>
      match branch.meaning? token with
      | some definition => branch.invoke settings.limits token definition
      | none =>
        match token.kind with
        | .beginGroup _ => .ok ((branch.withScope (·.push)).write [token])
        | .endGroup _ =>
          .ok ((branch.withScope fun scope =>
            if site.baseDepth < scope.depth then scope.pop else scope).write [token])
        | .controlWord word => branch.obey settings site nested token word
        | _ => .ok (branch.write [token])

/-- The macro that a branch uses at a token. -/
def use? (branch : Branch) (token : Token) : Option Macro :=
  if branch.aborted || branch.verbatim.isSome then none else branch.meaning? token

/-- Whether a branch calls a macro at a token. -/
def calls (limits : Limits) (branch : Branch) (token : Token) : Bool :=
  (branch.use? token).isSome && branch.admission limits = some .admitted

/-- Whether a branch reaches the limit on all calls at a token. -/
def stops (limits : Limits) (branch : Branch) (token : Token) : Bool :=
  (branch.use? token).isSome &&
    (match branch.admission limits with
    | some (.stepLimitReached _) => true
    | _ => false)

/-- A branch calls no macro and has no more to read than before. -/
structure Rests (before after : Branch) : Prop where
  steps : after.steps = before.steps
  aborted : after.aborted = before.aborted
  items : after.stream.items.length ≤ before.stream.items.length
  calls : after.stream.calls.length ≤ before.stream.calls.length

/-- What becomes of a branch that reads a token: it calls one more macro, it stops because
too many were called, or it does neither. -/
inductive Progress (limits : Limits) (before : Branch) (token : Token) (after : Branch) : Prop where
  | called (calls : before.calls limits token = true) (stops : before.stops limits token = false)
      (steps : after.steps = before.steps + 1) (aborted : after.aborted = before.aborted)
      (nesting : after.stream.calls.length ≤ before.stream.calls.length + 1)
  | stopped (calls : before.calls limits token = false) (stops : before.stops limits token = true)
      (steps : after.steps = before.steps) (aborted : after.aborted = true)
      (stream : after.stream = before.stream)
  | rested (calls : before.calls limits token = false) (stops : before.stops limits token = false)
      (rests : Rests before after)

/-- A branch with the counters and the stream that it had rests. -/
theorem rests_of_eq {before after : Branch} (steps : after.steps = before.steps)
    (aborted : after.aborted = before.aborted) (stream : after.stream = before.stream) :
    Rests before after :=
  ⟨steps, aborted, Nat.le_of_eq (by rw [stream]), Nat.le_of_eq (by rw [stream])⟩

/-- A scan that is undone leaves no more tokens than there were. -/
theorem length_attempt {Result : Type} (branch : Branch) {scan : Scan Result}
    (shrinks : Scan.Shrinks scan) :
    (branch.attempt scan).2.2.stream.items.length + (branch.attempt scan).2.1.length ≤
      branch.stream.items.length :=
  shrinks.extent_le ⟨branch.stream, [], #[]⟩

/-- A scan that is undone opens no calls. -/
theorem calls_attempt {Result : Type} (branch : Branch) {scan : Scan Result}
    (shrinks : Scan.Shrinks scan) :
    (branch.attempt scan).2.2.stream.calls.length ≤ branch.stream.calls.length :=
  shrinks.calls_le ⟨branch.stream, [], #[]⟩

/-- A branch that goes on behind a scan. -/
theorem rests_attempt {Result : Type} {branch after : Branch} {scan : Scan Result}
    (shrinks : Scan.Shrinks scan) (steps : after.steps = branch.steps)
    (aborted : after.aborted = branch.aborted)
    (stream : after.stream = (branch.attempt scan).2.2.stream) : Rests branch after := by
  have := length_attempt branch shrinks
  exact ⟨steps, aborted, by rw [stream]; omega, by rw [stream]; exact calls_attempt branch shrinks⟩

/-- Giving a command up writes its first token and puts the others back. -/
theorem rests_giveUp {Result : Type} (branch : Branch) {scan : Scan Result}
    (shrinks : Scan.Shrinks scan) (first : Token) :
    Rests branch ((branch.attempt scan).2.2.giveUp first (branch.attempt scan).2.1) := by
  have := length_attempt branch shrinks
  refine ⟨rfl, rfl, ?_, calls_attempt branch shrinks⟩
  simp only [giveUp, Stream.push, List.length_append, List.length_map]
  omega

/-- A definition takes its tokens, whether it is carried out or given up. -/
theorem rests_defineBy (branch : Branch) (first : Token) {scan : Scan (Option Macro)}
    (shrinks : Scan.Shrinks scan) : Rests branch (branch.defineBy first scan) := by
  unfold defineBy
  simp only
  cases (branch.attempt scan).1 with
  | none => exact rests_giveUp branch shrinks first
  | some definition => exact rests_attempt shrinks rfl rfl rfl

theorem rests_defineMarked (branch : Branch) (first : Token) (isGlobal : Bool) :
    Rests branch (branch.defineMarked first isGlobal) := by
  have shrinks := Scan.shrinks_marked branch.shared.scope isGlobal
  unfold defineMarked
  simp only
  split
  · exact rests_attempt shrinks rfl rfl rfl
  · exact rests_giveUp branch shrinks first
  · exact rests_attempt shrinks rfl rfl rfl

theorem rests_defineNewCommand {branch after : Branch} {first : Token} {word : Text}
    (done : branch.defineNewCommand first word = .ok after) : Rests branch after := by
  have shrinks := Scan.shrinks_newCommand
  unfold defineNewCommand at done
  simp only at done
  split at done
  · cases done
  · cases done
    exact rests_giveUp branch shrinks first
  · split at done
    · cases done
      exact rests_attempt shrinks rfl rfl rfl
    · cases done
      exact rests_attempt shrinks rfl rfl rfl

/-- A call is a step. -/
theorem steps_call (branch : Branch) (use : Token) (definition : Macro) :
    (branch.call use definition).steps = branch.steps + 1 ∧
      (branch.call use definition).aborted = branch.aborted := by
  unfold call
  simp only
  split <;> exact ⟨rfl, rfl⟩

/-- A call opens one call. -/
theorem calls_call (branch : Branch) (use : Token) (definition : Macro) :
    (branch.call use definition).stream.calls.length ≤ branch.stream.calls.length + 1 := by
  have fewer := calls_attempt { branch with steps := branch.steps + 1 }
    (Scan.shrinks_invocation definition use)
  unfold call
  simp only
  split
  · exact Nat.le_succ_of_le fewer
  · exact Nat.succ_le_succ fewer

/-- A use of a macro calls it, stops the branch, or is written as it stands. -/
theorem progress_invoke {limits : Limits} {branch after : Branch} {token : Token}
    {definition : Macro} (uses : branch.use? token = some definition)
    (done : branch.invoke limits token definition = .ok after) :
    Progress limits branch token after := by
  unfold invoke at done
  cases admission : branch.admission limits with
  | none =>
    rw [admission] at done
    cases done
  | some stand =>
    rw [admission] at done
    cases stand with
    | stepLimitReached maxSteps =>
      cases done
      exact .stopped (by simp [calls, admission]) (by simp [stops, uses, admission]) rfl rfl rfl
    | callLimitExceeded maxDepth =>
      cases done
      exact .rested (by simp [calls, admission]) (by simp [stops, admission])
        (rests_of_eq rfl rfl rfl)
    | admitted =>
      cases done
      obtain ⟨steps, aborted⟩ := steps_call branch token definition
      exact .called (by simp [calls, uses, admission]) (by simp [stops, admission]) steps aborted
        (calls_call branch token definition)

theorem rests_beginEnvironment (commands : CommandTable) (branch : Branch) (first : Token) :
    Rests branch (branch.beginEnvironment commands first) := by
  have shrinks := Scan.shrinks_environmentName
  unfold beginEnvironment
  simp only
  split
  · exact rests_attempt shrinks rfl rfl rfl
  · exact rests_giveUp branch shrinks first

/-- A verbatim environment is passed through, token by token. -/
theorem rests_passVerbatim (name : Text) (branch : Branch) (token : Token) :
    Rests branch (branch.passVerbatim name token) := by
  unfold passVerbatim
  split
  · exact rests_attempt Scan.shrinks_environmentName rfl rfl rfl
  · exact rests_of_eq rfl rfl rfl

/-- A directive that is followed takes its tokens. -/
theorem rests_followDirective {settings : Settings} {site : Site} {nested : Nested}
    {branch after : Branch} {first : Token}
    (done : branch.followDirective settings site nested first = .ok after) :
    Rests branch after := by
  have shrinks := Scan.shrinks_inclusion
  unfold followDirective at done
  simp only at done
  split at done
  · cases done
    exact rests_giveUp branch shrinks first
  · rename_i directive eq
    cases loaded : load settings site nested directive.name first.span
        (branch.attempt Scan.inclusion).2.2.shared with
    | error abort =>
      rw [loaded] at done
      cases done
    | ok result =>
      rw [loaded] at done
      cases done
      exact rests_attempt shrinks rfl rfl rfl

theorem rests_obey {settings : Settings} {site : Site} {nested : Nested}
    {branch after : Branch} {token : Token} {word : Text}
    (done : branch.obey settings site nested token word = .ok after) : Rests branch after := by
  unfold obey at done
  split at done
  · cases done
    exact rests_defineMarked branch token _
  · split at done
    · cases done
      exact rests_defineBy branch token (Scan.shrinks_definition _)
    · split at done
      · cases done
        exact rests_defineBy branch token (Scan.shrinks_letBinding _ _)
      · split at done
        · exact rests_defineNewCommand done
        · split at done
          · exact rests_followDirective done
          · split at done
            · cases done
              exact rests_beginEnvironment ..
            · cases done
              exact rests_of_eq rfl rfl rfl

/-- Where no macro is used, none is called and no limit is reached. -/
theorem progress_of_rests {limits : Limits} {branch after : Branch} {token : Token}
    (useless : branch.use? token = none) (rests : Rests branch after) :
    Progress limits branch token after :=
  .rested (by simp [calls, useless]) (by simp [stops, useless]) rests

/-- A step calls one more macro, stops the branch, or does neither and reads on. -/
theorem progress_step {settings : Settings} {site : Site} {nested : Nested}
    {branch after : Branch} {token : Token}
    (done : branch.step settings site nested token = .ok after) :
    Progress settings.limits branch token after := by
  unfold step at done
  split at done
  · rename_i aborted
    cases done
    exact progress_of_rests (by simp [use?, aborted]) (rests_of_eq rfl rfl rfl)
  · rename_i running
    cases verbatim : branch.verbatim with
    | some name =>
      rw [verbatim] at done
      cases done
      exact progress_of_rests (by simp [use?, verbatim]) (rests_passVerbatim ..)
    | none =>
      have same : branch.use? token = branch.meaning? token := by simp [use?, running, verbatim]
      rw [verbatim] at done
      dsimp only at done
      cases meaning : branch.meaning? token with
      | some definition =>
        rw [meaning] at done
        exact progress_invoke (same.trans meaning) done
      | none =>
        rw [meaning] at done
        refine progress_of_rests (same.trans meaning) ?_
        dsimp only at done
        split at done
        · cases done
          exact rests_of_eq rfl rfl rfl
        · cases done
          exact rests_of_eq rfl rfl rfl
        · exact rests_obey done
        · cases done
          exact rests_of_eq rfl rfl rfl

/-- What stands behind each way that a use of a macro can stand to the limits. -/
theorem admission_inv {limits : Limits} {branch : Branch} {stand : Admission}
    (found : branch.admission limits = some stand) :
    ∃ maxSteps, limits.maxSteps = some maxSteps ∧
      (maxSteps ≤ branch.steps ∧ stand = .stepLimitReached maxSteps ∨
        branch.steps < maxSteps ∧ ∃ maxDepth, limits.maxDepth = some maxDepth ∧
          (maxDepth ≤ branch.stream.calls.length ∧ stand = .callLimitExceeded maxDepth ∨
            branch.stream.calls.length < maxDepth ∧ stand = .admitted)) := by
  unfold admission at found
  cases steps : limits.maxSteps with
  | none =>
    rw [steps] at found
    cases found
  | some maxSteps =>
    rw [steps] at found
    dsimp only at found
    refine ⟨maxSteps, rfl, ?_⟩
    by_cases reached : maxSteps ≤ branch.steps
    · rw [if_pos reached] at found
      cases found
      exact .inl ⟨reached, rfl⟩
    · rw [if_neg reached] at found
      refine .inr ⟨Int.not_le.mp reached, ?_⟩
      cases depth : limits.maxDepth with
      | none =>
        rw [depth] at found
        cases found
      | some maxDepth =>
        rw [depth] at found
        dsimp only at found
        refine ⟨maxDepth, rfl, ?_⟩
        by_cases exceeded : maxDepth ≤ branch.stream.calls.length
        · rw [if_pos exceeded] at found
          cases found
          exact .inl ⟨exceeded, rfl⟩
        · rw [if_neg exceeded] at found
          cases found
          exact .inr ⟨Int.not_le.mp exceeded, rfl⟩

/-- Macros are called within the limits only. -/
theorem lt_of_calls {limits : Limits} {branch : Branch} {token : Token}
    (calls : branch.calls limits token = true) :
    ∃ maxSteps maxDepth, limits.maxSteps = some maxSteps ∧ limits.maxDepth = some maxDepth ∧
      (branch.steps : Int) < maxSteps ∧ (branch.stream.calls.length : Int) < maxDepth := by
  have admitted : branch.admission limits = some .admitted := by
    simpa [Branch.calls] using (Bool.and_eq_true_iff.mp calls).2
  rcases admission_inv admitted with
    ⟨maxSteps, steps, ⟨_, other⟩ | ⟨below, maxDepth, depth, ⟨_, other⟩ | ⟨shallow, _⟩⟩⟩
  · cases other
  · cases other
  · exact ⟨maxSteps, maxDepth, steps, depth, below, shallow⟩

/-- The calls that are left, and what there is to read. -/
def rank (limits : Limits) (branch : Branch) : Nat × Nat :=
  ((limits.maxSteps.getD 0 - branch.steps).toNat, branch.stream.items.length)

/-- Every token that is read uses up a call or leaves less to read. -/
theorem rank_lt {settings : Settings} {site : Site} {nested : Nested} {branch later : Branch}
    {stream : Stream} {token : Token} (found : branch.stream.next = (some token, stream))
    (done : step settings site nested { branch with stream } token = .ok later) :
    Prod.Lex (· < ·) (· < ·) (later.rank settings.limits) (branch.rank settings.limits) := by
  have shorter : stream.items.length < branch.stream.items.length := by
    have readToken : branch.stream.next.1 = some token := by rw [found]
    have := Stream.length_next_lt readToken
    rwa [found] at this
  have stays : later.steps = branch.steps → later.stream.items.length ≤ stream.items.length →
      Prod.Lex (· < ·) (· < ·) (later.rank settings.limits) (branch.rank settings.limits) := by
    intro steps items
    rw [rank, rank, steps]
    exact Prod.Lex.right _ (by omega)
  cases progress_step done with
  | called calls _ steps =>
    obtain ⟨maxSteps, _, found, _, below, _⟩ := lt_of_calls calls
    have fewer : (branch.steps : Int) < maxSteps := below
    have more : later.steps = branch.steps + 1 := steps
    rw [rank, rank, found, Option.getD_some]
    exact Prod.Lex.left _ _ (by omega)
  | stopped _ _ steps _ same => exact stays steps (Nat.le_of_eq (by rw [same]))
  | rested _ _ rests => exact stays rests.steps rests.items

/-- Reads tokens to the end of the stream, step by step. -/
def run (settings : Settings) (site : Site) (nested : Nested) (branch : Branch) :
    Except Abort Branch :=
  match _found : branch.stream.next with
  | (none, stream) => .ok { branch with stream }
  | (some token, stream) =>
    match _done : step settings site nested { branch with stream } token with
    | .error abort => .error abort
    | .ok later => run settings site nested later
termination_by branch.rank settings.limits
decreasing_by exact rank_lt _found _done

/-- A branch in front of the tokens of a document. -/
def start (document : Document) (shared : Shared) : Branch where
  stream := Stream.ofTokens <|
    (document.tokens.filter fun token => !token.isEndOfInput).map ({ · with ticket := none })
  steps := 0
  aborted := false
  verbatim := none
  output := #[]
  inclusions := #[]
  shared := shared

/-- The document that is parsed from what a branch wrote, with the included ones in place. -/
def result (commands : CommandTable) (document : Document) (branch : Branch) : Document :=
  let endOfInput : Token :=
    { kind := .endOfInput, raw := [], span := document.endOfInput.span }
  splice branch.inclusions <| Document.ofTokens (branch.output.toList ++ [endOfInput])
    document.source document.fileId commands

end Branch

/-- The site of a document: its name, and the files whose inclusion led to it. -/
def siteOf (document : Document) (ancestors : List FileId) (shared : Shared) : Site :=
  ⟨document.fileId, ancestors, shared.scope.depth⟩

/-- Expands a document in a branch. Groups that the document leaves open end with it. -/
def expandWith (settings : Settings) (nested : Nested) (document : Document)
    (ancestors : List FileId) (shared : Shared) : Except Abort (Document × Shared) := do
  let site := siteOf document ancestors shared
  let branch ← (Branch.start document shared).run settings site nested
  let shared := { branch.shared with scope := branch.shared.scope.popTo site.baseDepth }
  return (branch.result settings.commands document, shared)

/-- The expansion of included documents, where files may be included inside each other
up to a depth. -/
def expandIncluded (settings : Settings) : (room : Nat) → Nested
  | 0 => none
  | room + 1 => some (expandWith settings (expandIncluded settings room))

/-- Expands a document, where files may be included inside each other up to a depth. -/
def expandNested (settings : Settings) (room : Nat) :
    Document → List FileId → Shared → Except Abort (Document × Shared) :=
  expandWith settings (expandIncluded settings room)

end Expansion

end TexSource
