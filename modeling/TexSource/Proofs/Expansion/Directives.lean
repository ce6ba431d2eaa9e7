import TexSource.Proofs.Expansion.Nesting
import TexSource.Proofs.Expansion.Provenance
import TexSource.Proofs.Expansion.Restoring
import TexSource.Proofs.FileTable.Paths

/-!
# Inclusion directives

A branch follows a directive at a control word for inclusion that reads a file name
(`Branch.follows?`). The directive is refused where more files would be nested than the limit
allows, or where its name stands for no file, for one of the files around it, or for one that
cannot be read (`Branch.Obstructed`); it then stays as it was written. Whatever else a branch does
leaves the file table and the inclusions alone (`Branch.step_cases`).
-/

namespace TexSource

namespace Expansion

namespace Scan

variable {First Second : Type}

/-- A scan reports nothing. -/
structure Quiet {Result : Type} (scan : Scan Result) : Prop where
  reports : ∀ scanner, (scan scanner).2.reports = scanner.reports

namespace Quiet

theorem pure (result : First) : Quiet (Pure.pure result) :=
  ⟨fun _ => rfl⟩

theorem get : Quiet (MonadState.get : Scan Scanner) :=
  ⟨fun _ => rfl⟩

/-- Quiet scans may follow each other. -/
theorem bind {first : Scan First} {second : First → Scan Second} (hfirst : Quiet first)
    (hsecond : ∀ result, Quiet (second result)) : Quiet (first >>= second) :=
  ⟨fun scanner => ((hsecond _).reports _).trans (hfirst.reports scanner)⟩

theorem readUntil {Memory : Type} (test : Memory → Token → Memory × Bool) (memory : Memory) :
    Quiet (Scan.readUntil test memory) :=
  ⟨fun _ => rfl⟩

theorem unread : Quiet Scan.unread := by
  refine ⟨fun scanner => ?_⟩
  unfold Scan.unread
  cases scanner.consumed.getLast? <;> rfl

end Quiet

theorem quiet_nextSignificant (spacesOnly : Bool) : Quiet (nextSignificant spacesOnly) :=
  .bind (.readUntil ..) fun _ => .pure _

/-- Reading a group reports nothing. -/
theorem quiet_closedGroup : Quiet closedGroup :=
  .bind (.readUntil ..) fun _ => .pure _

/-- Reading a directive reports nothing. -/
theorem quiet_inclusion : Quiet inclusion := by
  apply Quiet.bind (quiet_nextSignificant _)
  intro token
  cases token with
  | none => exact .pure _
  | some token =>
    dsimp only
    split
    · refine .bind quiet_closedGroup fun body => ?_
      cases body with
      | none => exact .pure _
      | some body => exact .bind .get fun _ => .pure _
    · split
      · refine .bind .get fun _ => .bind (.readUntil ..) fun more => ?_
        split
        · exact .bind .unread fun _ => .pure _
        · exact .bind (.pure _) fun _ => .pure _
      · exact .pure _

/-- A scan leads from scanners of one kind to results and scanners of another. -/
structure Ensures {Result : Type} (before : Scanner → Prop) (scan : Scan Result)
    (after : Result → Scanner → Prop) : Prop where
  ensure : ∀ scanner, before scanner → after (scan scanner).1 (scan scanner).2

namespace Ensures

theorem pure {before : Scanner → Prop} {after : First → Scanner → Prop} {result : First}
    (holds : ∀ scanner, before scanner → after result scanner) :
    Ensures before (Pure.pure result) after :=
  ⟨holds⟩

/-- What one scan ensures is what the next may rely on. -/
theorem bind {before : Scanner → Prop} {first : Scan First} {second : First → Scan Second}
    {middle : First → Scanner → Prop} {after : Second → Scanner → Prop}
    (hfirst : Ensures before first middle)
    (hsecond : ∀ result, Ensures (middle result) (second result) after) :
    Ensures before (first >>= second) after :=
  ⟨fun scanner holds => (hsecond _).ensure _ (hfirst.ensure scanner holds)⟩

/-- More may be relied on. -/
theorem weaken {before weaker : Scanner → Prop} {scan : Scan First}
    {after : First → Scanner → Prop} (ensures : Ensures weaker scan after)
    (implies : ∀ scanner, before scanner → weaker scanner) : Ensures before scan after :=
  ⟨fun scanner holds => ensures.ensure scanner (implies scanner holds)⟩

theorem get {before : Scanner → Prop} {second : Scanner → Scan Second}
    {after : Second → Scanner → Prop}
    (hsecond : ∀ scanner, before scanner → Ensures (· = scanner) (second scanner) after) :
    Ensures before (MonadState.get >>= second) after :=
  ⟨fun scanner holds => (hsecond scanner holds).ensure scanner rfl⟩

/-- All that is read is consumed. -/
theorem readUntil {Memory : Type} (test : Memory → Token → Memory × Bool) (memory : Memory)
    (consumed : List Token) : Ensures (·.consumed = consumed) (Scan.readUntil test memory)
      fun reading scanner => scanner.consumed =
        consumed ++ reading.before ++ reading.stop.toList := by
  constructor
  rintro scanner rfl
  rfl

/-- The last token that was consumed is put back. -/
theorem unread (consumed : List Token) (last : Token) :
    Ensures (·.consumed = consumed ++ [last]) Scan.unread fun _ scanner =>
      scanner.consumed = consumed := by
  constructor
  intro scanner same
  unfold Scan.unread
  have same : scanner.consumed = consumed ++ [last] := same
  rw [same, List.getLast?_concat]
  simp

end Ensures

/-- Blanks and the token behind them are consumed. -/
theorem ensures_nextSignificant (spacesOnly : Bool) :
    Ensures (·.consumed = []) (nextSignificant spacesOnly) fun token scanner =>
      ∃ blanks, scanner.consumed = blanks ++ token.toList :=
  .bind (.readUntil _ _ []) fun reading => .pure fun _ same => ⟨reading.before, same⟩

/-- The braces of a directive take no room. -/
theorem rawText_enclosed (first : Token) (rest : List Token) :
    Token.rawText (enclosed first rest) = Token.rawText (first :: rest) := by
  simp [enclosed]

/-- A directive is written as it was read. -/
theorem ensures_inclusion : Ensures (·.consumed = []) inclusion fun found scanner =>
    ∀ directive ∈ found, Token.rawText directive.tokens = Token.rawText scanner.consumed := by
  apply (ensures_nextSignificant true).bind
  intro token
  cases token with
  | none => exact .pure fun _ _ => nofun
  | some token =>
    dsimp only
    split
    · have any : Ensures (fun scanner => ∃ blanks, scanner.consumed = blanks ++ [token]) closedGroup
          fun _ _ => True := ⟨fun _ _ => trivial⟩
      apply any.bind
      intro body
      cases body with
      | none => exact .pure fun _ _ => nofun
      | some body =>
        apply Ensures.get
        intro scanner _
        apply Ensures.pure
        rintro _ rfl directive found
        split at found
        · cases found
        · cases found
          rfl
    · split
      · apply Ensures.get
        rintro scanner ⟨blanks, same⟩
        have same : scanner.consumed = blanks ++ [token] := same
        rw [same, List.dropLast_concat]
        have more := (Ensures.readUntil (fun _ token => ((), !isAnyCharacter token)) ()
          (blanks ++ [token])).weaken fun now (here : now = scanner) => here ▸ same
        apply more.bind
        intro reading
        have written : ∀ now : Scanner, now.consumed = blanks ++ [token] ++ reading.before →
            ∀ name, ∀ directive ∈ some (Directive.mk name
              (blanks ++ enclosed token reading.before)),
              Token.rawText directive.tokens = Token.rawText now.consumed := by
          rintro now consumed name _ ⟨⟩
          rw [consumed, Token.rawText_append, rawText_enclosed]
          simp
        split
        · rename_i stops
          obtain ⟨last, found⟩ := Option.isSome_iff_exists.mp stops
          have back := (Ensures.unread (blanks ++ [token] ++ reading.before) last).weaken
            fun now (here : now.consumed =
              blanks ++ [token] ++ reading.before ++ reading.stop.toList) => by
                rw [here, found]; rfl
          exact back.bind fun _ => .pure fun now consumed => written now consumed _
        · rename_i stops
          refine .pure fun now consumed => written now ?_ _
          have none : reading.stop = none := by simpa using stops
          have consumed : now.consumed =
            blanks ++ [token] ++ reading.before ++ reading.stop.toList := consumed
          rw [consumed, none, Option.toList_none, List.append_nil]
      · exact .pure fun _ _ => nofun

end Scan

namespace Branch

variable {settings : Settings} {site : Site} {nested : Nested} {branch before after : Branch}
  {token : Token}

/-- The directive that a branch follows at a token. -/
def follows? (branch : Branch) (token : Token) : Option Scan.Directive :=
  if branch.aborted || branch.verbatim.isSome || (branch.meaning? token).isSome then none
  else
    match token.kind with
    | .controlWord word =>
      if isInclusionWord word then (branch.attempt Scan.inclusion).1 else none
    | _ => none

/-- A directive is followed if an unbound inclusion word starts it. -/
theorem follows?_eq_some_iff {directive : Scan.Directive} :
    branch.follows? token = some directive ↔ branch.aborted = false ∧ branch.verbatim = none ∧
      branch.meaning? token = none ∧ (branch.attempt Scan.inclusion).1 = some directive ∧
        ∃ word, token.kind = .controlWord word ∧ isInclusionWord word = true := by
  unfold follows?
  cases branch.aborted <;> cases branch.verbatim <;> cases branch.meaning? token <;>
    cases kind : token.kind <;> simp [and_comm]

/-- Where a branch follows a directive, it does nothing else. -/
theorem step_of_follows {directive : Scan.Directive}
    (follows : branch.follows? token = some directive) :
    branch.step settings site nested token = branch.followDirective settings site nested token := by
  obtain ⟨running, code, unbound, -, word, kind, includes⟩ := follows?_eq_some_iff.mp follows
  rw [step, if_neg (by simp [running]), code]
  dsimp only
  rw [unbound]
  dsimp only
  rw [kind]
  exact obey_of_isInclusionWord includes

/-- A branch writes, and leaves the inclusions and the files alone. -/
structure Aside (before after : Branch) : Prop where
  inclusions : after.inclusions = before.inclusions
  table : after.shared.table = before.shared.table
  output : ∃ written : List Token, after.output = before.output ++ written

namespace Aside

theorem quiet (inclusions : after.inclusions = before.inclusions)
    (table : after.shared.table = before.shared.table) (output : after.output = before.output) :
    Aside before after :=
  ⟨inclusions, table, [], by rw [output, Array.appendList_nil]⟩

end Aside

/-- A definition leaves the inclusions aside. -/
theorem aside_defineBy (branch : Branch) (first : Token) (scan : Scan (Option Macro)) :
    Aside branch (branch.defineBy first scan) := by
  unfold defineBy
  dsimp only
  cases (branch.attempt scan).1 with
  | none => exact ⟨rfl, rfl, [first], rfl⟩
  | some definition => exact .quiet rfl rfl rfl

theorem aside_defineMarked (branch : Branch) (first : Token) (isGlobal : Bool) :
    Aside branch (branch.defineMarked first isGlobal) := by
  unfold defineMarked
  dsimp only
  split
  · exact .quiet rfl rfl rfl
  · exact ⟨rfl, rfl, [first], rfl⟩
  · exact ⟨rfl, rfl, _, rfl⟩

theorem aside_defineNewCommand {first : Token} {word : Text}
    (done : branch.defineNewCommand first word = .ok after) : Aside branch after := by
  unfold defineNewCommand at done
  dsimp only at done
  split at done
  · cases done
  · cases done
    exact ⟨rfl, rfl, [first], rfl⟩
  · split at done
    · cases done
      exact .quiet rfl rfl rfl
    · cases done
      exact .quiet rfl rfl rfl

/-- A call leaves the inclusions aside. -/
theorem aside_invoke {limits : Limits} {use : Token} {definition : Macro}
    (done : branch.invoke limits use definition = .ok after) : Aside branch after := by
  unfold invoke at done
  split at done
  · cases done
  · cases done
    exact ⟨rfl, rfl, [use], rfl⟩
  · cases done
    exact ⟨rfl, rfl, [use], rfl⟩
  · cases done
    unfold call
    dsimp only
    split
    · exact ⟨rfl, rfl, [use], rfl⟩
    · exact .quiet rfl rfl rfl

theorem aside_beginEnvironment (commands : CommandTable) (branch : Branch) (first : Token) :
    Aside branch (branch.beginEnvironment commands first) := by
  unfold beginEnvironment
  dsimp only
  split
  · exact ⟨rfl, rfl, _, rfl⟩
  · exact ⟨rfl, rfl, [first], rfl⟩

theorem aside_passVerbatim (name : Text) (branch : Branch) (token : Token) :
    Aside branch (branch.passVerbatim name token) := by
  unfold passVerbatim
  split
  · exact ⟨rfl, rfl, _, rfl⟩
  · exact ⟨rfl, rfl, [token], rfl⟩

/-- A control word that starts no directive leaves the inclusions aside. -/
theorem aside_obey {word : Text} (unfollowed : ∀ directive, isInclusionWord word = true →
      (branch.attempt Scan.inclusion).1 ≠ some directive)
    (done : branch.obey settings site nested token word = .ok after) : Aside branch after := by
  unfold obey at done
  split at done
  · cases done
    exact aside_defineMarked branch token _
  · split at done
    · cases done
      exact aside_defineBy branch token _
    · split at done
      · cases done
        exact aside_defineBy branch token _
      · split at done
        · exact aside_defineNewCommand done
        · split at done
          · rename_i includes
            unfold followDirective at done
            dsimp only at done
            split at done
            · cases done
              exact ⟨rfl, rfl, [token], rfl⟩
            · rename_i directive found
              exact absurd found (unfollowed directive includes)
          · split at done
            · cases done
              exact aside_beginEnvironment ..
            · cases done
              exact ⟨rfl, rfl, [token], rfl⟩

/-- **A branch follows a directive, or leaves the inclusions and the files alone.** -/
theorem step_cases (done : branch.step settings site nested token = .ok after) :
    (∃ directive, branch.follows? token = some directive) ∨ Aside branch after := by
  cases follows : branch.follows? token with
  | some directive => exact .inl ⟨directive, rfl⟩
  | none =>
    refine .inr ?_
    unfold step at done
    split at done
    · cases done
      exact ⟨rfl, rfl, [token], rfl⟩
    · rename_i running
      cases code : branch.verbatim with
      | some name =>
        rw [code] at done
        cases done
        exact aside_passVerbatim ..
      | none =>
        rw [code] at done
        dsimp only at done
        cases meaning : branch.meaning? token with
        | some definition =>
          rw [meaning] at done
          exact aside_invoke done
        | none =>
          rw [meaning] at done
          dsimp only at done
          split at done
          · cases done
            exact ⟨rfl, rfl, [token], rfl⟩
          · cases done
            exact ⟨rfl, rfl, [token], rfl⟩
          · rename_i word kind
            refine aside_obey (fun directive includes found => ?_) done
            simp [follows?, running, code, meaning, kind, includes, found] at follows
          · cases done
            exact ⟨rfl, rfl, [token], rfl⟩

/-- What keeps the file of a directive from being included: too many files would be inside each
other, or the name stands for no file, for one of the files around the directive, or for a file
that cannot be read. -/
inductive Obstructed (settings : Settings) (site : Site) (table : FileTable) (name : Text) :
    Problem → Prop where
  | tooDeep (deep : settings.limits.maxIncludeDepth < site.ancestors.length) :
      Obstructed settings site table name
        (.inclusionLimitExceeded settings.limits.maxIncludeDepth name)
  | missing (room : site.ancestors.length ≤ settings.limits.maxIncludeDepth)
      (absent : table.resolve settings.files name site.ancestors = .ok none) :
      Obstructed settings site table name (.includedFileNotFound name)
  | cyclic {path : Path} {id : FileId}
      (room : site.ancestors.length ≤ settings.limits.maxIncludeDepth)
      (found : table.resolve settings.files name site.ancestors = .ok (some path))
      (around : id ∈ site.ancestors) (same : (table.entry id).path = some path) :
      Obstructed settings site table name
        (.cyclicInclusion ((site.ancestors ++ [id]).map fun id => (table.entry id).name))
  | unreadable {path : Path} {error : FileError} {later : FileTable}
      (room : site.ancestors.length ≤ settings.limits.maxIncludeDepth)
      (found : table.resolve settings.files name site.ancestors = .ok (some path))
      (apart : ∀ id ∈ site.ancestors, (table.entry id).path ≠ some path)
      (failed : (table.enter path (some site.fileId)).2.document settings.files
        (table.enter path (some site.fileId)).1.id = (.error (.file error), later)) :
      Obstructed settings site table name (.includedFileUnreadable name error.reason)

variable {shared later : Shared} {name : Text} {problem : Problem}

/-- A file that is not located leaves nothing but entries of the file table. -/
theorem later_of_locate (refused : locate settings site name shared = .ok (.error problem, later)) :
    ∃ table, shared.table.Extends table ∧ later = { shared with table } := by
  unfold locate at refused
  split at refused
  · cases refused
  · cases refused
    exact ⟨shared.table, .refl _, rfl⟩
  · rename_i path _
    have entered := FileTable.extends_enter shared.table path (some site.fileId)
    dsimp only at refused
    split at refused
    · cases refused
      exact ⟨_, entered, rfl⟩
    · have read := FileTable.extends_document settings.files
        (shared.table.enter path (some site.fileId)).2
        (shared.table.enter path (some site.fileId)).1.id
      split at refused
      · rename_i failed
        cases refused
        rw [failed] at read
        exact ⟨_, entered.trans read, rfl⟩
      · cases refused
      · cases refused

/-- A file that is located is in the table. -/
theorem lt_of_locate {document : Document} {entry : FileEntry} (arises : shared.table.Arises)
    (located : locate settings site name shared = .ok (.ok (entry, document), later)) :
    later.table.Arises ∧ shared.table.entries.size ≤ later.table.entries.size ∧
      entry.id < later.table.entries.size := by
  unfold locate at located
  split at located
  · cases located
  · cases located
  · rename_i path _
    have entered := FileTable.extends_enter shared.table path (some site.fileId)
    have known := FileTable.lt_of_path? (arises.path?_enter path (some site.fileId))
    have read := FileTable.extends_document settings.files
      (shared.table.enter path (some site.fileId)).2
      (shared.table.enter path (some site.fileId)).1.id
    have parsed := (arises.enter path (some site.fileId)).document settings.files
      (shared.table.enter path (some site.fileId)).1.id
    dsimp only at located
    split at located
    · cases located
    · split at located
      · cases located
      · cases located
      · rename_i found
        cases located
        rw [found] at read parsed
        exact ⟨parsed, (entered.trans read).size_le, Nat.lt_of_lt_of_le known read.size_le⟩

/-- A file is not located exactly if something keeps it from being included. -/
theorem locate_refused_iff (arises : shared.table.Arises)
    (known : ∀ id ∈ site.ancestors, id < shared.table.entries.size)
    (room : site.ancestors.length ≤ settings.limits.maxIncludeDepth) :
    (∃ later, locate settings site name shared = .ok (.error problem, later)) ↔
      Obstructed settings site shared.table name problem := by
  have around := fun path => arises.id_enter_mem_iff known path (some site.fileId)
  constructor
  · rintro ⟨later, refused⟩
    unfold locate at refused
    split at refused
    · cases refused
    · rename_i absent
      cases refused
      exact .missing room absent
    · rename_i path found
      dsimp only at refused
      split at refused
      · rename_i cycle
        obtain ⟨id, member, same⟩ := (around path).mp (List.contains_iff_mem.mp cycle)
        have here := same
        rw [← FileTable.path?_of_lt (known id member)] at here
        rw [arises.id_enter here, FileTable.enter_of_known here] at refused
        cases refused
        exact .cyclic room found member same
      · rename_i noCycle
        split at refused
        · rename_i failed
          cases refused
          refine .unreadable room found (fun id member same => noCycle ?_) failed
          exact List.contains_iff_mem.mpr ((around path).mpr ⟨id, member, same⟩)
        · cases refused
        · cases refused
  · intro obstructed
    unfold locate
    cases obstructed with
    | tooDeep deep => exact absurd room (Int.not_le.mpr deep)
    | missing _ absent => exact ⟨_, by rw [absent]⟩
    | @cyclic path id _ found member same =>
      have cycle := List.contains_iff_mem.mpr ((around path).mpr ⟨id, member, same⟩)
      rw [← FileTable.path?_of_lt (known id member)] at same
      refine ⟨{ shared with table := shared.table }, ?_⟩
      rw [found]
      dsimp only
      rw [if_pos cycle, arises.id_enter same, FileTable.enter_of_known same]
    | @unreadable path error table _ found apart failed =>
      have noCycle : ¬site.ancestors.contains
          (shared.table.enter path (some site.fileId)).1.id = true := by
        intro cycle
        obtain ⟨id, member, same⟩ := (around path).mp (List.contains_iff_mem.mp cycle)
        exact apart id member same
      refine ⟨{ shared with table }, ?_⟩
      rw [found]
      dsimp only
      rw [if_neg noCycle, failed]

/-- A file that is obstructed is reported and not included. -/
theorem load_of_obstructed (arises : shared.table.Arises)
    (known : ∀ id ∈ site.ancestors, id < shared.table.entries.size)
    (room : nested.isSome = true ↔ site.ancestors.length ≤ settings.limits.maxIncludeDepth)
    (obstructed : Obstructed settings site shared.table name problem) (anchor : Span) :
    ∃ table, shared.table.Extends table ∧ load settings site nested name anchor shared =
      .ok (none, { shared with
        table, diagnostics := shared.diagnostics.push (problem.reportAt anchor) }) := by
  cases nested with
  | none =>
    refine ⟨shared.table, .refl _, ?_⟩
    have deep : ¬(site.ancestors.length : Int) ≤ settings.limits.maxIncludeDepth :=
      fun shallow => nomatch room.mpr shallow
    cases obstructed with
    | tooDeep => rfl
    | missing shallow => exact absurd shallow deep
    | cyclic shallow => exact absurd shallow deep
    | unreadable shallow => exact absurd shallow deep
  | some reader =>
    obtain ⟨later, located⟩ :=
      (locate_refused_iff arises known (room.mp rfl)).mpr obstructed
    obtain ⟨table, grown, rfl⟩ := later_of_locate located
    refine ⟨table, grown, ?_⟩
    rw [load, located]
    rfl

/-- A file that is not included is obstructed. -/
theorem obstructed_of_load (arises : shared.table.Arises)
    (known : ∀ id ∈ site.ancestors, id < shared.table.entries.size)
    (room : nested.isSome = true ↔ site.ancestors.length ≤ settings.limits.maxIncludeDepth)
    {anchor : Span} (done : load settings site nested name anchor shared = .ok (none, later)) :
    ∃ problem, Obstructed settings site shared.table name problem := by
  cases nested with
  | none =>
    have deep : ¬(site.ancestors.length : Int) ≤ settings.limits.maxIncludeDepth :=
      fun shallow => nomatch room.mpr shallow
    exact ⟨_, .tooDeep (Int.not_le.mp deep)⟩
  | some reader =>
    unfold load at done
    dsimp only at done
    cases located : locate settings site name shared with
    | error abort =>
      rw [located] at done
      cases done
    | ok result =>
      obtain ⟨outcome, middle⟩ := result
      rw [located] at done
      cases outcome with
      | error problem =>
        exact ⟨problem, (locate_refused_iff arises known (room.mp rfl)).mp ⟨middle, located⟩⟩
      | ok found =>
        obtain ⟨entry, document⟩ := found
        cases expansion : reader document (site.ancestors ++ [entry.id]) middle <;>
          simp [bind, Except.bind, pure, Except.pure, expansion] at done

/-- A directive that is not followed to a file stays as it was written, with a report, and the
branch goes on behind it as it is. -/
structure Leaves (before : Branch) (token : Token) (problem : Problem) (after : Branch) : Prop where
  output : ∃ consumed written, before.stream.tokens = consumed ++ after.stream.tokens ∧
    after.output = before.output ++ Scan.enclosed { token with ticket := none } written ∧
    Token.rawText written = Token.rawText consumed
  diagnostics : after.shared.diagnostics =
    before.shared.diagnostics.push (problem.reportAt token.span)
  inclusions : after.inclusions = before.inclusions
  steps : after.steps = before.steps
  aborted : after.aborted = before.aborted
  verbatim : after.verbatim = before.verbatim
  scope : after.shared.scope = before.shared.scope
  table : before.shared.table.Extends after.shared.table
  reportedFiles : after.shared.reportedFiles = before.shared.reportedFiles

section

variable {expand : Document → List FileId → Shared → Except Abort (Document × Shared)}
  {anchor : Span} {later : Shared}

/-- A failure while a file is located ends the expansion. -/
theorem load_of_failed {abort : Abort} (failed : locate settings site name shared = .error abort) :
    load settings site (some expand) name anchor shared = .error abort := by
  unfold load
  dsimp only
  rw [failed]
  rfl

/-- A file that is refused is reported, and nothing is included. -/
theorem load_of_refused {problem : Problem}
    (refused : locate settings site name shared = .ok (.error problem, later)) :
    load settings site (some expand) name anchor shared =
      .ok (none, { later with
        diagnostics := later.diagnostics.push (problem.reportAt anchor) }) := by
  unfold load
  dsimp only
  rw [refused]
  rfl

/-- A file that is located is expanded and included. -/
theorem load_of_located {entry : FileEntry} {document : Document}
    (located : locate settings site name shared = .ok (.ok (entry, document), later)) :
    load settings site (some expand) name anchor shared =
      (expand document (site.ancestors ++ [entry.id]) later).map fun (expanded, last) =>
        (some ⟨entry.id, entry.name, expanded⟩, last) := by
  unfold load
  dsimp only
  rw [located]
  dsimp only [bind, Except.bind]
  cases expand document (site.ancestors ++ [entry.id]) later <;> rfl

end

/-- A quiet attempt leaves what is shared. -/
theorem shared_attempt (branch : Branch) {Result : Type} {scan : Scan Result}
    (quiet : Scan.Quiet scan) : (branch.attempt scan).2.2.shared = branch.shared := by
  have quiet : (scan ⟨branch.stream, [], #[]⟩).2.reports = #[] := quiet.reports _
  unfold attempt
  generalize scan ⟨branch.stream, [], #[]⟩ = outcome at quiet ⊢
  obtain ⟨result, scanner⟩ := outcome
  have quiet : scanner.reports = #[] := quiet
  dsimp only
  rw [quiet, Array.append_empty]

variable {directive : Scan.Directive}

/-- What a branch does at a directive is settled by what the directive leads to. -/
theorem step_of_load (follows : before.follows? token = some directive) :
    before.step settings site nested token =
      (load settings site nested directive.name token.span before.shared).map
        fun (inclusion, shared) =>
          { (before.attempt Scan.inclusion).2.2.write (Scan.enclosed
              { token with ticket := inclusion.map fun _ => before.inclusions.size }
              directive.tokens) with
            inclusions := before.inclusions ++ inclusion.toList
            shared } := by
  obtain ⟨-, -, -, found, -⟩ := follows?_eq_some_iff.mp follows
  rw [step_of_follows follows]
  unfold followDirective
  dsimp only
  rw [found, shared_attempt before Scan.quiet_inclusion]
  dsimp only
  cases load settings site nested directive.name token.span before.shared <;> rfl

/-- A document is opened where a directive is followed to its file. -/
theorem located_of_opens {document : Document} {ancestors : List FileId}
    (opened : before.opens settings site token = some (document, ancestors, later)) :
    ∃ directive entry, before.follows? token = some directive ∧
      locate settings site directive.name before.shared = .ok (.ok (entry, document), later) ∧
      ancestors = site.ancestors ++ [entry.id] := by
  have same := shared_attempt before Scan.quiet_inclusion
  rcases attempted : before.attempt Scan.inclusion with ⟨outcome, consumed, behind⟩
  unfold Branch.opens at opened
  rw [attempted] at opened same
  dsimp only at opened same
  split at opened
  · cases opened
  · rename_i free
    simp only [Bool.or_eq_true, not_or, Bool.not_eq_true, Option.isSome_eq_false_iff,
      Option.isNone_iff_eq_none] at free
    obtain ⟨⟨running, code⟩, unbound⟩ := free
    split at opened
    · rename_i word kind
      split at opened
      · rename_i includes
        obtain ⟨directive, found, located⟩ := Option.bind_eq_some_iff.mp opened
        rw [same] at located
        have follows : before.follows? token = some directive := follows?_eq_some_iff.mpr
          ⟨running, code, unbound, by rw [attempted]; exact found, word, kind, includes⟩
        split at located
        · rename_i entry document shared done
          simp only [Option.some.injEq, Prod.mk.injEq] at located
          obtain ⟨rfl, rfl, rfl⟩ := located
          exact ⟨directive, entry, follows, done, rfl⟩
        · cases located
      · cases opened
    · cases opened

/-- A directive whose file is refused is left in the output, with the problem reported. -/
theorem leaves_of_obstructed (follows : before.follows? token = some directive)
    (arises : before.shared.table.Arises)
    (known : ∀ id ∈ site.ancestors, id < before.shared.table.entries.size)
    (room : nested.isSome = true ↔ site.ancestors.length ≤ settings.limits.maxIncludeDepth)
    (obstructed : Obstructed settings site before.shared.table directive.name problem) :
    ∃ after, before.step settings site nested token = .ok after ∧
      Leaves before token problem after := by
  obtain ⟨-, -, -, found, -⟩ := follows?_eq_some_iff.mp follows
  obtain ⟨table, grown, loaded⟩ := load_of_obstructed arises known room obstructed token.span
  have written := Scan.ensures_inclusion.ensure ⟨before.stream, [], #[]⟩ rfl directive found
  refine ⟨_, by rw [step_of_load follows, loaded]; rfl, ?_⟩
  exact ⟨⟨_, directive.tokens, tokens_attempt before Scan.composes_restores.inclusion, rfl,
    written⟩, rfl,
    by simp, rfl, rfl, rfl, rfl, grown, rfl⟩

/-- A directive that is followed leads to a file, or is obstructed. -/
theorem includes_or_obstructed (follows : before.follows? token = some directive)
    (arises : before.shared.table.Arises)
    (known : ∀ id ∈ site.ancestors, id < before.shared.table.entries.size)
    (room : nested.isSome = true ↔ site.ancestors.length ≤ settings.limits.maxIncludeDepth)
    (done : before.step settings site nested token = .ok after) :
    (∃ inclusion, after.inclusions = before.inclusions.push inclusion) ∨
      ∃ problem, Obstructed settings site before.shared.table directive.name problem := by
  rw [step_of_load follows] at done
  cases loaded : load settings site nested directive.name token.span before.shared with
  | error abort =>
    rw [loaded] at done
    cases done
  | ok result =>
    obtain ⟨inclusion, shared⟩ := result
    rw [loaded] at done
    cases done
    cases inclusion with
    | none => exact .inr (obstructed_of_load arises known room loaded)
    | some inclusion => exact .inl ⟨inclusion, by simp⟩

/-- **A cycle is reported for a directive exactly if**, below the limit on included files, its
name stands for the path of a file around it. -/
theorem cyclic_iff (follows : before.follows? token = some directive)
    (arises : before.shared.table.Arises)
    (known : ∀ id ∈ site.ancestors, id < before.shared.table.entries.size)
    (room : nested.isSome = true ↔ site.ancestors.length ≤ settings.limits.maxIncludeDepth) :
    (∃ after report, before.step settings site nested token = .ok after ∧
        after.inclusions = before.inclusions ∧
        after.shared.diagnostics = before.shared.diagnostics.push report ∧
        report.kind = .cyclicInclude) ↔
      site.ancestors.length ≤ settings.limits.maxIncludeDepth ∧
        ∃ path, before.shared.table.resolve settings.files directive.name site.ancestors =
            .ok (some path) ∧
          ∃ id ∈ site.ancestors, (before.shared.table.entry id).path = some path := by
  constructor
  · rintro ⟨after, report, done, inclusions, diagnostics, kind⟩
    rcases includes_or_obstructed follows arises known room done with
      ⟨inclusion, more⟩ | ⟨problem, obstructed⟩
    · rw [inclusions] at more
      exact absurd (congrArg Array.size more) (by simp)
    · obtain ⟨other, same, leaves⟩ := leaves_of_obstructed follows arises known room obstructed
      cases done.symm.trans same
      have equal := leaves.diagnostics
      rw [diagnostics] at equal
      obtain ⟨rfl, -⟩ := Array.push_eq_push.mp equal
      have kind : problem.kind = .cyclicInclude := kind
      cases obstructed with
      | tooDeep => cases kind
      | missing => cases kind
      | @cyclic path id shallow found around same => exact ⟨shallow, path, found, id, around, same⟩
      | unreadable => cases kind
  · rintro ⟨shallow, path, found, id, around, same⟩
    obtain ⟨after, done, leaves⟩ := leaves_of_obstructed follows arises known room
      (.cyclic shallow found around same)
    exact ⟨after, _, done, leaves.inclusions, leaves.diagnostics, rfl⟩

end Branch

end Expansion

end TexSource
