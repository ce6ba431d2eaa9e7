import TexSource.CommandLine.Session
import TexSource.Proofs.Expansion.Sharing
import TexSource.Proofs.Relabeling.Dependencies
import TexSource.Proofs.Relabeling.Views

/-!
# Inputs of one run

The inputs of a run do not influence each other (`run_eq_separately`): what the run writes is what
runs for the single inputs write, in order, and it ends with an error if one of them does. They
share a file table, which mirrors the file system throughout; so it does not matter to an input what
the table knows already, up to the numbers of files, which are not written.
-/

namespace TexSource

namespace FileTable

variable {files : FileSystem} {table other : FileTable}

/-- A file that is read and parsed under two numbers gives two documents that differ in their
numbers only. -/
theorem concur_fetch (files : FileSystem) (same : table.SameSettings other) (path : Path)
    (first second : FileId) :
    Concur (fun document twin => document.fileId = first ∧ twin.fileId = second ∧
        document.Twins twin)
      (fetch files table path first) (fetch files other path second) := by
  rw [same.fetch_eq]
  unfold fetch
  cases files.read path with
  | error error => exact .failed _
  | ok contents => exact (Document.concur_parse ..).mapError _

theorem twins_unreadableDocument (first second : FileId) (path : Path) (error : FileError) :
    (unreadableDocument first path error).Twins (unreadableDocument second path error) := by
  intro relabeling twin spans numbers
  have spans : relabeling.span first = twin.span second := spans
  have numbers : relabeling.file first = twin.file second := numbers
  unfold unreadableDocument
  simp only [Document.relabel_withDiagnostics, Document.relabel_ofTokens, List.map_nil, spans,
    numbers, List.map_cons, Problem.relabel_reportAt, Span.relabel, Span.emptyAt]

/-- What is loaded from two tables: documents that differ in their numbers only, of files that both
tables know under one path. -/
structure Loaded (table other : FileTable) (document twin : Document) : Prop where
  twins : document.Twins twin
  path : table.path? document.fileId = other.path? twin.fileId
  below : document.fileId < table.entries.size
  twinBelow : twin.fileId < other.entries.size

theorem develops_load (files : FileSystem) (table : FileTable) (path : Path) :
    table.Develops files (table.load files path).2 := by
  unfold FileTable.load FileTable.register
  cases canonicalPath files path with
  | error error => exact .refl ..
  | ok canonical =>
    dsimp only [bind, Except.bind, pure, Except.pure]
    have parsed := Develops.document files (table.enter canonical none).2
      (table.enter canonical none).1.id
    refine (Develops.enter files table canonical none).trans ?_
    generalize (table.enter canonical none).2.document files
      (table.enter canonical none).1.id = result at parsed
    rcases result with ⟨(error | error | _) | document, later⟩ <;> exact parsed

/-- **A main file is loaded as the same document into every table that mirrors the file system**,
save for its number. -/
theorem concur_load (mirrors : table.Mirrors files) (twinMirrors : other.Mirrors files)
    (same : table.SameSettings other) (path : Path) :
    Concur (Loaded (table.load files path).2 (other.load files path).2)
      (table.load files path).1 (other.load files path).1 := by
  unfold FileTable.load FileTable.register
  cases canonicalPath files path with
  | error error => exact .failed _
  | ok canonical =>
    dsimp only [bind, Except.bind, pure, Except.pure]
    have known := mirrors.arises.path?_enter canonical none
    have twinKnown := twinMirrors.arises.path?_enter canonical none
    have entered := mirrors.enter canonical none
    have twinEntered := twinMirrors.enter canonical none
    have settings := (SameSettings.enter table canonical none).symm.trans
      (same.trans (SameSettings.enter other canonical none))
    generalize table.enter canonical none = result at *
    generalize other.enter canonical none = twinResult at *
    obtain ⟨entry, table⟩ := result
    obtain ⟨twinEntry, other⟩ := twinResult
    dsimp only at *
    have fetched := concur_fetch files settings canonical entry.id twinEntry.id
    rw [← entered.document_eq known, ← twinEntered.document_eq twinKnown] at fetched
    have grown := extends_document files table entry.id
    have twinGrown := extends_document files other twinEntry.id
    have below := lt_of_path? known
    have twinBelow := lt_of_path? twinKnown
    have paths : (table.document files entry.id).2.path? entry.id =
        (other.document files twinEntry.id).2.path? twinEntry.id := by
      rw [grown.path? _ below, twinGrown.path? _ twinBelow, known, twinKnown]
    have below := Nat.lt_of_lt_of_le below grown.size_le
    have twinBelow := Nat.lt_of_lt_of_le twinBelow twinGrown.size_le
    generalize table.document files entry.id = outcome at *
    generalize other.document files twinEntry.id = twinOutcome at *
    obtain ⟨outcome, later⟩ := outcome
    obtain ⟨twinOutcome, twinLater⟩ := twinOutcome
    dsimp only at *
    cases fetched with
    | failed error =>
      cases error with
      | file error =>
        exact .done ⟨twins_unreadableDocument _ _ _ error, paths, below, twinBelow⟩
      | number error => exact .failed _
      | missingLimit => exact .failed _
    | done holds =>
      obtain ⟨number, twinNumber, twins⟩ := holds
      exact .done ⟨twins, by rw [number, twinNumber, paths], by rwa [number], by rwa [twinNumber]⟩

/-- The document of the anonymous input is that of the contents it was given. -/
theorem document_setSource (mirrors : table.Mirrors files) (contents : List UInt8) :
    ((table.setSource 0 contents).document files 0).1 =
      (Document.parse (Text.decode contents) (Catcode.Table.ofOverrides table.catcodes)
        table.commands 0).mapError .number := by
  have sound := mirrors.arises.sound
  exact sound.document_setSource files (by rw [sound.id_entry, if_pos sound.anonymous]) contents

/-- **The standard input is loaded as the same document into every table.** -/
theorem concur_document_setSource (mirrors : table.Mirrors files)
    (twinMirrors : other.Mirrors files) (same : table.SameSettings other)
    (contents : List UInt8) :
    Concur (Loaded ((table.setSource 0 contents).document files 0).2
        ((other.setSource 0 contents).document files 0).2)
      ((table.setSource 0 contents).document files 0).1
      ((other.setSource 0 contents).document files 0).1 := by
  have later := (mirrors.setSource contents).document 0
  have twinLater := (twinMirrors.setSource contents).document 0
  rw [document_setSource mirrors, document_setSource twinMirrors, same.catcodes, same.commands]
  refine ((Document.concur_parse _ _ _ 0 0).mapError _).mono fun document twin holds => ?_
  obtain ⟨number, twinNumber, twins⟩ := holds
  refine ⟨twins, ?_, ?_, ?_⟩
  · rw [number, twinNumber, later.anonymous, twinLater.anonymous]
  · rw [number]
    exact later.arises.sound.anonymous
  · rw [twinNumber]
    exact twinLater.arises.sound.anonymous

end FileTable

namespace CommandLine

namespace Session

variable {options : Options} {files : FileSystem} {name : Text} {base first second : Session}

def failed (session : Session) : Bool :=
  session.diagnostics.any Diagnostic.isError

/-- One session goes on from a base with an input as another goes on from nothing: both have written
the same since, and both or none have reported an error since. -/
structure Continues (files : FileSystem) (name : Text) (base first second : Session) : Prop where
  unread : name ≠ standardInput → first.unread = base.unread
  settings : base.table.SameSettings first.table
  mirrors : first.table.Mirrors files
  twinMirrors : second.table.Mirrors files
  same : first.table.SameSettings second.table
  output : first.output = base.output ++ second.output
  failed : first.failed = (base.failed || second.failed)

namespace Continues

variable (continues : Continues files name base first second)

include continues

theorem write (text : Text) : Continues files name base (first.write text) (second.write text) :=
  { continues with output := by simp [Session.write, continues.output] }

theorem writeTree (options : Options) (document twin : Document) :
    Continues files name base (first.writeTree options document)
      (second.writeTree options twin) := by
  unfold Session.writeTree
  split
  · exact { continues with }
  · exact continues

theorem report {diagnostics others : List Diagnostic}
    (alike : diagnostics.any Diagnostic.isError = others.any Diagnostic.isError) :
    Continues files name base (first.report diagnostics) (second.report others) := by
  refine { continues with failed := ?_ }
  have failed := continues.failed
  unfold Session.failed at failed
  simp only [Session.failed, Session.report, Array.any_append, List.any_toArray, alike, failed,
    Bool.or_assoc]

theorem develop {table other : FileTable} (develops : first.table.Develops files table)
    (twinDevelops : second.table.Develops files other) :
    Continues files name base { first with table } { second with table := other } where
  unread := continues.unread
  settings := continues.settings.trans develops.settings
  mirrors := develops.mirrors continues.mirrors
  twinMirrors := twinDevelops.mirrors continues.twinMirrors
  same := (develops.settings.symm.trans continues.same).trans twinDevelops.settings
  output := continues.output
  failed := continues.failed

/-- The standard input is taken. -/
theorem consume (input : name = standardInput) :
    Continues files name base { first with unread := [] } { second with unread := [] } :=
  { continues with unread := fun other => absurd input other }

end Continues

@[simp] theorem table_writeTree (session : Session) (options : Options) (document : Document) :
    (session.writeTree options document).table = session.table := by
  unfold Session.writeTree
  split <;> rfl

/-- Documents that differ in the numbers of files have as many errors reported. -/
theorem any_isError_of_relabel {relabeling other : Relabeling}
    {diagnostics others : List Diagnostic}
    (same : diagnostics.map (Diagnostic.relabel relabeling) =
      others.map (Diagnostic.relabel other)) :
    diagnostics.any Diagnostic.isError = others.any Diagnostic.isError := by
  have alike := congrArg (List.any · Diagnostic.isError) same
  simpa [List.any_map, Function.comp_def] using alike

/-- **An input is read as the same document in both sessions**, save for its number. -/
theorem concur_load (continues : Continues files name base first second)
    (unread : name = standardInput → first.unread = second.unread) :
    Concur (fun loaded twin => Continues files name base loaded.2 twin.2 ∧
        FileTable.Loaded loaded.2.table twin.2.table loaded.1 twin.1)
      (first.load files name) (second.load files name) := by
  have reports {table other : FileTable} {document twin : Document}
      (loaded : FileTable.Loaded table other document twin) :
      document.diagnostics.any Diagnostic.isError = twin.diagnostics.any Diagnostic.isError := by
    have same := congrArg Document.diagnostics loaded.twins.level
    rw [Document.diagnostics_relabel, Document.diagnostics_relabel] at same
    exact any_isError_of_relabel same
  unfold Session.load
  by_cases input : name = standardInput
  · rw [if_pos input, if_pos input, unread input]
    have given := FileTable.Develops.setSource files first.table second.unread
    have twinGiven := FileTable.Develops.setSource files second.table second.unread
    have concur := FileTable.concur_document_setSource continues.mirrors continues.twinMirrors
      continues.same second.unread
    have parsed := given.trans (FileTable.Develops.document files _ 0)
    have twinParsed := twinGiven.trans (FileTable.Develops.document files _ 0)
    refine (concur.mapError _).bind fun document twin loaded => .done ⟨?_, loaded⟩
    exact ((continues.develop parsed twinParsed).consume input).report (reports loaded)
  · rw [if_neg input, if_neg input]
    have concur := FileTable.concur_load continues.mirrors continues.twinMirrors continues.same
      (Path.ofText name)
    refine (concur.mapError _).bind fun document twin loaded => .done ⟨?_, loaded⟩
    exact (continues.develop (FileTable.develops_load ..) (FileTable.develops_load ..)).report
      (reports loaded)

/-- What two sessions have expanded to: documents that are the same under labels. -/
def Expanded (files : FileSystem) (name : Text) (base : Session)
    (expanded twin : Document × Session) : Prop :=
  Continues files name base expanded.2 twin.2 ∧
    expanded.1.relabel expanded.2.table.labels = twin.1.relabel twin.2.table.labels

/-- **A document is expanded alike in both sessions.** -/
theorem concur_expand (continues : Continues files name base first second) (options : Options)
    {document twin : Document}
    (loaded : FileTable.Loaded first.table second.table document twin) :
    Concur (Expanded files name base) (first.expand options files document)
      (second.expand options files twin) := by
  unfold Session.expand
  refine (Concur.refl _).bind fun scope same equal => ?_
  subst equal
  dsimp only
  have grown := Expansion.develops_expand ⟨files, options.limits, options.commands⟩ document scope
    first.table
  have twinGrown := Expansion.develops_expand ⟨files, options.limits, options.commands⟩ twin scope
    second.table
  have paths : (Expansion.expand ⟨files, options.limits, options.commands⟩ document scope
      first.table).table.path? document.fileId =
        (Expansion.expand ⟨files, options.limits, options.commands⟩ twin scope
          second.table).table.path? twin.fileId := by
    rw [grown.grown.path? _ loaded.below, twinGrown.grown.path? _ loaded.twinBelow, loaded.path]
  have alike := Expansion.expand_alike continues.mirrors continues.twinMirrors continues.same
    loaded.below loaded.twinBelow rfl rfl
    (loaded.twins _ _ rfl (FileTable.labels_file_inj.mpr paths))
  refine ((Concur.of_map_eq alike).mapError _).bind fun expanded twinExpanded same => .done ⟨?_, ?_⟩
  · refine Continues.writeTree ?_ ..
    exact (continues.develop grown twinGrown).report
      (any_isError_of_relabel (congrArg Prod.snd same))
  · dsimp only
    rw [table_writeTree, table_writeTree]
    exact congrArg Prod.fst same

/-- **The files that a document refers to are listed alike in both sessions.** -/
theorem concur_dependencies (options : Options) {expanded twin : Document × Session}
    (alike : Expanded files name base expanded twin) :
    Concur (Continues files name base)
      (do
        let (paths, diagnostics) ← (Dependency.collect files expanded.2.table
          Dependency.standardRules expanded.1).mapError Failure.dependencies
        return (expanded.2.reportUnreported diagnostics).write
          (if options.group then grouped paths else listed paths))
      (do
        let (paths, diagnostics) ← (Dependency.collect files twin.2.table
          Dependency.standardRules twin.1).mapError Failure.dependencies
        return (twin.2.reportUnreported diagnostics).write
          (if options.group then grouped paths else listed paths)) := by
  obtain ⟨continues, documents⟩ := alike
  have concur := Dependency.concur_collect continues.mirrors continues.twinMirrors continues.same
    Dependency.standardRules documents
  refine (concur.mapError _).bind fun found others same => .done ?_
  obtain ⟨paths, harmless, twinHarmless⟩ := same
  rw [paths]
  refine (continues.report ?_).write _
  have none {diagnostics : List Diagnostic} (harmless : ∀ diagnostic ∈ diagnostics,
      diagnostic.isError = false) (keep : Diagnostic → Bool) :
      (diagnostics.filter keep).any Diagnostic.isError = false :=
    List.any_eq_false.mpr fun diagnostic member => by
      simp [harmless diagnostic (List.mem_of_mem_filter member)]
  rw [none harmless, none twinHarmless]

/-- The stretches that are asked for, as they are written. -/
def shown (categories : List Highlight.Category) (source : Array UInt8)
    (found : List Highlight.Stretch) : Text :=
  (found.filter fun stretch => categories = [] || categories.contains stretch.category).flatMap
    fun ⟨span, category⟩ =>
      let bytes := (source.extract span.start.offset span.stop.offset).toList
      line <| place span.start ++ "-" ++ place span.stop ++ "\t" ++ category.name ++ "\t" ++
        (Text.decode bytes).quoted

theorem shown_relabel (relabeling : Relabeling) (categories : List Highlight.Category)
    (source : Array UInt8) (found : List Highlight.Stretch) :
    shown categories source (found.map (Highlight.Stretch.relabel relabeling)) =
      shown categories source found := by
  rw [shown, List.filter_map, List.flatMap_map]
  rfl

theorem stretches_eq {document twin : Document} (twins : document.Twins twin)
    (categories : List Highlight.Category) :
    stretches categories document = stretches categories twin := by
  obtain ⟨relabeling, other, same⟩ := twins.highlight_eq
  have shape (document : Document) : stretches categories document =
      shown categories document.source.encode.toArray document.highlight := rfl
  rw [shape, shape, twins.source_eq, ← shown_relabel relabeling, same, shown_relabel]

/-- **What an input adds to a session does not depend on the inputs before it.** -/
theorem concur_runInput (treeless : options.subcommand ≠ .parse)
    (continues : Continues files name base first second)
    (unread : name = standardInput → first.unread = second.unread) :
    Concur (Continues files name base) (runInput options files first name)
      (runInput options files second name) := by
  unfold runInput
  refine (concur_load continues unread).bind fun loaded twin both => ?_
  obtain ⟨continues, loaded⟩ := both
  dsimp only
  cases subcommand : options.subcommand with
  | parse => exact absurd subcommand treeless
  | highlight =>
    dsimp only
    rw [stretches_eq loaded.twins]
    exact .done ((continues.write _).writeTree ..)
  | format =>
    dsimp only
    rw [loaded.twins.hasCode_eq, loaded.twins.format_eq]
    split
    · exact .failed _
    · exact .done ((continues.write _).writeTree ..)
  | check =>
    exact (concur_expand continues options loaded).bind fun _ _ alike => .done alike.1
  | expand =>
    refine (concur_expand continues options loaded).bind fun expanded other alike => .done ?_
    have text := congrArg Document.sourceText alike.2
    rw [Document.sourceText_relabel, Document.sourceText_relabel] at text
    rw [text]
    exact alike.1.write _
  | dependencies =>
    exact (concur_expand continues options loaded).bind fun _ _ alike =>
      concur_dependencies options alike

variable {bytes : List UInt8}

theorem failed_start : (Session.start options files bytes).failed = false := by
  simp [Session.failed, Session.start]

/-- An input is taken from any session as it is taken from a new one. -/
theorem Continues.start {session : Session} (mirrors : session.table.Mirrors files)
    (same : session.table.SameSettings (Session.start options files bytes).table) :
    Continues files name session session (Session.start options files bytes) where
  unread _ := rfl
  settings := .refl _
  mirrors := mirrors
  twinMirrors := .empty ..
  same := same
  output := (List.append_nil _).symm
  failed := by rw [failed_start, Bool.or_false]

/-- What inputs add to a session is what each of them adds to a new one. -/
theorem foldlM_runInput (treeless : options.subcommand ≠ .parse) {session : Session}
    (mirrors : session.table.Mirrors files)
    (same : session.table.SameSettings (Session.start options files bytes).table)
    {names : List Text} (once : names.count standardInput ≤ 1)
    (unread : standardInput ∈ names → session.unread = bytes) :
    (names.foldlM (runInput options files) session).map
        (fun later => (later.output, later.failed)) =
      (names.mapM (runInput options files (Session.start options files bytes))).map fun alone =>
        (session.output ++ alone.flatMap Session.output,
          session.failed || alone.any Session.failed) := by
  induction names generalizing session with
  | nil => simp [Except.map, pure, Except.pure]
  | cons name rest ih =>
    have starts : Continues files name session session (Session.start options files bytes) :=
      .start mirrors same
    have concur := concur_runInput treeless starts fun input => unread (by simp [input])
    rw [List.foldlM_cons, List.mapM_cons]
    rcases concur.eq with ⟨failure, taken, twin⟩ | ⟨later, alone, taken, twin, continues⟩
    · rw [taken, twin]
      rfl
    · have kept (member : standardInput ∈ rest) : later.unread = bytes := by
        have count := List.count_pos_iff.mpr member
        have other : name ≠ standardInput := by
          rintro rfl
          rw [List.count_cons_self] at once
          omega
        rw [continues.unread other]
        exact unread (List.mem_cons_of_mem _ member)
      have fewer := Nat.le_trans (List.count_le_count_cons) once
      have others := ih continues.mirrors (continues.settings.symm.trans same) fewer kept
      rw [taken, twin]
      dsimp only [bind, Except.bind]
      rw [others, continues.output, continues.failed]
      cases rest.mapM (runInput options files (Session.start options files bytes)) with
      | error failure => rfl
      | ok outcomes => simp [Except.map, pure, Except.pure, Bool.or_assoc]

end Session

variable {options : Options} {files : FileSystem} {bytes : List UInt8}

theorem mapM_map {Entry Error Middle Result : Type} (take : Entry → Except Error Middle)
    (change : Middle → Result) (entries : List Entry) :
    entries.mapM (fun entry => (take entry).map change) =
      (entries.mapM take).map (List.map change) := by
  induction entries with
  | nil => rfl
  | cons entry rest ih =>
    rw [List.mapM_cons, List.mapM_cons, ih]
    cases take entry with
    | error error => rfl
    | ok middle => cases rest.mapM take <;> rfl

theorem exitCode_outcome (session : Session) :
    session.outcome.exitCode = if session.failed then 1 else 0 := by
  simp [Session.outcome, Session.failed]

/-- **The inputs of a run do not influence each other.** What a run writes is what runs for its
inputs alone write, one after the other, and it ends with an error if one of them does. If it
fails, it fails as the first of them that fails. -/
theorem run_eq_separately (options : Options) (files : FileSystem) (bytes : List UInt8)
    (treeless : options.subcommand ≠ .parse) (once : options.inputs.count standardInput ≤ 1) :
    (run options files bytes).map (fun outcome => (outcome.output, outcome.exitCode)) =
      (options.inputs.mapM fun name => run { options with inputs := [name] } files bytes).map
        fun alone => (alone.flatMap Outcome.output,
          if alone.any (fun outcome => outcome.exitCode = 1) then 1 else 0) := by
  have single (name : Text) : run { options with inputs := [name] } files bytes =
      (Session.runInput options files (Session.start options files bytes) name).map
        Session.outcome := by
    unfold run
    rw [List.foldlM_cons]
    change ((Session.runInput options files (Session.start options files bytes) name).bind
      Except.ok).bind _ = _
    cases Session.runInput options files (Session.start options files bytes) name <;> rfl
  have mirrors : (Session.start options files bytes).table.Mirrors files := .empty ..
  have taken := Session.foldlM_runInput treeless mirrors (.refl _) once fun _ => rfl
  have alone : (options.inputs.mapM fun name => run { options with inputs := [name] } files bytes) =
      (options.inputs.mapM (Session.runInput options files (Session.start options files bytes))).map
        (List.map Session.outcome) := by
    rw [← mapM_map]
    exact congrArg (options.inputs.mapM ·) (funext single)
  have whole : run options files bytes =
      (options.inputs.foldlM (Session.runInput options files)
        (Session.start options files bytes)).map Session.outcome := by
    unfold run
    cases options.inputs.foldlM (Session.runInput options files)
      (Session.start options files bytes) <;> rfl
  rw [alone, whole]
  rcases map_eq_map taken with ⟨failure, ended, others⟩ | ⟨session, sessions, ended, others, both⟩
  · rw [ended, others]
    rfl
  · rw [Prod.mk.injEq] at both
    obtain ⟨output, failed⟩ := both
    have written : session.output = (sessions.map Session.outcome).flatMap Outcome.output := by
      rw [output, List.flatMap_map]
      rfl
    have ends : (sessions.map Session.outcome).any (fun outcome => outcome.exitCode = 1) =
        session.failed := by
      have ending (session : Session) : decide (session.outcome.exitCode = 1) = session.failed := by
        rw [exitCode_outcome]
        cases session.failed <;> rfl
      rw [failed, Session.failed_start, Bool.false_or, List.any_map]
      exact congrArg (sessions.any ·) (funext ending)
    rw [ended, others]
    simp only [Except.map, ends, exitCode_outcome, ← written]
    rfl

/-- A run that formats the standard input and a file that is missing. -/
def formatBoth : Options where
  subcommand := .format
  inputs := [standardInput, "gone"]
  commands := .standard
  limits := {}
  preamble := []
  layout := .standard
  lacksIndent := false
  categories := []
  group := false
  debug := false

/-- The text is written, and the missing file is an error. -/
theorem run_eq_separately_formatBoth :
    (run formatBoth Expansion.noFiles [97]).map
      (fun outcome => (outcome.output, outcome.exitCode)) =
      .ok ("a\n", 1) := by
  rw [run_eq_separately formatBoth Expansion.noFiles [97] (by decide) (by decide)]
  decide +kernel

end CommandLine

end TexSource
