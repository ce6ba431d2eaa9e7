import TexSource.Proofs.Expansion.Runs
import TexSource.Proofs.Expansion.Tables
import TexSource.Proofs.Relabeling.Branches
import TexSource.Proofs.Relabeling.Labels

/-!
# Expansions that share a file table

It does not matter to an expansion what others did to the file table before (`expand_alike`): two
expansions of one document, with file tables that mirror one file system, come to the same, up to
the numbers of files. They do the same step by step, if the files are labeled as the tables know
them in the end.
-/

namespace TexSource

namespace Expansion

variable {settings : Settings} {final other : FileTable}

/-- Two expansions share the same, up to the numbers of files, and their file tables mirror the
file system. The labels of the files are those of two tables. -/
structure Shared.Alike (files : FileSystem) (final other : FileTable) (shared twin : Shared) :
    Prop where
  same : shared.relabel final.labels = twin.relabel other.labels
  mirrors : shared.table.Mirrors files
  twinMirrors : twin.table.Mirrors files

/-- Two sites have the same files around them, all of them known. -/
structure Site.Alike (final other : FileTable) (shared twin : Shared) (site twinSite : Site) :
    Prop where
  around : site.ancestors.map final.path? = twinSite.ancestors.map other.path?
  base : twinSite.baseDepth = site.baseDepth
  below : ∀ id ∈ site.ancestors, id < shared.table.entries.size
  twinBelow : ∀ id ∈ twinSite.ancestors, id < twin.table.entries.size

/-- The files around two sites stay known. -/
theorem Site.Alike.later {files : FileSystem} {shared twin later twinLater : Shared}
    {site twinSite : Site} (sites : Site.Alike final other shared twin site twinSite)
    (grown : shared.table.Develops files later.table)
    (twinGrown : twin.table.Develops files twinLater.table) :
    Site.Alike final other later twinLater site twinSite where
  around := sites.around
  base := sites.base
  below id member := Nat.lt_of_lt_of_le (sites.below id member) grown.grown.size_le
  twinBelow id member := Nat.lt_of_lt_of_le (sites.twinBelow id member) twinGrown.grown.size_le

/-- A document as it is expanded, with new numbers. -/
def relabelExpanded (relabeling : Relabeling) : Document × Shared → Document × Shared :=
  Prod.map (Document.relabel relabeling) (Shared.relabel relabeling)

/-- Included documents are expanded alike, wherever the files are known. -/
def Nested.Alike (settings : Settings) (final other : FileTable) (nested : Nested) : Prop :=
  ∀ expand ∈ nested, ∀ (document twinDocument : Document) (ancestors twinAncestors : List FileId)
    (shared twin : Shared),
    document.relabel final.labels = twinDocument.relabel other.labels →
    ancestors.map final.path? = twinAncestors.map other.path? →
    (∀ id ∈ ancestors, id < shared.table.entries.size) →
    (∀ id ∈ twinAncestors, id < twin.table.entries.size) →
    Shared.Alike settings.files final other shared twin →
    (sharedOf Prod.snd (expand document ancestors shared)).table.Develops settings.files final →
    (sharedOf Prod.snd (expand twinDocument twinAncestors twin)).table.Develops settings.files
      other →
    relabelOutcome final.labels (relabelExpanded final.labels)
        (expand document ancestors shared) =
      relabelOutcome other.labels (relabelExpanded other.labels)
        (expand twinDocument twinAncestors twin)

namespace Branch

variable {site twinSite : Site} {shared twin : Shared} {name : Text}

/-- What is located, with new numbers. -/
def relabelLocated (relabeling : Relabeling) :
    Except Problem (FileEntry × Document) × Shared →
      Except Problem (FileId × Text × Document) × Shared :=
  Prod.map (Except.map fun (entry, document) =>
      (relabeling.file entry.id, entry.name, document.relabel relabeling))
    (Shared.relabel relabeling)

/-- The directories around a site are those of the paths in the end. -/
theorem map_directory {table : FileTable} {files : FileSystem} {ids : List FileId}
    (mirrors : table.Mirrors files) (settled : table.Develops files final)
    (below : ∀ id ∈ ids, id < table.entries.size) :
    ids.map table.directory =
      (ids.map final.path?).map fun path => (path.map Path.parent).getD final.workingDirectory := by
  rw [List.map_map]
  refine List.map_congr_left fun id member => ?_
  rw [mirrors.directory_eq, ← settled.grown.path? id (below id member),
    ← settled.settings.workingDirectory]
  rfl

theorem map_name {table : FileTable} {files : FileSystem} {ids : List FileId}
    (settled : table.Develops files final) (below : ∀ id ∈ ids, id < table.entries.size) :
    ids.map (fun id => (table.entry id).name) =
      (ids.map final.path?).map fun path => (path.map Path.toText).getD "<stdin>" := by
  rw [List.map_map]
  refine List.map_congr_left fun id member => ?_
  rw [FileTable.name_eq (below id member), ← settled.grown.path? id (below id member)]
  rfl

/-- A name stands for the same file at both sites. -/
theorem resolve_alike (alike : Shared.Alike settings.files final other shared twin)
    (sites : Site.Alike final other shared twin site twinSite)
    (settled : shared.table.Develops settings.files final)
    (twinSettled : twin.table.Develops settings.files other)
    (finals : final.SameSettings other) (name : Text) :
    shared.table.resolve settings.files name site.ancestors =
      twin.table.resolve settings.files name twinSite.ancestors := by
  have root : shared.table.workingDirectory = twin.table.workingDirectory := by
    rw [← settled.settings.workingDirectory, ← twinSettled.settings.workingDirectory,
      finals.workingDirectory]
  refine FileTable.resolve_congr ?_ root name _
  rw [map_directory alike.mirrors settled sites.below,
    map_directory alike.twinMirrors twinSettled sites.twinBelow, sites.around,
    finals.workingDirectory]

/-- A file is among others wherever the files are known. -/
theorem contains_alike {ids twinIds : List FileId} {id twinId : FileId} {path : Path}
    (distinct : final.Distinct) (twinDistinct : other.Distinct) (known : final.path? id = some path)
    (twinKnown : other.path? twinId = some path)
    (same : ids.map final.labels.file = twinIds.map other.labels.file) :
    ids.contains id = twinIds.contains twinId := by
  rw [Bool.eq_iff_iff, List.contains_iff_mem, List.contains_iff_mem,
    FileTable.labels_file_mem_iff distinct known,
    FileTable.labels_file_mem_iff twinDistinct twinKnown,
    same]

/-- What is known of a file that a branch has entered into its table, if the table develops into
the final one. -/
structure Entered (files : FileSystem) (final : FileTable) (site : Site) (path : Path)
    (entered : FileEntry × FileTable) : Prop where
  mirrors : entered.2.Mirrors files
  develops : entered.2.Develops files final
  here : entered.2.path? entered.1.id = some path
  named : entered.1.path = some path
  below : ∀ id ∈ site.ancestors ++ [entered.1.id], id < entered.2.entries.size

/-- A file that is entered has its path, and the files around it stay known. -/
theorem entered_enter {files : FileSystem} (mirrors : shared.table.Mirrors files)
    (below : ∀ id ∈ site.ancestors, id < shared.table.entries.size) (path : Path)
    (develops : (shared.table.enter path (some site.fileId)).2.Develops files final) :
    Entered files final site path (shared.table.enter path (some site.fileId)) where
  mirrors := mirrors.enter path (some site.fileId)
  develops := develops
  here := mirrors.arises.path?_enter path (some site.fileId)
  named := FileTable.path_enter shared.table path (some site.fileId)
  below id member := by
    rcases List.mem_append.mp member with inside | last
    · exact Nat.lt_of_lt_of_le (below id inside) (FileTable.extends_enter ..).size_le
    · rw [List.mem_singleton.mp last]
      exact FileTable.lt_of_path? (mirrors.arises.path?_enter path (some site.fileId))

namespace Entered

variable {files : FileSystem} {path : Path} {entered twinEntered : FileEntry × FileTable}

theorem known (here : Entered files final site path entered) :
    final.path? entered.1.id = some path := by
  rw [here.develops.grown.path? _ (FileTable.lt_of_path? here.here), here.here]

/-- A file with one path is among files with the same paths. -/
theorem contains_eq (here : Entered files final site path entered)
    (there : Entered files other twinSite path twinEntered) {ids twinIds : List FileId}
    (same : ids.map final.labels.file = twinIds.map other.labels.file) :
    ids.contains entered.1.id = twinIds.contains twinEntered.1.id :=
  contains_alike (here.develops.mirrors here.mirrors).arises.distinct
    (there.develops.mirrors there.mirrors).arises.distinct here.known there.known same

/-- The chain of files down to the one that is entered has the same names at both sites. -/
theorem map_name_eq (here : Entered files final site path entered)
    (there : Entered files other twinSite path twinEntered)
    (around : site.ancestors.map final.path? = twinSite.ancestors.map other.path?) :
    (site.ancestors ++ [entered.1.id]).map (fun id => (entered.2.entry id).name) =
      (twinSite.ancestors ++ [twinEntered.1.id]).map fun id => (twinEntered.2.entry id).name := by
  have chain : (site.ancestors ++ [entered.1.id]).map final.path? =
      (twinSite.ancestors ++ [twinEntered.1.id]).map other.path? := by
    rw [List.map_append, List.map_append, around, List.map_singleton, List.map_singleton,
      here.known, there.known]
  rw [map_name here.develops here.below, map_name there.develops there.below, chain]

/-- The file is answered by the same document. -/
theorem document_eq (here : Entered files final site path entered)
    (there : Entered files other twinSite path twinEntered) (finals : final.SameSettings other) :
    Except.map (Document.relabel final.labels) (entered.2.document files entered.1.id).1 =
      Except.map (Document.relabel other.labels)
        (twinEntered.2.document files twinEntered.1.id).1 := by
  rw [here.mirrors.document_eq here.here, there.mirrors.document_eq there.here]
  exact FileTable.fetch_labels files
    ((here.develops.settings.trans finals).trans there.develops.settings.symm) path
    (here.known.trans there.known.symm)

end Entered

/-- **A name locates the same file** at sites that are alike. -/
theorem locate_alike (alike : Shared.Alike settings.files final other shared twin)
    (sites : Site.Alike final other shared twin site twinSite) (finals : final.SameSettings other)
    (settled : (sharedOf Prod.snd (locate settings site name shared)).table.Develops
      settings.files final)
    (twinSettled : (sharedOf Prod.snd (locate settings twinSite name twin)).table.Develops
      settings.files other) :
    relabelOutcome final.labels (relabelLocated final.labels)
        (locate settings site name shared) =
      relabelOutcome other.labels (relabelLocated other.labels)
        (locate settings twinSite name twin) := by
  have resolved := resolve_alike alike sites ((develops_locate ..).trans settled)
    ((develops_locate ..).trans twinSettled) finals name
  have same := alike.same
  rcases found : shared.table.resolve settings.files name site.ancestors with error | _ | path
  · unfold locate
    rw [← resolved, found]
    simp [relabelOutcome, Abort.relabel, same]
  · unfold locate
    rw [← resolved, found]
    simp [relabelOutcome, relabelLocated, Except.map, same]
  · have twinFound := resolved.symm.trans found
    have here := entered_enter alike.mirrors sites.below path ((develops_enter found).trans settled)
    have there := entered_enter alike.twinMirrors sites.twinBelow path
      ((develops_enter twinFound).trans twinSettled)
    unfold locate
    rw [found, twinFound]
    dsimp only
    generalize shared.table.enter path (some site.fileId) = entered at here ⊢
    generalize twin.table.enter path (some twinSite.fileId) = twinEntered at there ⊢
    rw [here.contains_eq there (FileTable.map_labels_file_inj.mpr sites.around),
      here.map_name_eq there sites.around]
    split
    · exact congrArg (fun shared => Except.ok (Except.error _, shared)) same
    · have parsed := here.document_eq there finals
      have reported := here.contains_eq there (congrArg Shared.reportedFiles same)
      generalize entered.2.document settings.files entered.1.id = answer at parsed
      generalize twinEntered.2.document settings.files twinEntered.1.id = twinAnswer at parsed
      obtain ⟨outcome, later⟩ := answer
      obtain ⟨twinOutcome, twinLater⟩ := twinAnswer
      dsimp only at parsed
      rcases map_eq_map parsed with ⟨error, rfl, rfl⟩ | ⟨document, twinDocument, rfl, rfl, agree⟩
      · cases error with
        | file error => exact congrArg (fun shared => Except.ok (Except.error _, shared)) same
        | number error => exact congrArg (fun shared => Except.error (Abort.mk _ shared)) same
        | missingLimit => exact congrArg (fun shared => Except.error (Abort.mk _ shared)) same
      · have labeled : final.labels.file entered.1.id = other.labels.file twinEntered.1.id :=
          FileTable.labels_file_inj.mpr (here.known.trans there.known.symm)
        have name : entered.1.name = twinEntered.1.name := by
          rw [FileEntry.name, FileEntry.name, here.named, there.named]
        have scope := congrArg Shared.scope same
        have diagnostics := congrArg Shared.diagnostics same
        have files := congrArg Shared.reportedFiles same
        have reports := congrArg Document.diagnostics agree
        rw [Document.diagnostics_relabel, Document.diagnostics_relabel] at reports
        simp only [Shared.relabel] at scope diagnostics files
        dsimp only
        rw [reported]
        simp only [relabelOutcome, relabelLocated, Prod.map, Except.map, Shared.relabel, scope,
          files, labeled, name, agree, List.map_cons, map_appendList, diagnostics]
        split
        · rfl
        · rw [reports]

variable {nested : Nested}

/-- What is loaded, with new numbers. -/
def relabelLoaded (relabeling : Relabeling) : Option Inclusion × Shared →
    Option Inclusion × Shared :=
  Prod.map (Option.map (Inclusion.relabel relabeling)) (Shared.relabel relabeling)

theorem relabel_refuse (relabeling : Relabeling) (problem : Problem) (anchor : Span)
    (shared : Shared) :
    Shared.relabel relabeling { shared with
        diagnostics := shared.diagnostics.push (problem.reportAt anchor) } =
      { shared.relabel relabeling with
        diagnostics := (shared.relabel relabeling).diagnostics.push
          (problem.reportAt (anchor.relabel relabeling)) } := by
  simp [Shared.relabel]

theorem below_of_locate {files : FileSystem} {document : Document} {entry : FileEntry}
    {later : Shared} (mirrors : shared.table.Mirrors files)
    (below : ∀ id ∈ site.ancestors, id < shared.table.entries.size)
    (located : locate settings site name shared = .ok (.ok (entry, document), later)) :
    ∀ id ∈ site.ancestors ++ [entry.id], id < later.table.entries.size := by
  obtain ⟨-, grown, inside⟩ := lt_of_locate mirrors.arises located
  intro id member
  rcases List.mem_append.mp member with around | last
  · exact Nat.lt_of_lt_of_le (below id around) grown
  · rwa [List.mem_singleton.mp last]

theorem load_alike (develops : nested.Develops settings)
    (nestedAlike : nested.Alike settings final other)
    (alike : Shared.Alike settings.files final other shared twin)
    (sites : Site.Alike final other shared twin site twinSite) (finals : final.SameSettings other)
    {anchor twinAnchor : Span}
    (anchors : anchor.relabel final.labels = twinAnchor.relabel other.labels)
    (settled : (sharedOf Prod.snd (load settings site nested name anchor shared)).table.Develops
      settings.files final)
    (twinSettled : (sharedOf Prod.snd
      (load settings twinSite nested name twinAnchor twin)).table.Develops settings.files other) :
    relabelOutcome final.labels (relabelLoaded final.labels)
        (load settings site nested name anchor shared) =
      relabelOutcome other.labels (relabelLoaded other.labels)
        (load settings twinSite nested name twinAnchor twin) := by
  cases nested with
  | none =>
    simp only [load, relabelOutcome, relabelLoaded, Prod.map, relabel_refuse, alike.same, anchors]
    rfl
  | some expand =>
    have located := locate_alike alike sites finals
      ((develops_located develops site name anchor shared).trans settled)
      ((develops_located develops twinSite name twinAnchor twin).trans twinSettled)
    have grown := develops_locate settings site name shared
    have twinGrown := develops_locate settings twinSite name twin
    rcases found : locate settings site name shared with
      abort | ⟨problem | ⟨entry, document⟩, later⟩ <;>
      rcases twinFound : locate settings twinSite name twin with
        twinAbort | ⟨twinProblem | ⟨twinEntry, twinDocument⟩, twinLater⟩ <;>
      rw [found, twinFound] at located <;>
      simp only [relabelOutcome, relabelLocated, Prod.map, Except.map, Except.ok.injEq,
        Except.error.injEq, Prod.mk.injEq, reduceCtorEq, false_and] at located
    · rw [load_of_failed found, load_of_failed twinFound]
      exact congrArg Except.error located
    · obtain ⟨rfl, same⟩ := located
      rw [load_of_refused found, load_of_refused twinFound]
      simp only [relabelOutcome, relabelLoaded, Prod.map, relabel_refuse, same, anchors]
      rfl
    · obtain ⟨⟨labeled, named, same⟩, agree⟩ := located
      rw [load_of_located found] at settled ⊢
      rw [load_of_located twinFound] at twinSettled ⊢
      rw [found] at grown
      rw [twinFound] at twinGrown
      have around : (site.ancestors ++ [entry.id]).map final.path? =
          (twinSite.ancestors ++ [twinEntry.id]).map other.path? := by
        simp [sites.around, FileTable.labels_file_inj.mp labeled]
      have expanded := nestedAlike expand rfl document twinDocument (site.ancestors ++ [entry.id])
        (twinSite.ancestors ++ [twinEntry.id]) later twinLater same around
        (below_of_locate alike.mirrors sites.below found)
        (below_of_locate alike.twinMirrors sites.twinBelow twinFound)
        ⟨agree, grown.mirrors alike.mirrors, twinGrown.mirrors alike.twinMirrors⟩
      generalize expand document (site.ancestors ++ [entry.id]) later = result at *
      generalize expand twinDocument (twinSite.ancestors ++ [twinEntry.id]) twinLater =
        twinResult at *
      rcases result with abort | ⟨inside, last⟩ <;>
        rcases twinResult with twinAbort | ⟨twinInside, twinLast⟩ <;>
        have expanded := expanded settled twinSettled <;>
        simp only [relabelOutcome, relabelExpanded, Prod.map, Except.ok.injEq,
          Except.error.injEq, Prod.mk.injEq, reduceCtorEq] at expanded
      · exact congrArg Except.error expanded
      · simp only [relabelOutcome, relabelLoaded, Except.map, Prod.map, Option.map_some,
          Inclusion.relabel, labeled, named, expanded]

variable {branch twinBranch : Branch} {token twinToken : Token}

/-- A branch behind a directive that was followed: the directive is written, with a ticket if its
file was included. -/
def followed (branch : Branch) (token : Token) (directive : Scan.Directive)
    (loaded : Option Inclusion × Shared) : Branch :=
  { (branch.attempt Scan.inclusion).2.2.write (Scan.enclosed
      { token with ticket := loaded.1.map fun _ => branch.inclusions.size } directive.tokens) with
    inclusions := branch.inclusions ++ loaded.1.toList
    shared := loaded.2 }

theorem relabel_followed (relabeling : Relabeling) (directive : Scan.Directive)
    (loaded : Option Inclusion × Shared) :
    (followed branch token directive loaded).relabel relabeling =
      { ((branch.relabel relabeling).attempt Scan.inclusion).2.2.write (Scan.enclosed
          { token.relabel relabeling with
            ticket := (relabelLoaded relabeling loaded).1.map fun _ =>
              (branch.relabel relabeling).inclusions.size }
          (directive.relabel relabeling).tokens) with
        inclusions := (branch.relabel relabeling).inclusions ++
          (relabelLoaded relabeling loaded).1.toList
        shared := (relabelLoaded relabeling loaded).2 } := by
  have written : Scan.enclosed { token.relabel relabeling with
        ticket := (relabelLoaded relabeling loaded).1.map fun _ => branch.inclusions.size }
      (directive.tokens.map (Token.relabel relabeling)) =
        (Scan.enclosed { token with ticket := loaded.1.map fun _ => branch.inclusions.size }
          directive.tokens).map (Token.relabel relabeling) := by
    rw [← Scan.enclosed_relabel]
    obtain ⟨_ | inclusion, shared⟩ := loaded <;> rfl
  have listed : (relabelLoaded relabeling loaded).1.toList =
      loaded.1.toList.map (Inclusion.relabel relabeling) := by
    obtain ⟨_ | inclusion, shared⟩ := loaded <;> rfl
  have count : (branch.relabel relabeling).inclusions.size = branch.inclusions.size :=
    Array.size_map
  have inclusions : (branch.relabel relabeling).inclusions =
      branch.inclusions.map (Inclusion.relabel relabeling) := rfl
  rw [attempt_relabel branch Scan.natural_inclusion, count, listed, inclusions,
    ← map_appendList]
  dsimp only [Scan.Directive.relabel]
  rw [written, write_relabel]
  rfl

/-- What a branch does at a directive that it follows is settled by what is loaded. -/
theorem step_of_follows_eq {directive : Scan.Directive}
    (follows : branch.follows? token = some directive) :
    branch.step settings site nested token =
      (load settings site nested directive.name token.span branch.shared).map
        (followed branch token directive) :=
  step_of_load follows

theorem step_alike (develops : nested.Develops settings)
    (nestedAlike : nested.Alike settings final other)
    (same : branch.relabel final.labels = twinBranch.relabel other.labels)
    (mirrors : branch.shared.table.Mirrors settings.files)
    (twinMirrors : twinBranch.shared.table.Mirrors settings.files)
    (sites : Site.Alike final other branch.shared twinBranch.shared site twinSite)
    (finals : final.SameSettings other)
    (tokens : token.relabel final.labels = twinToken.relabel other.labels)
    (settled : (sharedOf Branch.shared (branch.step settings site nested token)).table.Develops
      settings.files final)
    (twinSettled : (sharedOf Branch.shared
      (twinBranch.step settings twinSite nested twinToken)).table.Develops settings.files other) :
    relabelOutcome final.labels (Branch.relabel final.labels)
        (branch.step settings site nested token) =
      relabelOutcome other.labels (Branch.relabel other.labels)
        (twinBranch.step settings twinSite nested twinToken) := by
  have follows : (branch.follows? token).map (Scan.Directive.relabel final.labels) =
      (twinBranch.follows? twinToken).map (Scan.Directive.relabel other.labels) := by
    rw [← follows?_relabel, ← follows?_relabel, same, tokens]
  cases found : branch.follows? token with
  | none =>
    rw [found] at follows
    have twinFound : twinBranch.follows? twinToken = none := Option.map_eq_none_iff.mp follows.symm
    rw [← @step_relabel _ branch settings site site nested nested token found rfl,
      ← @step_relabel _ twinBranch settings twinSite site nested nested twinToken twinFound
        sites.base.symm, same, tokens]
  | some directive =>
    rw [found] at follows
    obtain ⟨twinDirective, twinFound, directives⟩ := Option.map_eq_some_iff.mp follows.symm
    have named : twinDirective.name = directive.name := by
      simpa [Scan.Directive.relabel] using congrArg Scan.Directive.name directives
    rw [step_of_follows_eq found] at settled ⊢
    rw [step_of_follows_eq twinFound, named] at twinSettled ⊢
    have loaded := @load_alike _ _ _ _ _ _ _ directive.name _ develops nestedAlike
      ⟨congrArg Branch.shared same, mirrors, twinMirrors⟩ sites finals _ _
      (show token.span.relabel final.labels = twinToken.span.relabel other.labels from
        congrArg Token.span tokens)
    generalize load settings site nested directive.name token.span branch.shared = outcome at *
    generalize load settings twinSite nested directive.name twinToken.span twinBranch.shared =
      twinOutcome at *
    rcases outcome with abort | result <;> rcases twinOutcome with twinAbort | twinResult <;>
      have loaded := loaded settled twinSettled <;>
      simp only [relabelOutcome, Except.ok.injEq, Except.error.injEq, reduceCtorEq] at loaded
    · exact congrArg Except.error loaded
    · refine congrArg Except.ok ?_
      rw [relabel_followed, relabel_followed, same, tokens, loaded, directives]

/-- What a step does to the file table is followed by what the rest of the run does to it. -/
theorem develops_rest (develops : nested.Develops settings) {stream : Stream}
    (found : branch.stream.next = (some token, stream)) :
    (sharedOf Branch.shared
      (step settings site nested { branch with stream } token)).table.Develops settings.files
        (sharedOf Branch.shared (run settings site nested branch)).table := by
  cases done : step settings site nested { branch with stream } token with
  | error abort =>
    rw [run_of_failed found done]
    exact .refl ..
  | ok later =>
    rw [run_of_found found done]
    exact develops_run develops site later

/-- **Two branches that agree up to the numbers of files run alike.** -/
theorem run_alike (develops : nested.Develops settings)
    (nestedAlike : nested.Alike settings final other) (finals : final.SameSettings other)
    (branch twinBranch : Branch)
    (same : branch.relabel final.labels = twinBranch.relabel other.labels)
    (mirrors : branch.shared.table.Mirrors settings.files)
    (twinMirrors : twinBranch.shared.table.Mirrors settings.files)
    (sites : Site.Alike final other branch.shared twinBranch.shared site twinSite)
    (settled : (sharedOf Branch.shared (run settings site nested branch)).table.Develops
      settings.files final)
    (twinSettled : (sharedOf Branch.shared
      (run settings twinSite nested twinBranch)).table.Develops settings.files other) :
    relabelOutcome final.labels (Branch.relabel final.labels)
        (run settings site nested branch) =
      relabelOutcome other.labels (Branch.relabel other.labels)
        (run settings twinSite nested twinBranch) := by
  induction branch using (wellFounded_reads settings site nested).induction
    generalizing twinBranch with
  | _ branch ih =>
    have next : (branch.relabel final.labels).stream.next =
        (twinBranch.relabel other.labels).stream.next := by rw [same]
    have front : (branch.relabel final.labels).stream = branch.stream.relabel final.labels := rfl
    have twinFront : (twinBranch.relabel other.labels).stream =
        twinBranch.stream.relabel other.labels := rfl
    rw [front, twinFront, Stream.next_relabel, Stream.next_relabel] at next
    have behind {stream twinStream : Stream}
        (streams : stream.relabel final.labels = twinStream.relabel other.labels) :
        Branch.relabel final.labels { branch with stream } =
          Branch.relabel other.labels { twinBranch with stream := twinStream } :=
      congrArg₂ (fun (branch : Branch) stream => { branch with stream }) same streams
    rcases found : branch.stream.next with ⟨_ | token, stream⟩ <;>
      rcases twinFound : twinBranch.stream.next with ⟨_ | twinToken, twinStream⟩ <;>
      rw [found, twinFound] at next <;>
      simp only [Option.map_none, Option.map_some, Prod.mk.injEq, reduceCtorEq, false_and,
        Option.some.injEq, true_and] at next
    · rw [run_of_finished found, run_of_finished twinFound]
      exact congrArg Except.ok (behind next)
    · have stepped := step_alike develops nestedAlike (behind next.2) mirrors twinMirrors sites
        finals next.1 ((develops_rest develops found).trans settled)
        ((develops_rest develops twinFound).trans twinSettled)
      have grown := develops_step develops site { branch with stream } token
      have twinGrown := develops_step develops twinSite
        { twinBranch with stream := twinStream } twinToken
      cases done : step settings site nested { branch with stream } token with
      | error abort =>
        cases twinDone : step settings twinSite nested { twinBranch with stream := twinStream }
          twinToken with
        | error twinAbort =>
          rw [done, twinDone] at stepped
          rw [run_of_failed found done, run_of_failed twinFound twinDone]
          exact stepped
        | ok twinLater =>
          rw [done, twinDone] at stepped
          cases stepped
      | ok later =>
        cases twinDone : step settings twinSite nested { twinBranch with stream := twinStream }
          twinToken with
        | error twinAbort =>
          rw [done, twinDone] at stepped
          cases stepped
        | ok twinLater =>
          rw [done, twinDone] at stepped
          rw [done] at grown
          rw [twinDone] at twinGrown
          rw [run_of_found found done] at settled ⊢
          rw [run_of_found twinFound twinDone] at twinSettled ⊢
          exact ih later ⟨token, stream, found, done⟩ twinLater (Except.ok.inj stepped)
            (grown.mirrors mirrors) (twinGrown.mirrors twinMirrors) (sites.later grown twinGrown)
            settled twinSettled

end Branch

/-- What two branches leave behind that end alike is the same document, up to labels. -/
theorem result_alike {commands : CommandTable} {document twinDocument : Document}
    {branch twinBranch : Branch}
    (documents : document.relabel final.labels = twinDocument.relabel other.labels)
    (same : branch.relabel final.labels = twinBranch.relabel other.labels) :
    (branch.result commands document).relabel final.labels =
      (twinBranch.result commands twinDocument).relabel other.labels := by
  have output := congrArg (·.output.toList) same
  have inclusions := congrArg Branch.inclusions same
  have source := congrArg Document.source documents
  have number := congrArg Document.fileId documents
  have span := congrArg (·.endOfInput.span) documents
  simp only [Branch.relabel, Array.toList_map] at output inclusions
  simp only [Document.source_relabel, Document.fileId_relabel,
    Document.endOfInput_labels, Token.span_relabel] at source number span
  rw [Branch.relabel_result, Branch.relabel_result, inclusions, source, number, span]
  have tokens : branch.output.toList.map (Token.relabel final.labels) =
      twinBranch.output.toList.map (Token.relabel other.labels) := output
  rw [tokens]
  rfl

theorem expandWith_alike {nested : Nested} (develops : nested.Develops settings)
    (nestedAlike : nested.Alike settings final other) (finals : final.SameSettings other) :
    Nested.Alike settings final other (some (expandWith settings nested)) := by
  intro expand same document twinDocument ancestors twinAncestors shared twin documents around
    below twinBelow alike settled twinSettled
  cases same
  have base : shared.scope.depth = twin.scope.depth := by
    have same := congrArg (fun shared : Shared => shared.scope.depth) alike.same
    exact (Scope.depth_relabel _).symm.trans (same.trans (Scope.depth_relabel _))
  have started : (Branch.start document shared).relabel final.labels =
      (Branch.start twinDocument twin).relabel other.labels := by
    rw [← Branch.start_relabel, ← Branch.start_relabel, documents, alike.same]
  have sites : Site.Alike final other shared twin (siteOf document ancestors shared)
      (siteOf twinDocument twinAncestors twin) := ⟨around, base.symm, below, twinBelow⟩
  have ran := Branch.run_alike develops nestedAlike finals _ _ started alike.mirrors
    alike.twinMirrors sites
  unfold expandWith at settled twinSettled ⊢
  dsimp only [bind, Except.bind] at settled twinSettled ⊢
  generalize Branch.run settings (siteOf document ancestors shared) nested
    (Branch.start document shared) = outcome at *
  generalize Branch.run settings (siteOf twinDocument twinAncestors twin) nested
    (Branch.start twinDocument twin) = twinOutcome at *
  rcases outcome with abort | branch <;> rcases twinOutcome with twinAbort | twinBranch <;>
    have ran := ran settled twinSettled <;>
    simp only [relabelOutcome, Except.ok.injEq, Except.error.injEq, reduceCtorEq] at ran
  · exact congrArg Except.error ran
  · refine congrArg Except.ok (Prod.ext ?_ ?_)
    · exact result_alike documents ran
    · have scope (relabeling : Relabeling) (shared : Shared) (depth : Nat) :
          Shared.relabel relabeling { shared with scope := shared.scope.popTo depth } =
            { shared.relabel relabeling with
              scope := (shared.relabel relabeling).scope.popTo depth } := by
        simp [Shared.relabel, Scope.popTo_relabel]
      have same : branch.shared.relabel final.labels = twinBranch.shared.relabel other.labels :=
        congrArg Branch.shared ran
      simp only [relabelExpanded, Prod.map, siteOf, scope, same, base]

theorem expandIncluded_alike (finals : final.SameSettings other) (room : Nat) :
    (expandIncluded settings room).Alike settings final other := by
  induction room with
  | zero => exact nofun
  | succ room ih => exact expandWith_alike (develops_expandIncluded settings room) ih finals

theorem table_expand (settings : Settings) (document : Document) (scope : Scope)
    (table : FileTable) :
    (expand settings document scope table).table =
      (sharedOf Prod.snd (expandNested settings settings.limits.maxIncludeDepth.toNat document
        [document.fileId] ⟨scope, table, #[], []⟩)).table := by
  unfold expand
  dsimp only
  cases expandNested settings settings.limits.maxIncludeDepth.toNat document [document.fileId]
    ⟨scope, table, #[], []⟩ <;> rfl

theorem develops_expand (settings : Settings) (document : Document) (scope : Scope)
    (table : FileTable) :
    table.Develops settings.files (expand settings document scope table).table := by
  rw [table_expand]
  exact develops_expandWith (develops_expandIncluded settings _) document [document.fileId]
    ⟨scope, table, #[], []⟩

/-- **It does not matter to an expansion what the file table knows already.** With two tables that
mirror one file system a document is expanded to the same, with the same reports, or fails alike, up
to the numbers of the files that it is included from. -/
theorem expand_alike {document twinDocument : Document} {scope : Scope}
    {table twinTable : FileTable} (mirrors : table.Mirrors settings.files)
    (twinMirrors : twinTable.Mirrors settings.files) (same : table.SameSettings twinTable)
    (below : document.fileId < table.entries.size)
    (twinBelow : twinDocument.fileId < twinTable.entries.size)
    (ends : (expand settings document scope table).table = final)
    (twinEnds : (expand settings twinDocument scope twinTable).table = other)
    (documents : document.relabel final.labels = twinDocument.relabel other.labels) :
    (expand settings document scope table).outcome.map
        (Prod.map (Document.relabel final.labels) (List.map (Diagnostic.relabel final.labels))) =
      (expand settings twinDocument scope twinTable).outcome.map
        (Prod.map (Document.relabel other.labels)
          (List.map (Diagnostic.relabel other.labels))) := by
  have grown := develops_expand settings document scope table
  have twinGrown := develops_expand settings twinDocument scope twinTable
  rw [ends] at grown
  rw [twinEnds] at twinGrown
  have finals : final.SameSettings other :=
    (grown.settings.symm.trans same).trans twinGrown.settings
  have labeled : final.path? document.fileId = other.path? twinDocument.fileId := by
    have number := congrArg Document.fileId documents
    rwa [Document.fileId_relabel, Document.fileId_relabel, FileTable.labels_file_inj] at number
  have alike : Shared.Alike settings.files final other ⟨scope, table, #[], []⟩
      ⟨scope, twinTable, #[], []⟩ := ⟨rfl, mirrors, twinMirrors⟩
  rw [table_expand] at ends twinEnds
  have outcomes := expandWith_alike (develops_expandIncluded settings _)
    (expandIncluded_alike finals settings.limits.maxIncludeDepth.toNat) finals _ rfl document
    twinDocument [document.fileId] [twinDocument.fileId] ⟨scope, table, #[], []⟩
    ⟨scope, twinTable, #[], []⟩ documents (by simp [labeled]) (by simpa using below)
    (by simpa using twinBelow) alike (ends ▸ .refl ..) (twinEnds ▸ .refl ..)
  unfold expand expandNested
  dsimp only
  generalize expandWith settings (expandIncluded settings settings.limits.maxIncludeDepth.toNat)
    document [document.fileId] ⟨scope, table, #[], []⟩ = outcome at *
  generalize expandWith settings (expandIncluded settings settings.limits.maxIncludeDepth.toNat)
    twinDocument [twinDocument.fileId] ⟨scope, twinTable, #[], []⟩ = twinOutcome at *
  rcases outcome with abort | ⟨expanded, shared⟩ <;>
    rcases twinOutcome with twinAbort | ⟨twinExpanded, twinShared⟩ <;>
    simp only [relabelOutcome, relabelExpanded, Prod.map, Except.ok.injEq, Except.error.injEq,
      Prod.mk.injEq, reduceCtorEq] at outcomes
  · have cause : abort.cause = twinAbort.cause := by
      simpa [Abort.relabel] using congrArg Abort.cause outcomes
    exact congrArg Except.error cause
  · have reports := congrArg (·.diagnostics.toList) outcomes.2
    simp only [Shared.relabel, Array.toList_map] at reports
    simp only [Except.map, Prod.map, outcomes.1, reports]

end Expansion

end TexSource
