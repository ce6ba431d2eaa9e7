import Mathlib.Data.Countable.Basic
import Mathlib.Data.Fintype.EquivFin
import Mathlib.Data.List.Basic
import Mathlib.Logic.Equiv.List
import TexSource.Proofs.FileTable.Mirrors
import TexSource.Proofs.Relabeling.Parser

/-!
# Paths as numbers of files

Two file tables that know the same file need not know it under the same number. What both know it
under is its path, so a document of either is compared with one of the other after each file got a
number for its path (`FileTable.labels`). The numbers in spans are left out of the comparison.
-/

namespace TexSource

/-- The code points tell glyphs apart, as no character has that of an undecodable byte. -/
theorem Glyph.code_injective : Function.Injective Glyph.code := by
  have apart (character : Char) (offset : Fin 128) :
      character.toNat ≠ 0xDC80 + offset.val := by
    have valid : character.toNat < 0xD800 ∨
        0xDFFF < character.toNat ∧ character.toNat < 0x110000 := character.valid
    omega
  rintro (first | first) (second | second) same
  · rw [Char.toNat_inj.mp same]
  · exact absurd same (apart first second)
  · exact absurd same.symm (apart second first)
  · exact congrArg Glyph.byte (Fin.ext (Nat.add_left_cancel same))

instance : Countable Glyph :=
  Glyph.code_injective.countable

instance : Countable Path := by
  have pairs : Function.Injective fun path : Path =>
      (decide (path.root = .relative), decide (path.root = .slash), path.names) := by
    rintro ⟨root, names⟩ ⟨other, others⟩ same
    obtain ⟨relative, slash, rfl⟩ : decide (root = .relative) = decide (other = .relative) ∧
        decide (root = .slash) = decide (other = .slash) ∧ names = others := by
      simpa using same
    cases root <;> cases other <;> simp_all
  exact pairs.countable

/-- A number for each path, and one for what has no path. -/
noncomputable def Path.number : Option Path → Nat :=
  (exists_injective_nat (Option Path)).choose

theorem Path.number_injective : Function.Injective Path.number :=
  (exists_injective_nat (Option Path)).choose_spec

/-- The numbers that stand for the files of a table wherever they are known. -/
noncomputable def FileTable.labels (table : FileTable) : Relabeling :=
  ⟨fun _ => 0, fun id => Path.number (table.path? id)⟩

namespace FileTable

variable {table other : FileTable} {first second : FileId}

theorem labels_file_inj :
    table.labels.file first = other.labels.file second ↔
      table.path? first = other.path? second :=
  Path.number_injective.eq_iff

theorem map_labels_file_inj {ids others : List FileId} :
    ids.map table.labels.file = others.map other.labels.file ↔
      ids.map table.path? = others.map other.path? := by
  have numbers (table : FileTable) (ids : List FileId) :
      ids.map table.labels.file = (ids.map table.path?).map Path.number := by
    rw [List.map_map]
    rfl
  rw [numbers, numbers]
  exact (List.map_injective_iff.mpr Path.number_injective).eq_iff

/-- A file of a table where each file has one number is found among others by its label. -/
theorem labels_file_mem_iff (distinct : table.Distinct) {path : Path} {id : FileId}
    (known : table.path? id = some path) (ids : List FileId) :
    id ∈ ids ↔ Path.number (some path) ∈ ids.map table.labels.file := by
  rw [← known]
  refine ⟨fun member => List.mem_map.mpr ⟨id, member, rfl⟩, fun member => ?_⟩
  obtain ⟨other, member, same⟩ := List.mem_map.mp member
  have same := Path.number_injective same
  rwa [distinct id other path known (same.trans known)]

end FileTable

/-- Two outcomes that are mapped to the same fail alike, or both succeed. -/
theorem map_eq_map {Error First Second Renamed : Type} {rename : First → Renamed}
    {other : Second → Renamed} {first : Except Error First} {second : Except Error Second}
    (same : first.map rename = second.map other) :
    (∃ error, first = .error error ∧ second = .error error) ∨
      ∃ result twin, first = .ok result ∧ second = .ok twin ∧ rename result = other twin := by
  cases first with
  | error error =>
    cases second with
    | error twin =>
      cases same
      exact .inl ⟨error, rfl, rfl⟩
    | ok twin => cases same
  | ok result =>
    cases second with
    | error twin => cases same
    | ok twin => exact .inr ⟨result, twin, rfl, rfl, Except.ok.inj same⟩

theorem mapError_map {Error Fault First Second : Type} (fail : Error → Fault)
    (change : First → Second) (outcome : Except Error First) :
    (outcome.mapError fail).map change = (outcome.map change).mapError fail := by
  cases outcome <;> rfl

section

variable {Error Fault First Second Later Twin : Type} {related : First → Second → Prop}
  {follow : Later → Twin → Prop}

/-- Two outcomes fail alike, or both succeed with results that are related. -/
inductive Concur (related : First → Second → Prop) :
    Except Error First → Except Error Second → Prop where
  | failed (error : Error) : Concur related (.error error) (.error error)
  | done {result : First} {twin : Second} (holds : related result twin) :
      Concur related (.ok result) (.ok twin)

namespace Concur

variable {first : Except Error First} {second : Except Error Second}

theorem bind {next : First → Except Error Later} {other : Second → Except Error Twin}
    (concur : Concur related first second)
    (later : ∀ result twin, related result twin → Concur follow (next result) (other twin)) :
    Concur follow (first >>= next) (second >>= other) := by
  cases concur with
  | failed error => exact .failed error
  | done holds => exact later _ _ holds

theorem mapError (concur : Concur related first second) (fail : Error → Fault) :
    Concur related (first.mapError fail) (second.mapError fail) := by
  cases concur with
  | failed error => exact .failed _
  | done holds => exact .done holds

theorem eq (concur : Concur related first second) :
    (∃ error, first = .error error ∧ second = .error error) ∨
      ∃ result twin, first = .ok result ∧ second = .ok twin ∧ related result twin := by
  cases concur with
  | failed error => exact .inl ⟨error, rfl, rfl⟩
  | done holds => exact .inr ⟨_, _, rfl, rfl, holds⟩

theorem mono {other : First → Second → Prop} (concur : Concur related first second)
    (implies : ∀ result twin, related result twin → other result twin) :
    Concur other first second := by
  cases concur with
  | failed error => exact .failed error
  | done holds => exact .done (implies _ _ holds)

theorem of_map_eq {Renamed : Type} {rename : First → Renamed} {other : Second → Renamed}
    (same : first.map rename = second.map other) :
    Concur (fun result twin => rename result = other twin) first second := by
  rcases map_eq_map same with ⟨error, rfl, rfl⟩ | ⟨result, twin, rfl, rfl, agree⟩
  · exact .failed error
  · exact .done agree

/-- A result that is used only where it agrees. -/
theorem refl (outcome : Except Error First) : Concur Eq outcome outcome := by
  cases outcome with
  | error error => exact .failed error
  | ok result => exact .done rfl

/-- Steps that concur, one after the other. -/
theorem foldlM {Entry Other : Type} {alike : Entry → Other → Prop} {entries : List Entry}
    {others : List Other} {step : First → Entry → Except Error First}
    {twinStep : Second → Other → Except Error Second}
    (pairs : List.Forall₂ alike entries others)
    (steps : ∀ result twin entry other, related result twin → alike entry other →
      Concur related (step result entry) (twinStep twin other))
    {result : First} {twin : Second} (holds : related result twin) :
    Concur related (entries.foldlM step result) (others.foldlM twinStep twin) := by
  induction pairs generalizing result twin with
  | nil => exact .done holds
  | cons pair _ ih =>
    rw [List.foldlM_cons, List.foldlM_cons]
    exact (steps _ _ _ _ holds pair).bind fun _ _ holds => ih holds

end Concur

end

/-- Labels leave no number in spans, as the token has none that stands for the end of no input. -/
theorem Document.endOfInput_labels (table : FileTable) (document : Document) :
    (document.relabel table.labels).endOfInput = document.endOfInput.relabel table.labels := by
  rw [endOfInput, endOfInput, tokens_relabel, List.getLast?_map]
  cases document.tokens.getLast? <;> rfl

/-- **A text is parsed under two numbers of one file as one document**, up to labels. -/
theorem Document.parse_labels {table other : FileTable} {first second : FileId}
    (same : table.path? first = other.path? second) (source : Text) (catcodes : Catcode.Table)
    (commands : CommandTable) :
    (parse source catcodes commands first).map (relabel table.labels) =
      (parse source catcodes commands second).map (relabel other.labels) := by
  have spans : table.labels.span first = other.labels.span second := rfl
  exact parse_congr spans (FileTable.labels_file_inj.mpr same) source catcodes commands

/-- A text is parsed under two numbers as documents that differ in their numbers only. -/
theorem Document.concur_parse (source : Text) (catcodes : Catcode.Table) (commands : CommandTable)
    (first second : FileId) :
    Concur (fun document twin => document.fileId = first ∧ twin.fileId = second ∧
        document.Twins twin)
      (parse source catcodes commands first) (parse source catcodes commands second) := by
  have same {relabeling other : Relabeling} (spans : relabeling.span first = other.span second)
      (files : relabeling.file first = other.file second) :=
    parse_congr spans files source catcodes commands
  have level := @same ⟨fun _ => 0, fun _ => 0⟩ ⟨fun _ => 0, fun _ => 0⟩ rfl rfl
  rcases map_eq_map level with ⟨error, parsed, twinParsed⟩ | ⟨document, twin, parsed, twinParsed, -⟩
  · rw [parsed, twinParsed]
    exact .failed error
  · have number := fileId_of_parse parsed
    have twinNumber := fileId_of_parse twinParsed
    rw [parsed, twinParsed]
    refine .done ⟨number, twinNumber, fun relabeling other spans files => ?_⟩
    rw [number, twinNumber] at spans files
    have documents := same spans files
    rw [parsed, twinParsed] at documents
    exact Except.ok.inj documents

/-- **A file that is read and parsed under two numbers gives one document**, up to labels. -/
theorem FileTable.fetch_labels {table final other otherFinal : FileTable}
    (files : FileSystem) (settings : table.SameSettings other) (path : Path)
    {first second : FileId} (same : final.path? first = otherFinal.path? second) :
    (fetch files table path first).map (Document.relabel final.labels) =
      (fetch files other path second).map (Document.relabel otherFinal.labels) := by
  rw [settings.fetch_eq]
  unfold fetch
  cases files.read path with
  | error error => rfl
  | ok contents =>
    dsimp only
    rw [mapError_map, mapError_map, Document.parse_labels same]

end TexSource
