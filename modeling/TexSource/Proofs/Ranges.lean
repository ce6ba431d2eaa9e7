import TexSource.Buffer
import TexSource.Proofs.Document.Reports
import TexSource.Proofs.Expansion.Reports
import TexSource.Proofs.FileTable.Mirrors
import TexSource.Proofs.Highlight
import TexSource.Proofs.Lines

/-!
# Ranges of a buffer

An editor counts the characters of a line in units of sixteen bits, of which a character beyond the
basic plane takes two. A position counts glyphs. So the range of a report designates the text of its
span as long as every glyph before an end, on the line of that end, takes one unit
(`Buffer.covers_range`). Behind a wider glyph it designates another part of the line
(`Buffer.not_covers_range_wideGlyph`).
-/

namespace TexSource

/-- The units of sixteen bits that a glyph takes. -/
def Glyph.units (glyph : Glyph) : Nat :=
  if glyph.code < 0x10000 then 1 else 2

namespace Text

/-- The index behind a number of lines and, on the next one, a number of units. More units than the
line has lead to its end, and there is no place between the two units of a glyph. -/
def indexBehind : Text → (lines units : Nat) → Option Nat
  | [], 0, _ => some 0
  | [], _ + 1, _ => none
  | _ :: _, 0, 0 => some 0
  | glyph :: rest, 0, units + 1 =>
    if glyph.isLineEnd then some 0
    else if units + 1 < glyph.units then none
    else (indexBehind rest 0 (units + 1 - glyph.units)).map (· + 1)
  | glyph :: rest, lines + 1, units =>
    (indexBehind rest (if endsLineAt (glyph :: rest) 0 then lines else lines + 1) units).map (· + 1)

/-- An index parts a pair of line ends, which end one line. -/
def PartsPair (source : Text) (index : Nat) : Prop :=
  0 < index ∧ source[index - 1]? = some (.char '\r') ∧ source[index]? = some (.char '\n')

/-- Up to an index, units count as columns do: all glyphs before it on its line take one unit, and
it does not part a pair of line ends. -/
def CountsUnits (source : Text) (index : Nat) : Prop :=
  (∀ entry ∈ source.zipIdx, entry.2 < index →
      (source.placeAt entry.2).line = (source.placeAt index).line → entry.1.units = 1) ∧
    ¬ source.PartsPair index

instance (source : Text) (index : Nat) : Decidable (source.PartsPair index) :=
  inferInstanceAs (Decidable (_ ∧ _))

instance (source : Text) (index : Nat) : Decidable (source.CountsUnits index) :=
  inferInstanceAs (Decidable ((∀ entry ∈ source.zipIdx, _) ∧ _))

variable {glyph : Glyph} {rest source : Text} {index : Nat}

theorem partsPair_cons : PartsPair (glyph :: rest) (index + 1) ↔
    (index = 0 ∧ glyph = .char '\r' ∧ rest[0]? = some (.char '\n')) ∨ PartsPair rest index := by
  cases index <;> simp [PartsPair]

theorem countsUnits_zero (source : Text) : source.CountsUnits 0 :=
  ⟨fun _ _ before => absurd before (Nat.not_lt_zero _), fun pair => absurd pair.1 (Nat.lt_irrefl 0)⟩

/-- A first glyph counts as one unit if it stands on the line in question. -/
theorem countsUnits_cons : CountsUnits (glyph :: rest) (index + 1) ↔
    ((placeAt (glyph :: rest) (index + 1)).line = 1 → glyph.units = 1) ∧
      ¬ (index = 0 ∧ glyph = .char '\r' ∧ rest[0]? = some (.char '\n')) ∧
      CountsUnits rest index := by
  have lines (earlier : Nat) : (placeAt (glyph :: rest) (earlier + 1)).line =
      (placeAt (glyph :: rest) (index + 1)).line ↔
        (rest.placeAt earlier).line = (rest.placeAt index).line := by
    rw [line_placeAt_cons, line_placeAt_cons]
    omega
  simp only [CountsUnits, partsPair_cons, List.zipIdx_cons, List.zipIdx_succ,
    List.forall_mem_cons, List.forall_mem_map, Nat.zero_add, Nat.zero_lt_succ,
    Nat.add_lt_add_iff_right, lines, forall_const, not_or]
  constructor
  · rintro ⟨⟨own, later⟩, apart, within⟩
    exact ⟨fun first => own first.symm, apart, later, within⟩
  · rintro ⟨own, apart, later, within⟩
    exact ⟨⟨fun first => own first.symm, later⟩, apart, within⟩

/-- As many units as are counted on the first line have at most as many glyphs. -/
theorem le_of_indexBehind {units : Nat} (found : source.indexBehind 0 units = some index) :
    index ≤ units := by
  induction source generalizing units index with
  | nil => cases found; exact Nat.zero_le _
  | cons glyph rest ih =>
    cases units with
    | zero => cases found; exact Nat.le_refl 0
    | succ units =>
      have taken : 0 < glyph.units := by unfold Glyph.units; split <;> decide
      simp only [indexBehind] at found
      split at found
      · cases found
        exact Nat.zero_le _
      · split at found
        · cases found
        · obtain ⟨before, reached, rfl⟩ := Option.map_eq_some_iff.mp found
          have := ih reached
          omega

/-- On the first line, columns count the glyphs before a place. -/
theorem column_of_first (first : (source.placeAt index).line = 1) :
    (source.placeAt index).column = index + 1 := by
  have none := line_placeAt_eq_one.mp first
  rw [List.length_reverse, List.length_range] at none
  simp only [placeAt, none, Nat.add_comm]

theorem map_succ_eq_some {found : Option Nat} :
    found.map (· + 1) = some (index + 1) ↔ found = some index := by
  cases found <;> simp

/-- Past a glyph that ends a line, or stands on a line above, an editor goes on behind it. -/
theorem indexBehind_below (apart : (placeAt (glyph :: rest) (index + 1)).line ≠ 1) :
    indexBehind (glyph :: rest) ((placeAt (glyph :: rest) (index + 1)).line - 1)
        ((placeAt (glyph :: rest) (index + 1)).column - 1) =
      (indexBehind rest ((rest.placeAt index).line - 1) ((rest.placeAt index).column - 1)).map
        (· + 1) := by
  have column : (placeAt (glyph :: rest) (index + 1)).column = (placeAt rest index).column := by
    rw [column_placeAt_cons, if_neg, Nat.add_zero]
    rintro ⟨behind, within⟩
    rw [line_placeAt_cons, behind, within] at apart
    exact apart rfl
  have lines : (placeAt (glyph :: rest) (index + 1)).line - 1 =
      (placeAt (glyph :: rest) (index + 1)).line - 2 + 1 := by
    have := line_placeAt_pos (glyph :: rest) (index + 1)
    omega
  have reached : (if endsLineAt (glyph :: rest) 0 then
        (placeAt (glyph :: rest) (index + 1)).line - 2
      else (placeAt (glyph :: rest) (index + 1)).line - 2 + 1) = (placeAt rest index).line - 1 := by
    rw [← lines, line_placeAt_cons]
    split <;> omega
  rw [column, lines, indexBehind, reached]

/-- On its line, an editor counts a glyph as one if it takes one unit and is no line end. -/
theorem indexBehind_beside (first : (placeAt (glyph :: rest) (index + 1)).line = 1) :
    indexBehind (glyph :: rest) 0 (index + 1) = some (index + 1) ↔
      glyph.units = 1 ∧ ¬ (index = 0 ∧ glyph = .char '\r' ∧ rest[0]? = some (.char '\n')) ∧
        indexBehind rest 0 index = some index := by
  have line := line_placeAt_pos rest index
  rw [line_placeAt_cons] at first
  have ends : endsLineAt (glyph :: rest) 0 = false := by
    cases ends : endsLineAt (glyph :: rest) 0 with
    | false => rfl
    | true => rw [ends, if_pos rfl] at first; omega
  rw [indexBehind]
  rcases isLineEnd_or_pair ends with plain | ⟨rfl, later, rfl⟩
  · have apart : ¬ (index = 0 ∧ glyph = .char '\r' ∧ rest[0]? = some (.char '\n')) := by
      rintro ⟨-, rfl, -⟩
      cases plain
    simp only [plain, apart, Bool.false_eq_true, if_false, not_false_eq_true, true_and]
    by_cases narrow : glyph.units = 1
    · rw [narrow, if_neg (by omega), Nat.add_sub_cancel, map_succ_eq_some]
      exact (and_iff_right rfl).symm
    · -- A glyph of two units leaves too few for those behind it.
      refine iff_of_false ?_ fun holds => narrow holds.1
      have wide : glyph.units = 2 := by
        unfold Glyph.units at narrow ⊢
        split <;> simp_all
      rw [wide]
      split
      · nofun
      · rw [map_succ_eq_some]
        intro found
        have := le_of_indexBehind found
        omega
  · rw [ends, if_neg (by decide), Nat.add_zero] at first
    obtain rfl := index_eq_zero_of_line first
    exact iff_of_false nofun fun holds => holds.2.1 ⟨rfl, rfl, rfl⟩

/-- **Reading a position.** An editor finds the place of a position if, and only if, units count as
columns do up to there. -/
theorem indexBehind_placeAt (inside : index ≤ source.length) :
    source.indexBehind ((source.placeAt index).line - 1) ((source.placeAt index).column - 1) =
      some index ↔ source.CountsUnits index := by
  induction source generalizing index with
  | nil =>
    obtain rfl : index = 0 := Nat.le_zero.mp inside
    exact iff_of_true rfl (countsUnits_zero [])
  | cons glyph rest ih =>
    cases index with
    | zero => exact iff_of_true rfl (countsUnits_zero _)
    | succ index =>
      have deeper := ih (Nat.le_of_succ_le_succ inside)
      rw [countsUnits_cons, ← deeper]
      by_cases first : (placeAt (glyph :: rest) (index + 1)).line = 1
      · have behind : (placeAt rest index).line = 1 := by
          have := line_placeAt_pos rest index
          rw [line_placeAt_cons] at first
          omega
        simpa [first, behind, column_of_first first, column_of_first behind] using
          indexBehind_beside first
      · have apart : ¬ (index = 0 ∧ glyph = .char '\r' ∧ rest[0]? = some (.char '\n')) := by
          rintro ⟨rfl, rfl, feed⟩
          have within : endsLineAt (.char '\r' :: rest) 0 = false := by simp [endsLineAt, feed]
          rw [line_placeAt_cons, within] at first
          exact first rfl
        rw [indexBehind_below first, map_succ_eq_some]
        simp [first, apart]

end Text

namespace Expansion

/-- A token of a file has its span at some places. -/
abbrev SitedIn (places : Position → Prop) (fileId : FileId) (token : Token) : Prop :=
  token.span.fileId = fileId → token.Sited places fileId

/-- No expansion puts tokens of a file anywhere else. -/
theorem hereditary_sitedIn (places : Position → Prop) (fileId : FileId) :
    Hereditary (SitedIn places fileId) where
  markExpanded sited own := ⟨(sited own).span, (sited own).middle⟩
  withTicket sited ticket own := ⟨(sited own).span, (sited own).middle⟩
  halves {token} doubled sited := by
    have whole (own : token.span.fileId = fileId) := (sited own).span
    have middle (own : token.span.fileId = fileId) := (sited own).middle doubled
    exact ⟨fun own => ⟨⟨own, (whole own).start, middle own⟩, nofun⟩,
      fun own => ⟨⟨own, middle own, (whole own).stop⟩, nofun⟩⟩
  opener sited own := ⟨⟨own, (sited own).span.start, (sited own).span.start⟩, nofun⟩
  closer sited own := ⟨⟨own, (sited own).span.stop, (sited own).span.stop⟩, nofun⟩

/-- What is reported on the document of another file is reported in that file. -/
theorem informs_sitedIn (files : FileSystem) (main : FileId) (places : Position → Prop) :
    Informs files main (fun span => span.fileId = main → span.Sited places main)
      (FileTable.Sound fun _ => True) := by
  intro table sound path parent apart document later read report reported own
  obtain ⟨entered, number⟩ := sound.enter path parent
  obtain ⟨_, origin⟩ := entered.document (fun _ _ _ => trivial) (table.enter path parent).1.id
  obtain ⟨bytes, _, parsed⟩ := origin document (by rw [read])
  rw [number] at parsed
  have elsewhere := ((Document.sited_of_parse parsed).2 report reported).fileId
  exact absurd (elsewhere.symm.trans own) apart

/-- **Places of reports.** What an expansion of a parsed document reports in its file, it reports at
places of its source. -/
theorem sited_reports_of_expand {source : Text} {catcodes : Catcode.Table}
    {commands : CommandTable} {fileId : FileId} {document expanded : Document}
    (parsed : Document.parse source catcodes commands fileId = .ok document) {settings : Settings}
    {table : FileTable} (sound : table.Sound fun _ => True) {reports : List Diagnostic}
    (done : (expand settings document Scope.empty table).outcome = .ok (expanded, reports)) :
    ∀ report ∈ reports, report.span.fileId = fileId → report.span.Sited source.HasPlace fileId := by
  obtain ⟨rfl, -⟩ := Highlight.ends_of_parse parsed
  have hereditary := hereditary_sitedIn source.HasPlace document.fileId
  refine reports_expand ?_ hereditary
    (Highlight.supplies_of_foreign hereditary (fun token apart _ own => absurd own apart) _)
    (informs_sitedIn _ _ source.HasPlace) ?_ (.empty _) sound done
  · exact fun token sited own => (sited own).span
  · exact fun token member _ _ => (Document.sited_of_parse parsed).1 token member

end Expansion

namespace Buffer

open Expansion (noFiles)

/-- The index of a text at which an editor finds a place. -/
def Place.index? (place : Place) (text : Text) : Option Nat :=
  text.indexBehind place.line place.character

/-- A range designates the text from one index up to another. -/
def Range.Covers (text : Text) (range : Range) (first last : Nat) : Prop :=
  range.start.index? text = some first ∧ range.stop.index? text = some last

/-- A span is over the text from one index up to another. -/
structure IsOver (text : Text) (span : Span) (first last : Nat) : Prop where
  start : span.start.IsAt text first
  stop : span.stop.IsAt text last
  inside : first ≤ text.length ∧ last ≤ text.length

instance (text : Text) (range : Range) (first last : Nat) :
    Decidable (range.Covers text first last) :=
  inferInstanceAs (Decidable (_ ∧ _))

instance (text : Text) (span : Span) (first last : Nat) : Decidable (IsOver text span first last) :=
  decidable_of_iff (((span.start.line = _ ∧ _) ∧ span.stop.line = _ ∧ _) ∧ _ ≤ _ ∧ _ ≤ _)
    ⟨fun ⟨⟨start, stop⟩, inside⟩ => ⟨start, stop, inside⟩,
      fun lies => ⟨⟨lies.start, lies.stop⟩, lies.inside⟩⟩

variable {text : Text}

theorem index?_ofPosition {position : Position} {index : Nat} (placed : position.IsAt text index)
    (inside : index ≤ text.length) :
    (Place.ofPosition position).index? text = some index ↔ text.CountsUnits index := by
  obtain ⟨line, column⟩ := placed
  rw [Place.index?, Place.ofPosition, line, column]
  exact Text.indexBehind_placeAt inside

theorem covers_ofSpan {span : Span} {first last : Nat} (lies : IsOver text span first last) :
    (Range.ofSpan span).Covers text first last ↔
      text.CountsUnits first ∧ text.CountsUnits last :=
  and_congr (index?_ofPosition lies.start lies.inside.1)
    (index?_ofPosition lies.stop lies.inside.2)

variable {files : FileSystem} {path : Option Path} {id : FileId} {table : FileTable}

/-- The number of the file of a buffer. -/
def fileOf (path : Option Path) : FileId :=
  if path.isSome then 1 else 0

/-- What is known of files when a buffer has been given its text: the document of its file is the
one that the text is parsed to. -/
structure Holds (files : FileSystem) (text : Text) (id : FileId) (table : FileTable) : Prop where
  arises : table.Arises
  document : (table.document files id).1 =
    (Document.parse text (Catcode.Table.ofOverrides []) .standard id).mapError .number

theorem holds_opened (characters : ∀ glyph ∈ text, glyph.isUndecodable = false)
    (found : opened files path text = .ok (id, table)) :
    id = fileOf path ∧ Holds files text id table := by
  cases path with
  | none =>
    cases found
    have start : (FileTable.empty files.currentDirectory).Arises := .empty _ .standard []
    have number : ((FileTable.empty files.currentDirectory).entry 0).id = 0 := rfl
    have given := start.sound.document_setSource files number text.encode
    rw [Text.decode_encode characters] at given
    exact ⟨rfl, start.setSource 0 text.encode, given⟩
  | some path =>
    unfold opened FileTable.register at found
    dsimp only at found
    cases known : FileTable.canonicalPath files path with
    | error error =>
      rw [known] at found
      cases found
    | ok canonical =>
      rw [known] at found
      cases found
      have entered := (FileTable.Arises.empty path.parent .standard []).enter canonical none
      have number : (((FileTable.empty path.parent).enter canonical).2.entry 1).id = 1 := rfl
      have given := entered.sound.document_setSource files number text.encode
      rw [Text.decode_encode characters] at given
      exact ⟨rfl, entered.setSource 1 text.encode, given⟩

/-- What is published of a buffer are the problems of the document that its text is parsed to, and
those of the expansion of this. -/
theorem diagnostics_eq (found : opened files path text = .ok (id, table))
    (holds : Holds files text id table) :
    diagnostics files path text = (do
      let document ← (Document.parse text (Catcode.Table.ofOverrides []) .standard id).mapError
        DocumentError.number
      let (_, reports) ← (Expansion.expand ⟨files, {}, .standard⟩ document Scope.empty
        (table.document files id).2).outcome
      return (document.diagnostics ++ reports).filter fun report => report.span.fileId = id) := by
  rw [← holds.document]
  unfold diagnostics
  rw [found]
  rfl

/-- What is published of a buffer is reported in its file, at places of its text. -/
theorem sited_of_published (characters : ∀ glyph ∈ text, glyph.isUndecodable = false)
    {published : List Diagnostic} (found : diagnostics files path text = .ok published) :
    ∀ diagnostic ∈ published, diagnostic.span.Sited text.HasPlace (fileOf path) := by
  cases start : opened files path text with
  | error error =>
    unfold diagnostics at found
    rw [start] at found
    cases found
  | ok file =>
    obtain ⟨id, table⟩ := file
    obtain ⟨rfl, holds⟩ := holds_opened characters start
    rw [diagnostics_eq start holds] at found
    cases parsed : Document.parse text (Catcode.Table.ofOverrides []) .standard (fileOf path) with
    | error error =>
      rw [parsed] at found
      cases found
    | ok document =>
      rw [parsed] at found
      cases outcome : (Expansion.expand ⟨files, {}, .standard⟩ document Scope.empty
          (table.document files (fileOf path)).2).outcome with
      | error error =>
        simp only [bind, Except.bind, Except.mapError, outcome] at found
        cases found
      | ok result =>
        simp only [bind, Except.bind, Except.mapError, outcome, pure, Except.pure] at found
        cases found
        have sound := (holds.arises.document files (fileOf path)).sound
        intro diagnostic member
        obtain ⟨member, own⟩ := List.mem_filter.mp member
        have own := of_decide_eq_true own
        rcases List.mem_append.mp member with parsing | expanding
        · exact (Document.sited_of_parse parsed).2 diagnostic parsing
        · exact Expansion.sited_reports_of_expand parsed sound outcome diagnostic expanding own

/-- What is published of a text whose expansion reads no more tokens than a given number, and passes
a test. -/
theorem exists_published (characters : ∀ glyph ∈ text, glyph.isUndecodable = false)
    (found : opened files path text = .ok (id, table)) (count : Nat)
    (test : List Diagnostic → Bool)
    (checked : ((Document.parse text (Catcode.Table.ofOverrides []) .standard id).toOption.bind
      fun document => (Expansion.mainRun ⟨files, {}, .standard⟩ document Scope.empty
        (table.document files id).2 count).filter fun branch =>
          test ((document.diagnostics ++ branch.shared.diagnostics.toList).filter fun report =>
            report.span.fileId = id)).isSome = true) :
    ∃ published, diagnostics files path text = .ok published ∧ test published = true := by
  obtain ⟨branch, ran⟩ := Option.isSome_iff_exists.mp checked
  obtain ⟨document, read, ran⟩ := Option.bind_eq_some_iff.mp ran
  obtain ⟨ran, passes⟩ := Option.filter_eq_some_iff.mp ran
  refine ⟨_, ?_, passes⟩
  cases parsed : Document.parse text (Catcode.Table.ofOverrides []) .standard id with
  | error failure =>
    rw [parsed] at read
    cases read
  | ok other =>
    rw [parsed] at read
    cases read
    rw [diagnostics_eq found (holds_opened characters found).2, parsed]
    simp only [bind, Except.bind, Except.mapError, Expansion.outcome_of_mainRun ran]
    rfl

/-- **Ranges.** What is published of a buffer is reported in its file, at places of its text or past
a line end. A range between places designates the text that its span is over if, and only if, units
count as columns do up to both ends. -/
theorem covers_range (characters : ∀ glyph ∈ text, glyph.isUndecodable = false)
    {published : List Diagnostic} (found : diagnostics files path text = .ok published) :
    ∀ diagnostic ∈ published, diagnostic.span.fileId = fileOf path ∧
      (diagnostic.span.start.IsPastLineEnd text ∨ diagnostic.span.stop.IsPastLineEnd text ∨
        ∃ first last, IsOver text diagnostic.span first last ∧
          ((Range.ofSpan diagnostic.span).Covers text first last ↔
            text.CountsUnits first ∧ text.CountsUnits last)) := by
  intro diagnostic member
  obtain ⟨file, ⟨first, before, start⟩ | pastStart, ⟨last, behind, stop⟩ | pastStop⟩ :=
    sited_of_published characters found diagnostic member
  · have lies : IsOver text diagnostic.span first last := ⟨start, stop, before, behind⟩
    exact ⟨file, .inr (.inr ⟨first, last, lies, covers_ofSpan lies⟩)⟩
  · exact ⟨file, .inr (.inl pastStop)⟩
  · exact ⟨file, .inl pastStart⟩
  · exact ⟨file, .inl pastStart⟩

/-- The path of a buffer in the root directory. -/
def bufferPath : Path := ⟨.slash, ["a.tex"]⟩

theorem opened_bufferPath (text : Text) :
    opened noFiles bufferPath text =
      .ok (1, ((FileTable.empty bufferPath.parent).enter bufferPath).2.setSource 1 text.encode) :=
  rfl

/-- A brace too many below a glyph of two units, and a use of a macro without its argument. -/
def wideAbove : Text := "😀\r\n\x7d\\def\\a#1\x7b\x7d\\a"

theorem covers_range_wideAbove :
    ∃ published, diagnostics noFiles bufferPath wideAbove = .ok published ∧
      published.length = 2 ∧ ∀ diagnostic ∈ published, diagnostic.span.fileId = 1 ∧
        (diagnostic.span.start.IsPastLineEnd wideAbove ∨
          diagnostic.span.stop.IsPastLineEnd wideAbove ∨
          ∃ first last, IsOver wideAbove diagnostic.span first last ∧
            ((Range.ofSpan diagnostic.span).Covers wideAbove first last ↔
              wideAbove.CountsUnits first ∧ wideAbove.CountsUnits last)) := by
  have characters : ∀ glyph ∈ wideAbove, glyph.isUndecodable = false := by decide
  obtain ⟨published, found, both⟩ := exists_published characters (opened_bufferPath _) 20
    (fun published => decide (published.length = 2)) (by decide +kernel)
  exact ⟨published, found, of_decide_eq_true both, covers_range characters found⟩

/-- A brace too many behind a glyph of two units. -/
def wideGlyph : Text := "😀\x7d"

/-- The range of the report starts within the wide glyph. -/
theorem not_covers_range_wideGlyph :
    ∃ published, diagnostics noFiles bufferPath wideGlyph = .ok published ∧
      ∃ diagnostic ∈ published, IsOver wideGlyph diagnostic.span 1 2 ∧
        ¬ (Range.ofSpan diagnostic.span).Covers wideGlyph 1 2 := by
  have characters : ∀ glyph ∈ wideGlyph, glyph.isUndecodable = false := by decide
  obtain ⟨published, found, missed⟩ := exists_published characters (opened_bufferPath _) 20
    (fun published => decide (∃ diagnostic ∈ published, IsOver wideGlyph diagnostic.span 1 2 ∧
      ¬ (Range.ofSpan diagnostic.span).Covers wideGlyph 1 2)) (by decide +kernel)
  exact ⟨published, found, of_decide_eq_true missed⟩

end Buffer

end TexSource
