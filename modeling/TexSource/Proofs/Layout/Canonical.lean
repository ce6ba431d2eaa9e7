import TexSource.Proofs.Layout.LineSources

/-!
# Canonical layout

A layout is written row by row: a row for each line of the source that is not blank, and blank rows
between them. Apart from verbatim text no blank row stands first, last or next to another one, code
stands behind its margin and ends without blanks, and rows of code in different major commands are
parted by a blank row (`Layout.Canonical`). What is written so far stays so with every line that is
added (`Layout.Laid.add`), so it holds of the layout of a document (`Layout.canonical_format`).
-/

namespace TexSource

namespace Layout

/-- What a line may be written as: a raw line as it is, a comment without white space at its end,
and code behind a margin of its depth, up to its last token without the blanks behind it. -/
structure SourceLine.WrittenAs (options : Options) (document : Document) (line : SourceLine)
    (text : Text) : Prop where
  unbroken : ∀ glyph ∈ text, Catcode.initial glyph ≠ .endOfLine
  raw : line.isRaw options document = true → text = line.text
  comment : line.isRaw options document = false → line.isCommentOnly = true →
    text = line.text.stripEnd
  starts : line.isCode options document = true → ∃ first ∈ line.first?,
    margin options.indent (depthOf options document first) ++ first.token.controlText <+: text
  ends : line.isCode options document = true → ∃ last ∈ line.last?,
    last.token.controlText <:+ text ∨
      last.token.isComment = true ∧ last.token.raw.stripEnd <:+ text

/-- A row of a layout, with the line of the source that it is written for. A row that parts others
has none. -/
structure Row where
  source : Option SourceLine
  text : Text

namespace Row

/-- A row of spaces. -/
def IsBlank (row : Row) : Prop :=
  ∀ glyph ∈ row.text, Catcode.initial glyph = .space

variable (options : Options) (document : Document)

/-- Whether a row is written for a line that is verbatim at its start or at its end. -/
def isAside (row : Row) : Bool :=
  row.source.any (·.isAside options document)

/-- The first token of a row of code that is no space. -/
def code? (row : Row) : Option Placed :=
  (row.source.filter (·.isCode options document)).bind SourceLine.first?

/-- A row does not matter between rows of code: it is blank or a comment, and not put aside. -/
def Passes (row : Row) : Prop :=
  row.isAside options document = false ∧ (row.IsBlank ∨ row.source.any (·.isCommentOnly) = true)

/-- Two rows side by side are not both blank, unless one of them is put aside. -/
def Apart (row next : Row) : Prop :=
  row.IsBlank → next.IsBlank → row.isAside options document = true ∨
    next.isAside options document = true

/-- The text of a row is what its line may be written as. -/
def Fits (row : Row) : Prop :=
  match row.source with
  | none => row.text = []
  | some line => line.WrittenAs options document row.text

end Row

section

variable (options : Options) (document : Document)

/-- A blank row stands between rows of code with different keys, whatever blank rows and comments
stand there besides. -/
def Separated (rows : List Row) : Prop :=
  ∀ before first between second after, rows = before ++ first :: between ++ second :: after →
    (∀ row ∈ between, row.Passes options document) →
      ∀ placed ∈ first.code? options document, ∀ next ∈ second.code? options document,
        keyOf options document placed ≠ keyOf options document next →
          ∃ row ∈ between, row.IsBlank

/-- The rows of a document in canonical layout. -/
structure Canonical (rows : List Row) : Prop where
  sources : rows.filterMap Row.source =
    document.sourceLines.filter (·.isWritten options document)
  fits : ∀ row ∈ rows, row.Fits options document
  first : ∀ row ∈ rows.head?, row.IsBlank → row.isAside options document = true
  last : ∀ row ∈ rows.getLast?, row.text = [] → row.isAside options document = true
  apart : rows.IsChain (Row.Apart options document)
  separated : Separated options document rows

/-- Behind some rows, a row of code with a key needs no further blank row. -/
def Awaits (rows : List Row) (key : Option Text) : Prop :=
  ∀ before first between, rows = before ++ first :: between →
    (∀ row ∈ between, row.Passes options document) →
      ∀ placed ∈ first.code? options document, keyOf options document placed ≠ key →
        ∃ row ∈ between, row.IsBlank

end

/-- The blank row before a row that is set off. -/
def parting (gap : Bool) : List Row :=
  if gap then [⟨none, []⟩] else []

variable {options : Options} {document : Document} {rows : List Row} {row : Row}

@[simp] theorem Row.isAside_some (line : SourceLine) (text : Text) :
    Row.isAside options document ⟨some line, text⟩ = line.isAside options document :=
  rfl

@[simp] theorem Row.code?_some (line : SourceLine) (text : Text) :
    Row.code? options document ⟨some line, text⟩ =
      if line.isCode options document then line.first? else none := by
  cases code : line.isCode options document <;> simp [code?, Option.filter, code]

theorem fits_parting (gap : Bool) : ∀ row ∈ parting gap, row.Fits options document := by
  cases gap with
  | false => exact List.forall_mem_nil _
  | true => exact List.forall_mem_singleton.mpr rfl

theorem awaits_nil (key : Option Text) : Awaits options document [] key := by
  intro before first between split
  simp at split

/-- A row that is no code. -/
theorem Awaits.concat {key : Option Text} (awaits : Awaits options document rows key)
    (noCode : row.code? options document = none) :
    Awaits options document (rows ++ [row]) key := by
  intro before first between split passes placed code other
  rcases List.eq_nil_or_concat between with rfl | ⟨earlier, last, rfl⟩
  · obtain ⟨-, rfl⟩ := List.append_singleton_inj.mp split
    rw [noCode] at code
    cases code
  · rw [List.concat_eq_append, ← List.cons_append, ← List.append_assoc] at split
    rw [List.concat_eq_append, List.forall_mem_append] at passes
    obtain ⟨blank, among, isBlank⟩ := awaits before first earlier
      (List.append_singleton_inj.mp split).1 passes.1 placed code other
    exact ⟨blank, by simp [among], isBlank⟩

/-- A row of code with the key, or one that matters between rows of code. -/
theorem Awaits.fresh (rows : List Row) {key : Option Text}
    (own : ∀ placed ∈ row.code? options document, keyOf options document placed = key)
    (matters : row.Passes options document → row.IsBlank) :
    Awaits options document (rows ++ [row]) key := by
  intro before first between split passes placed code other
  rcases List.eq_nil_or_concat between with rfl | ⟨earlier, last, rfl⟩
  · obtain ⟨-, rfl⟩ := List.append_singleton_inj.mp split
    exact absurd (own placed code) other
  · rw [List.concat_eq_append, ← List.cons_append, ← List.append_assoc] at split
    obtain ⟨-, rfl⟩ := List.append_singleton_inj.mp split
    exact ⟨row, by simp, matters (passes row (by simp))⟩

/-- A blank row, if one is called for. -/
theorem Awaits.parting {gap : Bool} {key : Option Text}
    (awaits : gap = false → Awaits options document rows key) :
    Awaits options document (rows ++ parting gap) key := by
  cases gap with
  | false => simpa [Layout.parting] using awaits rfl
  | true => exact .fresh rows (fun _ code => nomatch code) fun _ => List.forall_mem_nil _

theorem separated_nil : Separated options document [] := by
  intro before first between second after split
  simp at split

theorem Separated.concat (separated : Separated options document rows)
    (awaits : ∀ placed ∈ row.code? options document,
      Awaits options document rows (keyOf options document placed)) :
    Separated options document (rows ++ [row]) := by
  intro before first between second after split passes placed code next also other
  rcases List.eq_nil_or_concat after with rfl | ⟨earlier, last, rfl⟩
  · obtain ⟨earlier, rfl⟩ := List.append_singleton_inj.mp split
    exact awaits next also before first between earlier passes placed code other
  · rw [List.concat_eq_append, ← List.cons_append, ← List.append_assoc] at split
    exact separated before first between second earlier (List.append_singleton_inj.mp split).1
      passes placed code next also other

/-- The tokens of a line before its line end have texts as they are read, and are no line ends. -/
def SourceLine.Neat (line : SourceLine) : Prop :=
  ∀ placed ∈ line.content, Lexer.Neat placed.token ∧ placed.token.isEndOfLine = false

namespace SourceLine

variable {line : SourceLine} (neat : line.Neat)

include neat

theorem Neat.within : ∀ glyph ∈ line.text, Catcode.initial glyph ≠ .endOfLine := by
  intro glyph member
  obtain ⟨placed, among, inside⟩ := List.mem_flatMap.mp member
  exact (neat placed among).1.within (neat placed among).2 glyph inside

/-- The first token of a line that is no space starts with no white space. -/
theorem Neat.starts {first : Placed} (found : line.first? = some first) :
    ∃ glyph rest, first.token.controlText = glyph :: rest ∧ ¬Lexer.IsWhite glyph := by
  obtain ⟨own, noLineEnd⟩ := neat first (List.mem_of_find?_eq_some found)
  apply own.starts
  rw [Bool.eq_false_iff, ne_eq, Token.isBlank_iff, noLineEnd]
  simpa using List.find?_some found

/-- A comment shows in the text of a line, also without white space at the end. -/
theorem Neat.comment (commentOnly : line.isCommentOnly = true) :
    ∃ glyph ∈ line.text.stripEnd, ¬Lexer.IsWhite glyph := by
  unfold isCommentOnly at commentOnly
  split at commentOnly
  · rename_i comment found
    have listed : comment ∈ line.content.map Placed.token :=
      (List.dropWhile_sublist Token.isSpace).subset (by simp [found])
    obtain ⟨placed, among, rfl⟩ := List.mem_map.mp listed
    obtain ⟨glyph, rest, raw, solid, seen⟩ := (neat placed among).1.comment commentOnly
    have whole := List.takeWhile_append_dropWhile (p := Token.isSpace)
      (l := line.content.map Placed.token)
    have text : line.text = Token.rawText (line.content.map Placed.token) := by
      rw [Token.rawText, List.flatMap_map, SourceLine.text]
    rw [text, ← whole, found, Token.rawText_append, Token.rawText_cons, Token.rawText_nil, raw,
      List.append_nil, Text.stripEnd_append_cons _ solid]
    exact ⟨glyph, by simp, seen⟩
  · cases commentOnly

namespace WrittenAs

variable {text : Text} (written : line.WrittenAs options document text)

include written

/-- A blank line is put aside or has no tokens but spaces. -/
theorem isAside_or (blank : ∀ glyph ∈ text, Catcode.initial glyph = .space) :
    line.isAside options document = true ∨ line.first? = none := by
  cases found : line.first? with
  | none => exact .inr rfl
  | some first =>
    cases raw : line.isRaw options document with
    | true => exact .inl (isAside_of_isRaw found raw)
    | false =>
      cases commentOnly : line.isCommentOnly with
      | true =>
        obtain ⟨glyph, inside, seen⟩ := neat.comment commentOnly
        rw [← written.comment raw commentOnly] at inside
        exact absurd (.inl (blank glyph inside)) seen
      | false =>
        obtain ⟨other, same, starts⟩ := written.starts (by simp [isCode, raw, found, commentOnly])
        obtain rfl := Option.mem_unique found same
        obtain ⟨glyph, rest, shown, seen⟩ := neat.starts found
        exact absurd (.inl (blank glyph (starts.subset (by simp [shown])))) seen

variable (kept : line.isWritten options document = true)

include kept

/-- An empty line is put aside. -/
theorem isAside_of_nil (empty : text = []) : line.isAside options document = true := by
  rcases written.isAside_or neat (by simp [empty]) with aside | nothing
  · exact aside
  · have any : line.placed.any (isVerbatim options document) = true := by
      simpa [isWritten, nothing] using kept
    have raw := written.raw (by simpa [isRaw, nothing] using any)
    have bare : line.content = [] := by
      rw [empty, SourceLine.text, eq_comm, List.flatMap_eq_nil_iff] at raw
      refine List.eq_nil_iff_forall_not_mem.mpr fun placed member => ?_
      exact (neat placed member).1.written (raw placed member)
    cases ends : line.lineEnd <;> simp_all [SourceLine.placed, isAside]

/-- A blank line is put aside, or it is the last one, behind a line that is put aside. -/
theorem isAside_or_last {done : List SourceLine} (follows : line.Follows options document done)
    (blank : ∀ glyph ∈ text, Catcode.initial glyph = .space) :
    line.isAside options document = true ∨ line.first? = none ∧ line.lineEnd = none ∧
      ∃ previous ∈ done.getLast?, previous.isAside options document = true ∧
        previous.isWritten options document = true := by
  rcases written.isAside_or neat blank with aside | nothing
  · exact .inl aside
  · have any : line.placed.any (isVerbatim options document) = true := by
      simpa [isWritten, nothing] using kept
    rcases follows.verbatim nothing any with ends | ⟨last, previous, before, ends⟩
    · exact .inl (by simp [isAside, ends])
    · refine .inr ⟨nothing, last, previous, before, by simp [isAside, ends], ?_⟩
      cases found : previous.lineEnd <;> simp_all [isWritten, SourceLine.placed]

end WrittenAs

end SourceLine

theorem exists_of_rel {related : Item → Placed → Prop} {item? : Option Item} {placed : Placed}
    (relate : Option.Rel related item? (some placed)) :
    ∃ item, item? = some item ∧ related item placed := by
  cases relate with
  | some found => exact ⟨_, rfl, found⟩

namespace Line.Mirrors

variable {line : Line} {source : SourceLine} (mirrors : line.Mirrors options document source)
  (neat : source.Neat)

include mirrors neat

theorem writtenAs_raw (raw : source.isRaw options document = true) :
    source.WrittenAs options document line.rawText where
  unbroken := mirrors.rawText ▸ neat.within
  raw _ := mirrors.rawText
  comment plain := by simp [raw] at plain
  starts code := by simp [SourceLine.isCode, raw] at code
  ends code := by simp [SourceLine.isCode, raw] at code

theorem writtenAs_comment (plain : source.isRaw options document = false)
    (commentOnly : source.isCommentOnly = true) :
    source.WrittenAs options document line.rawText.stripEnd where
  unbroken glyph member := neat.within glyph <| by
    rw [← mirrors.rawText]
    exact (List.rdropWhile_prefix Glyph.isBlank _).subset member
  raw raw := by simp [plain] at raw
  comment _ _ := by rw [mirrors.rawText]
  starts code := by simp [SourceLine.isCode, commentOnly] at code
  ends code := by simp [SourceLine.isCode, commentOnly] at code

theorem writtenAs_code (white : ∀ glyph ∈ options.indent, Catcode.initial glyph = .space)
    (code : source.isCode options document = true) :
    source.WrittenAs options document (codeLine options.indent line) where
  unbroken glyph member := by
    rcases mem_codeLine member with unit | rfl | ⟨item, among, inside⟩
    · simp [white glyph unit]
    · decide
    · have listed : item.token ∈ source.content.map Placed.token := by
        rw [← mirrors.items]
        exact List.mem_map_of_mem among
      obtain ⟨placed, there, same⟩ := List.mem_map.mp listed
      rw [← same] at inside
      exact (neat placed there).1.within (neat placed there).2 glyph inside
  raw raw := by simp [SourceLine.isCode, raw] at code
  comment _ commentOnly := by simp [SourceLine.isCode, commentOnly] at code
  starts _ := by
    obtain ⟨plain, visible, -⟩ := SourceLine.isCode_iff.mp code
    obtain ⟨first, found⟩ := Option.isSome_iff_exists.mp visible
    obtain ⟨item, shown, matched⟩ := exists_of_rel (found ▸ mirrors.first)
    refine ⟨first, found, ?_⟩
    rw [← matched.depth (matched.verbatim.trans (SourceLine.isVerbatim_first found plain)),
      ← matched.token]
    exact codeLine_starts options.indent shown
  ends _ := by
    obtain ⟨-, visible, -⟩ := SourceLine.isCode_iff.mp code
    rw [← SourceLine.last?_isSome] at visible
    obtain ⟨last, found⟩ := Option.isSome_iff_exists.mp visible
    obtain ⟨item, shown, matched⟩ := exists_of_rel (found ▸ mirrors.last)
    refine ⟨last, found, ?_⟩
    rw [← matched.token]
    exact codeLine_ends options.indent shown

end Line.Mirrors

/-- The rows that are written so far for some lines. -/
structure Laid (options : Options) (document : Document) (done : List SourceLine) (page : Page)
    (rows : List Row) : Prop where
  texts : page.written.reverse = rows.map Row.text
  sources : rows.filterMap Row.source = done.filter (·.isWritten options document)
  fits : ∀ row ∈ rows, row.Fits options document
  first : ∀ row ∈ rows.head?, row.IsBlank → row.isAside options document = true
  last : ∀ row ∈ rows.getLast?, ∃ line ∈ row.source, line ∈ done ∧
    (row.IsBlank → row.isAside options document = true ∨ line.lineEnd = none) ∧
      (row.text = [] → row.isAside options document = true)
  apart : rows.IsChain (Row.Apart options document)
  opened : page.pendingBlank = true → rows ≠ []
  recent : ∀ line ∈ done.getLast?, line.isWritten options document = true →
    page.pendingBlank = false ∧ ∃ row ∈ rows.getLast?, row.source = some line
  awaits : Awaits options document rows page.lastKey
  separated : Separated options document rows

theorem laid_nil : Laid options document [] ⟨[], false, none⟩ [] where
  texts := rfl
  sources := rfl
  fits := List.forall_mem_nil _
  first _ absent := absurd absent (Option.not_mem_none _)
  last _ absent := absurd absent (Option.not_mem_none _)
  apart := .nil
  opened := Bool.noConfusion
  recent _ absent := absurd absent (Option.not_mem_none _)
  awaits := awaits_nil none
  separated := separated_nil

namespace Laid

variable {done : List SourceLine} {page : Page} (laid : Laid options document done page rows)

include laid

theorem written_eq_nil_iff : page.written = [] ↔ rows = [] := by
  rw [← List.reverse_eq_nil_iff, laid.texts, List.map_eq_nil_iff]

variable {line : SourceLine}

/-- A line that is not written. -/
theorem skip (blank : line.isWritten options document = false) :
    Laid options document (done ++ [line]) { page with pendingBlank := page.written ≠ [] } rows :=
  { laid with
    sources := by simp [laid.sources, blank]
    last := fun row ends => by
      obtain ⟨other, source, among, kept⟩ := laid.last row ends
      exact ⟨other, source, List.mem_append_left _ among, kept⟩
    opened := fun pending => by simpa [laid.written_eq_nil_iff] using pending
    recent := fun other ends kept => by
      obtain rfl : line = other := by simpa using ends
      rw [blank] at kept
      cases kept }

variable (follows : line.Follows options document done)

include follows

/-- A blank row at the end is put aside. -/
theorem isAside_last :
    ∀ last ∈ rows.getLast?, last.IsBlank → last.isAside options document = true := by
  intro last ends blank
  obtain ⟨other, -, among, kept, -⟩ := laid.last last ends
  refine (kept blank).resolve_right fun none => ?_
  have closed := follows.closed other among
  rw [none] at closed
  cases closed

variable {text : Text} (written : line.WrittenAs options document text) (neat : line.Neat)
  (kept : line.isWritten options document = true) {gap : Bool}
  (calm : line.first? = none → gap = page.pendingBlank)

include written neat kept calm

/-- A blank row that is not put aside stands right behind one that is. -/
theorem exists_isAside_last (blank : Row.IsBlank ⟨some line, text⟩)
    (among : line.isAside options document = false) :
    gap = false ∧ ∃ previous ∈ rows.getLast?, previous.isAside options document = true := by
  rcases written.isAside_or_last neat kept follows blank with
    aside | ⟨nothing, -, previous, before, aside, shown⟩
  · rw [aside] at among
    cases among
  · obtain ⟨rest, last, ends, same⟩ := laid.recent previous before shown
    exact ⟨(calm nothing).trans rest, last, ends, by simp [Row.isAside, same, aside]⟩

/-- A row for a line, perhaps with a blank one before it. -/
theorem write (opened : gap = true → rows ≠ []) {key : Option Text}
    (separate : ∀ placed ∈ Row.code? options document ⟨some line, text⟩,
      Awaits options document (rows ++ parting gap) (keyOf options document placed))
    (awaits : Awaits options document (rows ++ parting gap ++ [⟨some line, text⟩]) key) :
    Laid options document (done ++ [line]) (page.write gap text key)
      (rows ++ parting gap ++ [⟨some line, text⟩]) := by
  have behind := laid.exists_isAside_last follows written neat kept calm
  have ahead := laid.isAside_last follows
  refine ⟨?_, ?_, ?_, ?_, ?_, ?_, Bool.noConfusion, ?_, awaits, ?_⟩
  · cases gap <;> simp [Page.write, laid.texts, parting]
  · cases gap <;> simp [laid.sources, parting, kept]
  · rw [List.forall_mem_append, List.forall_mem_append]
    exact ⟨⟨laid.fits, fits_parting gap⟩, List.forall_mem_singleton.mpr written⟩
  · intro first opens blank
    cases found : rows with
    | nil =>
      have none : gap = false := by simpa [found] using opened
      obtain rfl : ⟨some line, text⟩ = first := by simpa [found, none, parting] using opens
      by_contra apart
      obtain ⟨-, previous, before, -⟩ := behind blank (by simpa using apart)
      simp [found] at before
    | cons => exact laid.first first (by simpa [found] using opens) blank
  · intro last ends
    obtain rfl : ⟨some line, text⟩ = last := by simpa using ends
    refine ⟨line, rfl, by simp, fun blank => ?_, written.isAside_of_nil neat kept⟩
    exact (written.isAside_or_last neat kept follows blank).imp_right fun none => none.2.1
  · have parted : (rows ++ parting gap).IsChain (Row.Apart options document) := by
      refine List.isChain_append.mpr ⟨laid.apart, ?_, fun last ends _ _ blank _ => ?_⟩
      · cases gap
        · exact .nil
        · exact .singleton _
      · exact .inl (ahead last ends blank)
    refine List.isChain_append.mpr ⟨parted, .singleton _, fun last ends next opens blank also => ?_⟩
    obtain rfl : ⟨some line, text⟩ = next := by simpa using opens
    cases gap with
    | false => exact .inl (ahead last (by simpa [parting] using ends) blank)
    | true =>
      refine .inr (by_contra fun apart => ?_)
      cases (behind also (by simpa using apart)).1
  · intro last ends _
    obtain rfl : line = last := by simpa using ends
    exact ⟨rfl, ⟨some line, text⟩, by simp, rfl⟩
  · refine Separated.concat ?_ separate
    cases gap with
    | false => simpa [parting] using laid.separated
    | true => exact laid.separated.concat fun _ code => absurd code (Option.not_mem_none _)

end Laid

section

variable {done : List SourceLine} {page : Page} (laid : Laid options document done page rows)
  {line : Line} {source : SourceLine} (mirrors : line.Mirrors options document source)
  (follows : source.Follows options document done) (neat : source.Neat)

include laid mirrors follows neat

theorem Laid.add_raw (raw : source.isRaw options document = true) :
    ∃ more, Laid options document (done ++ [source])
      (page.write page.pendingBlank line.rawText none) more := by
  have code : Row.code? options document ⟨some source, line.rawText⟩ = none := by
    simp [SourceLine.isCode, raw]
  refine ⟨_, laid.write follows (mirrors.writtenAs_raw neat raw) neat
    (SourceLine.isWritten_of_isRaw raw) (fun _ => rfl) laid.opened (by simp [code])
    (.fresh _ (by simp [code]) fun passes => passes.2.resolve_right fun commentOnly => ?_)⟩
  -- a comment is no space, so its line is put aside
  obtain ⟨first, found⟩ := Option.isSome_iff_exists.mp (SourceLine.first?_isSome commentOnly)
  exact Bool.false_ne_true (passes.1.symm.trans (SourceLine.isAside_of_isRaw found raw))

theorem Laid.add_comment (plain : source.isRaw options document = false)
    (commentOnly : source.isCommentOnly = true) :
    ∃ more, Laid options document (done ++ [source])
      (page.write page.pendingBlank line.rawText.stripEnd page.lastKey) more := by
  have code : Row.code? options document ⟨some source, line.rawText.stripEnd⟩ = none := by
    simp [SourceLine.isCode, commentOnly]
  exact ⟨_, laid.write follows (mirrors.writtenAs_comment neat plain commentOnly) neat
    (by simp [SourceLine.isWritten, SourceLine.first?_isSome commentOnly]) (fun _ => rfl)
    laid.opened (by simp [code]) (.concat (.parting fun _ => laid.awaits) code)⟩

theorem Laid.add_code (white : ∀ glyph ∈ options.indent, Catcode.initial glyph = .space)
    (code : source.isCode options document = true) {first : Placed}
    (found : source.first? = some first) {key : Option Text}
    (same : key = keyOf options document first) :
    ∃ more, Laid options document (done ++ [source])
      (page.write (page.written ≠ [] && (page.pendingBlank || key ≠ page.lastKey))
        (codeLine options.indent line) key) more := by
  have own : ∀ placed ∈ Row.code? options document ⟨some source, codeLine options.indent line⟩,
      keyOf options document placed = key := by
    intro placed inside
    rw [Row.code?_some, if_pos code, found, Option.mem_some_iff] at inside
    rw [same, inside]
  refine ⟨_, laid.write follows (mirrors.writtenAs_code neat white code) neat
    (by simp [SourceLine.isWritten, found]) (by simp [found]) (fun gap => ?_)
    (fun placed inside => .parting fun none => ?_) (.fresh _ own fun passes => ?_)⟩
  · rw [Bool.and_eq_true_iff, decide_eq_true_eq] at gap
    rw [ne_eq, ← laid.written_eq_nil_iff]
    exact gap.1
  · rw [own placed inside]
    by_cases bare : rows = []
    · rw [bare]
      exact awaits_nil key
    · rw [← laid.written_eq_nil_iff] at bare
      obtain ⟨-, last⟩ : page.pendingBlank = false ∧ key = page.lastKey := by
        simpa [bare] using none
      rw [last]
      exact laid.awaits
  · exact passes.2.resolve_right (by simp [(SourceLine.isCode_iff.mp code).2.2])

/-- **One line.** What is written for some lines stays canonical with another one. -/
theorem Laid.add (white : ∀ glyph ∈ options.indent, Catcode.initial glyph = .space) :
    ∃ more, Laid options document (done ++ [source]) (page.add options line) more := by
  have first := mirrors.first
  unfold Page.add
  split
  · rename_i raw
    rw [mirrors.isRaw] at raw
    exact laid.add_raw mirrors follows neat raw
  · rename_i plain
    rw [mirrors.isRaw, Bool.not_eq_true] at plain
    split
    · rename_i nothing
      rw [nothing] at first
      have blank : source.first? = none := by
        generalize source.first? = other at first
        cases first
        rfl
      exact ⟨_, laid.skip (by simpa [SourceLine.isWritten, SourceLine.isRaw, blank] using plain)⟩
    · rename_i item found
      split
      · rename_i commentOnly
        rw [mirrors.isCommentOnly] at commentOnly
        exact laid.add_comment mirrors follows neat plain commentOnly
      · rename_i commented
        rw [mirrors.isCommentOnly, Bool.not_eq_true] at commented
        rw [found] at first
        generalize shown : source.first? = other at first
        cases first with
        | some matched =>
          refine laid.add_code mirrors follows neat white ?_ shown (matched.keyed ?_)
          · exact SourceLine.isCode_iff.mpr ⟨plain, by simp [shown], commented⟩
          · exact matched.verbatim.trans (SourceLine.isVerbatim_first shown plain)

end

/-- **All lines.** -/
theorem Laid.addAll (white : ∀ glyph ∈ options.indent, Catcode.initial glyph = .space)
    {done : List SourceLine} {page : Page} (laid : Laid options document done page rows)
    {lines : List Line} {sources : List SourceLine}
    (mirror : List.Forall₂ (Line.Mirrors options document) lines sources)
    (follow : ∀ before line after, done ++ sources = before ++ line :: after →
      line.Follows options document before)
    (neat : ∀ line ∈ sources, line.Neat) :
    ∃ more, Laid options document (done ++ sources) (lines.foldl (Page.add options) page) more := by
  induction mirror generalizing done page rows with
  | nil => exact ⟨rows, by simpa using laid⟩
  | @cons line source lines sources first _ ih =>
    rw [List.forall_mem_cons] at neat
    obtain ⟨more, added⟩ := laid.add first (follow done source sources rfl) neat.1 white
    rw [← List.singleton_append, ← List.append_assoc] at follow ⊢
    exact ih added follow neat.2

open Lexer

/-- What is written for all lines of a document is canonical. -/
theorem Laid.canonical {page : Page} (laid : Laid options document document.sourceLines page rows) :
    Canonical options document rows where
  sources := laid.sources
  fits := laid.fits
  first := laid.first
  last row ends empty := by
    obtain ⟨_, _, _, _, aside⟩ := laid.last row ends
    exact aside empty
  apart := laid.apart
  separated := laid.separated

/-- The tokens of a document have texts as they are read. -/
theorem neat_of_pieces {source : Text} {tokens : List Token}
    (same : tokens.map pieceOf = pieces .standard source)
    (splits : Parser.Splits tokens (document.root.placed.map Placed.token)) :
    ∀ line ∈ document.sourceLines, line.Neat := by
  obtain ⟨last, legible⟩ := legible_of_pieces plain_standard same
  have neat := (legible.splits splits).neat plain_standard
  intro line member placed among
  refine ⟨neat _ (List.mem_map_of_mem ?_),
    (isEndOfLine_of_mem_sourceLines _ line member).1 placed among⟩
  rw [← flatMap_sourceLines document.root.placed]
  exact List.mem_flatMap.mpr ⟨line, member, List.mem_append_left _ among⟩

/-- **Canonical layout.** A source without assignments by number is laid out in rows that each end
in a line feed. Where verbatim text is put aside, none of them is blank at the start, at the end or
next to another one, code stands behind its margin and ends without blanks, and a blank row parts
code in different major commands. -/
theorem canonical_format (source : Text) (commands : CommandTable) (options : Options)
    (white : ∀ glyph ∈ options.indent, glyph = .char ' ' ∨ glyph = .char '\t') (fileId : FileId)
    (noCatcode : ∀ token ∈ (scan source .standard fileId).tokens.toList,
      token.isControlWord "catcode" = false) :
    ∃ document rows, Document.parse source .standard commands fileId = .ok document ∧
      document.format options = rows.flatMap (fun row => row.text ++ [.char '\n']) ∧
      Canonical options document rows := by
  have noWord : .controlWord "catcode" ∉ reads .standard source :=
    noCatcode_iff.mp <| noCatcode_of_scan fun token member =>
      (isCatcode_kind token).trans (noCatcode token member)
  obtain ⟨document, content, last, reports, parsed, -, -, same, splits, -⟩ :=
    exists_parse_plain noWord commands fileId
  have spaces : ∀ glyph ∈ options.indent, Catcode.initial glyph = .space := by
    intro glyph member
    rcases white glyph member with rfl | rfl <;> rfl
  obtain ⟨rows, laid⟩ := laid_nil.addAll spaces (Document.lines_mirror parsed options)
    (fun _ _ _ split => Document.follows_of_parse parsed options split)
    (neat_of_pieces same splits)
  refine ⟨document, rows, parsed, ?_, laid.canonical⟩
  rw [Document.format, laid.texts, List.flatMap_map]

/-- A heading on several lines, with blank lines and a comment behind it, and verbatim text. -/
def headed : Text :=
  .ofString ("\\section\x7b\n%a \nB\x7d\n \n\n% b\n\\emph   \nc " ++
    "\\begin\x7bverbatim\x7d\n\n \\end\x7bverbatim\x7d\\x  ")

theorem canonical_format_headed :
    (∀ glyph ∈ Options.standard.indent, glyph = .char ' ' ∨ glyph = .char '\t') ∧
      (∀ token ∈ (scan headed .standard 0).tokens.toList,
        token.isControlWord "catcode" = false) ∧
      (Document.parse headed .standard .standard 0).toOption.map (Document.format .standard) =
        some (.ofString ("\\section\x7b\n%a\n  B\x7d\n\n% b\n\n\\emph\nc " ++
          "\\begin\x7bverbatim\x7d\n\n\\end\x7bverbatim\x7d\\x\n")) ∧
      ∃ document rows, Document.parse headed .standard .standard 0 = .ok document ∧
        document.format .standard = rows.flatMap (fun row => row.text ++ [.char '\n']) ∧
        Canonical .standard document rows :=
  ⟨by decide, by decide +kernel, by decide +kernel,
    canonical_format headed .standard .standard (by decide) 0 (by decide +kernel)⟩

end Layout

end TexSource
