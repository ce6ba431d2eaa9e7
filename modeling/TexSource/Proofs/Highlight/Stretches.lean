import TexSource.Proofs.Document.Productions
import TexSource.Proofs.Highlight
import TexSource.Proofs.Lexer.Heads
import TexSource.Proofs.Spans

/-!
# Every mark has its stretch

The tokens of a parsed document stand apart, each with an extent (`Document.apart_of_parse`), so
that no mark hides another one: the stretches of the file cover every token that is marked with
the category of its mark (`Document.covers_highlight`).
-/

namespace TexSource

/-- Tokens stand apart in the order of their file: each has an extent, and stops before or where
those behind it start. -/
structure Token.Apart (tokens : List Token) : Prop where
  extent : ∀ token ∈ tokens, token.span.start.offset < token.span.stop.offset
  ordered : tokens.Pairwise fun token next => token.span.stop.offset ≤ next.span.start.offset

namespace Lexer

/-- A doubled math shift takes two glyphs. -/
theorem length_doubled (fileId : FileId) (glyph : Glyph) (rest : Text) (cursor : Cursor)
    (doubled : (nextToken fileId glyph rest cursor).token.kind = .mathShift true) :
    (nextToken fileId glyph rest cursor).token.raw.length = 2 := by
  have sequence (settled : Cursor) :
      (controlSequence fileId glyph rest settled).token.kind ≠ .mathShift true := by
    unfold controlSequence
    intro same
    split at same
    · cases same
    · dsimp only at same
      split at same
      · cases same
      · unfold controlWord at same
        dsimp only at same
        split at same <;> cases same
      · cases same
  have shift (settled : Cursor)
      (doubled : (mathShift fileId glyph rest settled).token.kind = .mathShift true) :
      (mathShift fileId glyph rest settled).token.raw.length = 2 := by
    unfold mathShift at doubled ⊢
    split at doubled
    · cases doubled
    · dsimp only at doubled ⊢
      split at doubled
      · rename_i follows
        rw [if_pos follows]
        rfl
      · cases doubled
  have ends (settled : Cursor) :
      (lineEnd fileId glyph rest settled).token.kind ≠ .mathShift true := by
    unfold lineEnd
    intro same
    split at same <;> cases same
  unfold nextToken at doubled ⊢
  dsimp only at doubled ⊢
  split at doubled
  case h_1 => exact absurd doubled (sequence _)
  case h_4 => exact shift _ doubled
  case h_5 => exact absurd doubled (ends _)
  all_goals cases doubled

theorem Reads.length_doubled {fileId : FileId} {text ahead : Text} {cursor head : Cursor}
    {tokens : List Token} (reads : Reads fileId text cursor tokens ahead head) :
    ∀ token ∈ tokens, token.kind = .mathShift true → token.raw.length = 2 := by
  induction reads with
  | done => exact List.forall_mem_nil _
  | next complete later ih =>
    exact List.forall_mem_cons.mpr ⟨Lexer.length_doubled _ _ _ _, ih⟩

/-- What is read does not come of a macro. -/
theorem expanded_nextToken (fileId : FileId) (glyph : Glyph) (rest : Text) (cursor : Cursor) :
    (nextToken fileId glyph rest cursor).token.expanded = false := by
  obtain ⟨start, stop, kind, raw, built⟩ := exists_tokenBetween fileId glyph rest cursor
  rw [built]
  rfl

theorem Reads.isOwn {fileId : FileId} {source text behind ahead : Text} {cursor head : Cursor}
    {tokens : List Token} (reads : Reads fileId text cursor tokens ahead head)
    (stands : cursor.Stands source behind text) :
    ∀ token ∈ tokens, Highlight.isOwn fileId token = true := by
  induction reads generalizing behind with
  | done => exact List.forall_mem_nil _
  | next complete later ih =>
    have follows := follows_nextToken fileId stands
    refine List.forall_mem_cons.mpr ⟨?_, ih follows.stands⟩
    simp [Highlight.isOwn, expanded_nextToken, fileId_nextToken, follows.covers.nonempty]

theorem length_le_encode (text : Text) : text.length ≤ (Text.encode text).length := by
  induction text with
  | nil => exact Nat.le_refl _
  | cons glyph rest ih =>
    have filled := Text.byteWidth_pos glyph
    rw [Text.encode_cons, List.length_append, Text.length_bytes, List.length_cons]
    omega

/-- Tokens that tile a part of the source stand apart behind its start, also when math shifts are
split. -/
theorem Tiles.apart {source behind reached : Text} {tokens others : List Token}
    (splits : Parser.Splits tokens others) (tiles : Tiles source behind tokens reached)
    (within : reached <+: source)
    (doubled : ∀ token ∈ tokens, token.kind = .mathShift true → token.raw.length = 2) :
    Token.Apart others ∧
      ∀ token ∈ others, (Text.encode behind).length ≤ token.span.start.offset := by
  induction splits generalizing behind with
  | nil => exact ⟨⟨List.forall_mem_nil _, .nil⟩, List.forall_mem_nil _⟩
  | @keep token tokens others later ih =>
    obtain - | ⟨covers, tiles⟩ := tiles
    rw [List.forall_mem_cons] at doubled
    have inside : behind ++ token.raw <+: source := .trans ⟨_, tiles.reached_eq.symm⟩ within
    obtain ⟨start, stop⟩ := covers.offsets inside
    obtain ⟨apart, behindAll⟩ := ih tiles doubled.2
    have filled := List.length_pos_iff.mpr covers.nonempty
    have wide := length_le_encode token.raw
    rw [Text.encode_append, List.length_append] at stop
    have behindToken : ∀ next ∈ others, token.span.stop.offset ≤ next.span.start.offset := by
      intro next member
      have bound := behindAll next member
      rw [Text.encode_append, List.length_append] at bound
      omega
    refine ⟨⟨List.forall_mem_cons.mpr ⟨by omega, apart.extent⟩,
      List.pairwise_cons.mpr ⟨behindToken, apart.ordered⟩⟩, List.forall_mem_cons.mpr ⟨by omega, ?_⟩⟩
    intro next member
    have bound := behindToken next member
    omega
  | @split shift isDoubled tokens others later ih =>
    obtain - | ⟨covers, tiles⟩ := tiles
    rw [List.forall_mem_cons] at doubled
    have inside : behind ++ shift.raw <+: source := .trans ⟨_, tiles.reached_eq.symm⟩ within
    obtain ⟨start, stop⟩ := covers.offsets inside
    obtain ⟨apart, behindAll⟩ := ih tiles doubled.2
    have two := doubled.1 isDoubled
    have wide := length_le_encode shift.raw
    rw [Text.encode_append, List.length_append] at stop
    have behindShift : ∀ next ∈ others, shift.span.stop.offset ≤ next.span.start.offset := by
      intro next member
      have bound := behindAll next member
      rw [Text.encode_append, List.length_append] at bound
      omega
    -- The place between the halves lies within the shift.
    have first : (Parser.splitShift shift).1.span.start.offset = shift.span.start.offset ∧
        (Parser.splitShift shift).1.span.stop.offset = shift.span.start.offset + 1 := ⟨rfl, rfl⟩
    have second : (Parser.splitShift shift).2.span.start.offset = shift.span.start.offset + 1 ∧
        (Parser.splitShift shift).2.span.stop.offset = shift.span.stop.offset := ⟨rfl, rfl⟩
    refine ⟨⟨List.forall_mem_cons.mpr ⟨by omega, List.forall_mem_cons.mpr
      ⟨by omega, apart.extent⟩⟩, List.pairwise_cons.mpr ⟨List.forall_mem_cons.mpr ⟨by omega, ?_⟩,
        List.pairwise_cons.mpr ⟨?_, apart.ordered⟩⟩⟩, List.forall_mem_cons.mpr ⟨by omega,
          List.forall_mem_cons.mpr ⟨by omega, ?_⟩⟩⟩
    all_goals
      intro next member
      have bound := behindShift next member
      omega

end Lexer

/-- The tokens of a parsed document stand apart, and are tokens of its file. -/
theorem Document.apart_of_parse {source : Text} {table : Catcode.Table} {commands : CommandTable}
    {fileId : FileId} {document : Document}
    (parsed : parse source table commands fileId = .ok document) :
    Token.Apart document.root.tokens ∧
      ∀ token ∈ document.root.tokens, Highlight.isOwn document.fileId token = true := by
  obtain ⟨tokens, reports, diagnostics, read, rfl⟩ := Expansion.document_of_parse parsed
  obtain ⟨content, head, reads, rfl⟩ := Lexer.exists_reads_of_lex read
  obtain ⟨children, others, derived⟩ := derived_ofTokens
    (content ++ [Token.endOfInputAt head.position fileId]) source fileId commands
  have start := Lexer.Cursor.stands_atStart source table
  obtain ⟨reached, tiles, stands⟩ := reads.tiles start
  have kept := derived.kept
  rw [contentOf_concat reads.isEndOfInput_of_mem rfl] at kept
  refine ⟨(tiles.apart kept ⟨[], by simpa using stands.split.symm⟩ reads.length_doubled).1, ?_⟩
  have own : ∀ token ∈ content, Highlight.isOwn fileId token = true ∧
      (token.kind = .mathShift true → token.raw.length = 2) := fun token member =>
    ⟨reads.isOwn start token member, reads.length_doubled token member⟩
  refine fun token member => (kept.forall_mem (fun shift doubled known => ?_) own token member).1
  obtain ⟨known, two⟩ := known
  have filled := two doubled
  simp only [Highlight.isOwn, Bool.and_eq_true, decide_eq_true_eq] at known ⊢
  have first : (Parser.splitShift shift).1.raw ≠ [] := by
    rw [Parser.splitShift, ne_eq, List.take_eq_nil_iff]
    simp [← List.length_eq_zero_iff, filled]
  have second : (Parser.splitShift shift).2.raw ≠ [] := by
    rw [Parser.splitShift, ne_eq, List.drop_eq_nil_iff]
    omega
  refine ⟨⟨⟨⟨known.1.1, first⟩, known.2⟩, fun again => ?_⟩,
    ⟨⟨known.1.1, second⟩, known.2⟩, fun again => ?_⟩ <;> cases again

namespace Highlight

variable {fileId : FileId} {stretches : List Stretch} {span : Span} {category : Category}

/-- A stretch covers the bytes of a span. -/
def Stretch.Covers (stretch : Stretch) (span : Span) : Prop :=
  stretch.span.start.offset ≤ span.start.offset ∧ span.stop.offset ≤ stretch.span.stop.offset

instance (stretch : Stretch) (span : Span) : Decidable (stretch.Covers span) :=
  inferInstanceAs (Decidable (_ ∧ _))

/-- A span lies in a stretch of a category. -/
def LiesIn (stretches : List Stretch) (span : Span) (category : Category) : Prop :=
  ∃ stretch ∈ stretches, stretch.Covers span ∧ stretch.category = category

theorem LiesIn.reverse (lies : LiesIn stretches span category) :
    LiesIn stretches.reverse span category := by
  obtain ⟨stretch, member, covers⟩ := lies
  exact ⟨stretch, List.mem_reverse.mpr member, covers⟩

/-- What lies in a stretch stays there when stretches are added. -/
theorem LiesIn.extend {start : Position} (lies : LiesIn stretches span category)
    (stop : Position) (added : Category) :
    LiesIn (extend fileId stretches start stop added) span category := by
  obtain ⟨stretch, member, ⟨starts, stops⟩, same⟩ := lies
  unfold Highlight.extend
  split
  · exact ⟨stretch, member, ⟨starts, stops⟩, same⟩
  · rename_i extent
    split
    · rename_i last others
      split
      · rename_i goesOn
        rw [Bool.and_eq_true, decide_eq_true_eq, decide_eq_true_eq] at goesOn
        rcases List.mem_cons.mp member with rfl | member
        · refine ⟨_, List.mem_cons_self, ⟨starts, ?_⟩, goesOn.1.symm.trans same⟩
          change span.stop.offset ≤ stop.offset
          omega
        · exact ⟨stretch, List.mem_cons_of_mem _ member, ⟨starts, stops⟩, same⟩
      · exact ⟨stretch, List.mem_cons_of_mem _ member, ⟨starts, stops⟩, same⟩
    · cases member

/-- What is added lies in a stretch. -/
theorem liesIn_extend {start stop : Position} (laid : Laid fileId stretches start.offset)
    (extent : start.offset < stop.offset) (own : FileId) (category : Category) :
    LiesIn (extend fileId stretches start stop category) ⟨start, stop, own⟩ category := by
  unfold extend
  rw [if_neg (Nat.not_le.mpr extent)]
  split
  · rename_i last others
    split
    · refine ⟨_, List.mem_cons_self, ⟨?_, Nat.le_refl _⟩, rfl⟩
      have filled := laid.nonempty last List.mem_cons_self
      have reached := laid.latest last rfl
      change last.span.start.offset ≤ start.offset
      omega
    · exact ⟨_, List.mem_cons_self, ⟨Nat.le_refl _, Nat.le_refl _⟩, rfl⟩
  · exact ⟨_, List.mem_cons_self, ⟨Nat.le_refl _, Nat.le_refl _⟩, rfl⟩

/-- Covering marks of tokens that stand apart lays a stretch for each of them. -/
theorem liesIn_cover {marks : List Mark} {reached : Position}
    (apart : Token.Apart (marks.map Mark.token))
    (behind : ∀ mark ∈ marks, reached.offset ≤ mark.token.span.start.offset)
    (laid : Laid fileId stretches reached.offset) :
    (∀ span category, LiesIn stretches span category →
        LiesIn (cover fileId stretches reached marks).1 span category) ∧
      ∀ mark ∈ marks, LiesIn (cover fileId stretches reached marks).1 mark.token.span
        mark.category := by
  induction marks generalizing stretches reached with
  | nil => exact ⟨fun _ _ lies => lies, List.forall_mem_nil _⟩
  | cons mark rest ih =>
    obtain ⟨extent, ordered⟩ := apart
    rw [List.map_cons, List.forall_mem_cons] at extent
    rw [List.map_cons, List.pairwise_cons] at ordered
    rw [List.forall_mem_cons] at behind
    have filled := laid_extend laid mark.token.span.start .text
    rw [Nat.max_eq_right behind.1] at filled
    have marked := laid_extend filled mark.token.span.stop mark.category
    rw [Nat.max_eq_right (Nat.le_of_lt extent.1)] at marked
    obtain ⟨kept, later⟩ := ih ⟨extent.2, ordered.2⟩
      (fun next member => ordered.1 _ (List.mem_map_of_mem member)) marked
    unfold cover
    rw [if_neg (Nat.not_lt.mpr behind.1)]
    refine ⟨fun span category lies => kept _ _ ((lies.extend _ _).extend _ _), ?_⟩
    exact List.forall_mem_cons.mpr ⟨kept _ _ (liesIn_extend filled extent.1 _ _), later⟩

end Highlight

namespace Document

open Highlight

section

variable {source : Text} {table : Catcode.Table} {commands : CommandTable} {fileId : FileId}
  {document : Document}

/-- The nodes of a document with a report. -/
def reported (document : Document) : List NodeId :=
  document.diagnostics.filterMap (·.node)

/-- The tokens that are marked in a parsed document stand apart. -/
theorem apart_markNode (parsed : parse source table commands fileId = .ok document) :
    Token.Apart
      ((markNode document.fileId document.reported .text document.root).map Mark.token) := by
  have whole := (marks_markNode document.fileId document.reported .text document.root).trans
    List.filter_sublist
  have apart := (apart_of_parse parsed).1
  exact ⟨fun token member => apart.extent token (whole.subset member), apart.ordered.sublist whole⟩

/-- The marks of a parsed document are made in the order of its file. -/
theorem marks_of_parse (parsed : parse source table commands fileId = .ok document) :
    document.marks = markNode document.fileId document.reported .text document.root := by
  have marked := apart_markNode parsed
  refine List.mergeSort_of_pairwise ?_
  refine (List.pairwise_map.mp marked.ordered).imp_of_mem fun {first second} member _ stops => ?_
  have extent := marked.extent _ (List.mem_map_of_mem member)
  exact decide_eq_true (by omega)

/-- **Every mark has its stretch.** In a parsed document each token that is marked lies in a stretch
of the category of its mark. -/
theorem liesIn_highlight (parsed : parse source table commands fileId = .ok document) :
    ∀ mark ∈ markNode document.fileId document.reported .text document.root,
      LiesIn document.highlight mark.token.span mark.category := by
  have start : Laid document.fileId [] Position.start.offset := .nil
  have lies := (liesIn_cover (apart_markNode parsed) (fun _ _ => Nat.zero_le _) start).2
  rw [← marks_of_parse parsed] at lies ⊢
  intro mark member
  unfold highlight
  dsimp only
  split
  · exact ((lies mark member).extend _ _).reverse
  · exact (lies mark member).reverse

end

end Document

end TexSource
