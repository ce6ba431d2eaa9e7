import TexSource.Proofs.Lexer.Displacement

/-!
# Control words with a name in braces

Where every glyph has its initial category code, a control word with a name in braces is read as the
word, the braces and the letters of the name, whatever stands behind it, and leaves the table as it
was (`Lexer.exists_reads_tag`). So does text without control sequences, comments and braces in front
of a control sequence (`Lexer.exists_reads_plain`).
-/

namespace TexSource

/-- Glyphs have their initial category codes, also when groups have ended. -/
def Catcode.Table.IsInitial (table : Table) : Prop :=
  ∀ ended glyph, classify (Layered.pop^[ended] table) glyph = Catcode.initial glyph

namespace Catcode.Table.IsInitial

variable {table other : Table}

theorem standard : IsInitial .standard := by
  intro ended glyph
  have flat : Layered.pop Table.standard = Table.standard := rfl
  rw [Function.iterate_fixed flat]
  rfl

theorem pop (initial : IsInitial table) : IsInitial table.pop :=
  fun ended => initial (ended + 1)

theorem push (initial : IsInitial table) : IsInitial table.push := by
  intro ended
  cases ended with
  | zero => exact initial 0
  | succ ended => exact initial ended

theorem alike (first : IsInitial table) (second : IsInitial other) : Alike table other :=
  fun ended glyph => (first ended glyph).trans (second ended glyph).symm

/-- No token but those of assignments changes category codes. -/
theorem behind {kind : Token.Kind} (initial : IsInitial table)
    (harmless : Lexer.isDirective kind = false) : IsInitial (Lexer.behind table kind) := by
  cases kind with
  | controlWord name =>
    have other : name ≠ "makeatletter" ∧ name ≠ "makeatother" := by
      constructor <;> rintro rfl <;> cases harmless
    rw [Lexer.behind, Lexer.behindWord, if_neg other.1, if_neg other.2]
    exact initial
  | beginGroup => exact initial.push
  | endGroup => exact initial.pop
  | _ => exact initial

end Catcode.Table.IsInitial

namespace Lexer

/-- Where no token assigns category codes, glyphs keep their initial ones. -/
theorem Reads.exists_live {fileId : FileId} {text ahead : Text} {cursor head : Cursor}
    {tokens : List Token} (reads : Reads fileId text cursor tokens ahead head)
    {table : Catcode.Table} (live : cursor.Live table) (initial : table.IsInitial)
    (harmless : ∀ token ∈ tokens, isDirective token.kind = false) :
    ∃ later : Catcode.Table, head.Live later ∧ later.IsInitial := by
  induction reads generalizing table with
  | done => exact ⟨table, live, initial⟩
  | @next glyph rest _ _ _ _ _ _ ih =>
    rw [List.forall_mem_cons] at harmless
    have agrees := agrees_nextToken fileId glyph rest live
    rw [agrees.kind] at harmless
    have goesOn := agrees.goesOn (isCatcode_of_not_isDirective harmless.1)
    exact ih goesOn.2 (initial.behind harmless.1) harmless.2

/-- A letter as a token without a place. -/
def letterToken (glyph : Glyph) : Token where
  kind := .character glyph .letter
  raw := [glyph]
  span := default

/-- A control word and a name in braces as tokens without places. -/
def tagTokens (word name : Text) : List Token :=
  { kind := .controlWord word, raw := Problem.control word, span := default } ::
    { kind := .beginGroup (.char '\x7b'), raw := [.char '\x7b'], span := default } ::
      (name.map letterToken ++
        [{ kind := .endGroup (.char '\x7d'), raw := [.char '\x7d'], span := default }])

theorem unplaced_tagTokens (word name : Text) :
    (tagTokens word name).map Token.unplaced = tagTokens word name := by
  simp [tagTokens, letterToken, Token.unplaced]

section

variable (fileId : FileId) {table : Catcode.Table} {cursor : Cursor}

theorem Reads.cons {glyph : Glyph} {rest ahead : Text} {lexeme : Lexeme} {tokens : List Token}
    {head : Cursor} (first : nextToken fileId glyph rest cursor = lexeme)
    (complete : lexeme.failure = none)
    (later : Reads fileId lexeme.rest lexeme.cursor tokens ahead head) :
    Reads fileId (glyph :: rest) cursor (lexeme.token :: tokens) ahead head := by
  subst first
  exact .next complete later

theorem exists_reads_letters {name : Text}
    (letters : ∀ glyph ∈ name, table.classify glyph = .letter)
    (settled : cursor.Settled table) (rest : Text) :
    ∃ tokens head, Reads fileId (name ++ rest) cursor tokens rest head ∧ head.Settled table ∧
      tokens.map Token.unplaced = name.map letterToken := by
  induction name generalizing cursor with
  | nil => exact ⟨[], cursor, .done rest cursor, settled, rfl⟩
  | cons glyph name ih =>
    rw [List.forall_mem_cons] at letters
    have single : nextToken fileId glyph (name ++ rest) cursor =
        singleGlyph fileId (.character glyph .letter) glyph (name ++ rest) cursor := by
      unfold nextToken
      dsimp only
      rw [settled.settle_eq, settled.table, letters.1]
    obtain ⟨tokens, head, reads, reached, same⟩ :=
      ih letters.2 (settled.advance glyph (name ++ rest))
    exact ⟨_, head, .cons fileId single rfl reads, reached, congrArg (letterToken glyph :: ·) same⟩

/-- A control word in front of a glyph that is neither a letter nor a space. -/
theorem exists_reads_word {letter glyph : Glyph} {word : Text}
    (escapes : table.classify (.char '\\') = .escape)
    (letters : ∀ other ∈ letter :: word, table.classify other = .letter)
    (noLetter : table.classify glyph ≠ .letter) (noSpace : table.classify glyph ≠ .space)
    (undirected : isDirective (.controlWord (letter :: word)) = false)
    (live : cursor.Live table) (rest : Text) :
    ∃ token head, Reads fileId (.char '\\' :: letter :: (word ++ glyph :: rest)) cursor [token]
        (glyph :: rest) head ∧ head.Settled table ∧
      token.unplaced = { kind := .controlWord (letter :: word)
                         raw := Problem.control (letter :: word)
                         span := default } := by
  rw [List.forall_mem_cons] at letters
  have settled : cursor.settle.Settled table := live
  have behind := settled.advance (.char '\\') (letter :: (word ++ glyph :: rest))
  obtain ⟨taken, left, named⟩ := munch_of_settled (· = .letter) (word ++ glyph :: rest)
    (behind.advance letter (word ++ glyph :: rest))
  have isLetter : ∀ other ∈ word, decide (table.classify other = .letter) = true := by
    simpa using letters.2
  rw [List.takeWhile_append_of_pos isLetter, List.takeWhile_cons_of_neg (by simpa using noLetter),
    List.append_nil] at taken
  rw [List.dropWhile_append_of_pos isLetter, List.dropWhile_cons_of_neg (by simpa using noLetter)]
    at left
  have first : nextToken fileId (.char '\\') (letter :: (word ++ glyph :: rest)) cursor =
      controlWord fileId (.char '\\') letter (word ++ glyph :: rest) cursor.settle
        (cursor.settle.advance (.char '\\') (letter :: (word ++ glyph :: rest))) := by
    unfold nextToken
    dsimp only
    rw [settled.table, escapes]
    dsimp only [controlSequence]
    rw [behind.settle_eq, behind.table, letters.1]
  unfold controlWord at first
  dsimp only at first
  generalize munch (· = .letter) (word ++ glyph :: rest) _ = name at taken left named first
  have gap : munch (· = .space) (glyph :: rest) name.cursor = ⟨[], glyph :: rest, name.cursor⟩ := by
    rw [munch]
    dsimp only
    rw [named.settle_eq, named.table, if_neg (by simpa using noSpace)]
  rw [left, taken, gap, directive_of_not_isDirective undirected] at first
  refine ⟨_, _, .cons fileId first rfl (.done ..), ?_, ?_⟩
  · exact ⟨named.table, by simp [named.pending]⟩
  · simp [Token.unplaced, tokenBetween, Problem.control]

/-- A brace is read alone, and leaves the table of its kind behind. -/
theorem exists_reads_brace {glyph : Glyph} {kind : Token.Kind}
    (brace : table.classify glyph = .beginGroup ∧ kind = .beginGroup glyph ∨
      table.classify glyph = .endGroup ∧ kind = .endGroup glyph)
    (settled : cursor.Settled table) (rest : Text) :
    ∃ token head, Reads fileId (glyph :: rest) cursor [token] rest head ∧
      head.Settled (behind table kind) ∧
      token.unplaced = { kind := kind, raw := [glyph], span := default } := by
  have first : nextToken fileId glyph rest cursor =
      { singleGlyph fileId kind glyph rest cursor with
        cursor := { cursor.advance glyph rest with table := behind cursor.table kind } } := by
    unfold nextToken
    dsimp only
    obtain ⟨code, rfl⟩ | ⟨code, rfl⟩ := brace
    all_goals
      rw [settled.settle_eq, show cursor.table.classify glyph = _ by rw [settled.table, code]]
      rfl
  exact ⟨_, _, .cons fileId first rfl (.done ..),
    ⟨congrArg (behind · kind) settled.table, settled.pending⟩, rfl⟩

/-- **A control word with a name in braces.** -/
theorem exists_reads_tag (word name : Text) (written : word ≠ [])
    (initial : table.IsInitial)
    (letters : ∀ glyph ∈ word ++ name, Catcode.initial glyph = .letter)
    (undirected : isDirective (.controlWord word) = false) (live : cursor.Live table)
    (rest : Text) :
    ∃ tokens head, Reads fileId (Problem.control word ++ Problem.braced name ++ rest) cursor tokens
        rest head ∧
      head.Settled table ∧ tokens.map Token.unplaced = tagTokens word name := by
  obtain ⟨letter, word, rfl⟩ := List.exists_cons_of_ne_nil written
  have codes : ∀ glyph, table.classify glyph = Catcode.initial glyph := initial 0
  rw [List.forall_mem_append] at letters
  have opens : table.classify (.char '\x7b') = .beginGroup := codes _
  have closes : Catcode.Table.classify table.push (.char '\x7d') = .endGroup := codes _
  have inGroup : ∀ glyph ∈ name, Catcode.Table.classify table.push glyph = .letter :=
    fun glyph member => (codes glyph).trans (letters.2 glyph member)
  obtain ⟨first, start, readsWord, settled, word⟩ := exists_reads_word fileId (codes _)
    (fun glyph member => (codes glyph).trans (letters.1 glyph member))
    (by rw [opens]; decide) (by rw [opens]; decide) undirected live
    (name ++ .char '\x7d' :: rest)
  obtain ⟨opener, inside, readsOpener, opened, opening⟩ :=
    exists_reads_brace fileId (.inl ⟨opens, rfl⟩) settled (name ++ .char '\x7d' :: rest)
  obtain ⟨tokens, behind, readsName, reached, spelled⟩ :=
    exists_reads_letters fileId inGroup opened (.char '\x7d' :: rest)
  obtain ⟨closer, head, readsCloser, closed, closing⟩ :=
    exists_reads_brace fileId (.inr ⟨closes, rfl⟩) reached rest
  have reads := readsWord.append (readsOpener.append (readsName.append readsCloser))
  refine ⟨_, head, by simpa [Problem.control, Problem.braced] using reads, closed, ?_⟩
  simp [tagTokens, word, opening, spelled, closing]

end

/-- Whether the glyphs of a category are no braces and start no control sequences or comments. -/
def isPlain : Catcode → Bool
  | .escape | .beginGroup | .endGroup | .comment => false
  | _ => true

/-- Whether a token of a kind is neither a control word nor a brace. -/
def keepsTable : Token.Kind → Bool
  | .controlWord _ | .beginGroup _ | .endGroup _ => false
  | _ => true

theorem behind_of_keepsTable {table : Catcode.Table} {kind : Token.Kind}
    (keeps : keepsTable kind = true) : behind table kind = table := by
  cases kind <;> first | rfl | cases keeps

theorem isDirective_of_keepsTable {kind : Token.Kind} (keeps : keepsTable kind = true) :
    isDirective kind = false := by
  cases kind <;> first | rfl | cases keeps

/-- A plain glyph is read with some of the text behind it, up to the next escape at most. -/
theorem cut_of_isPlain {table : Catcode.Table} {glyph escape : Glyph}
    (plain : isPlain (table.classify glyph) = true) (escapes : table.classify escape = .escape)
    (noLineEnd : escape ≠ .char '\n') (rest more : Text) :
    ∃ later, later <:+ rest ∧
      (cut table glyph (rest ++ escape :: more)).2 = later ++ escape :: more ∧
        keepsTable (cut table glyph (rest ++ escape :: more)).1.kind = true := by
  have alone : ∀ kind, keepsTable kind = true → ∃ later, later <:+ rest ∧
      (single kind glyph (rest ++ escape :: more)).2 = later ++ escape :: more ∧
        keepsTable (single kind glyph (rest ++ escape :: more)).1.kind = true :=
    fun kind keeps => ⟨rest, List.suffix_refl _, rfl, keeps⟩
  unfold cut
  cases category : table.classify glyph with
  | escape => rw [category] at plain; cases plain
  | beginGroup => rw [category] at plain; cases plain
  | endGroup => rw [category] at plain; cases plain
  | comment => rw [category] at plain; cases plain
  | mathShift =>
    dsimp only
    cases rest with
    | nil => simpa [cutShift, escapes] using alone (.mathShift false) rfl
    | cons next rest =>
      rw [List.cons_append, cutShift]
      split
      · exact ⟨rest, List.suffix_cons .., rfl, rfl⟩
      · exact alone (.mathShift false) rfl
  | endOfLine =>
    dsimp only
    by_cases pair : ∃ later, glyph = .char '\r' ∧ rest = .char '\n' :: later
    · obtain ⟨later, rfl, rfl⟩ := pair
      exact ⟨later, List.suffix_cons .., rfl, rfl⟩
    · rw [cutLineEnd.eq_2]
      · exact alone .endOfLine rfl
      · intro later first second
        cases rest with
        | nil => exact noLineEnd (List.cons.inj second).1
        | cons next rest => exact pair ⟨rest, first, by rw [(List.cons.inj second).1]⟩
  | space =>
    dsimp only [run]
    refine ⟨_, List.dropWhile_suffix fun other => decide (table.classify other = .space), ?_, rfl⟩
    rw [List.dropWhile_append, List.dropWhile_cons_of_neg (by simp [escapes])]
    split
    · rename_i none
      rw [List.isEmpty_iff.mp none]
      rfl
    · rfl
  | _ => exact alone _ rfl

/-- **Plain text** is read up to the next escape, and leaves the table as it was. -/
theorem exists_reads_plain (fileId : FileId) {table : Catcode.Table} {cursor : Cursor}
    {text : Text} {escape : Glyph} (plain : ∀ glyph ∈ text, isPlain (table.classify glyph) = true)
    (escapes : table.classify escape = .escape) (noLineEnd : escape ≠ .char '\n')
    (live : cursor.Live table) (more : Text) :
    ∃ tokens head, Reads fileId (text ++ escape :: more) cursor tokens (escape :: more) head ∧
      head.Live table ∧ ∀ token ∈ tokens, keepsTable token.kind = true := by
  induction count : text.length using Nat.strong_induction_on generalizing text cursor with
  | _ length ih =>
    cases text with
    | nil => exact ⟨[], cursor, .done .., live, nofun⟩
    | cons glyph rest =>
      rw [List.forall_mem_cons] at plain
      obtain ⟨later, suffix, left, keeps⟩ :=
        cut_of_isPlain plain.1 escapes noLineEnd rest more
      have agrees := agrees_nextToken fileId glyph (rest ++ escape :: more) live
      have goesOn := agrees.goesOn
        (isCatcode_of_not_isDirective (isDirective_of_keepsTable keeps))
      rw [behind_of_keepsTable keeps] at goesOn
      have shorter : later.length < length := by
        rw [← count]
        exact Nat.lt_succ_of_le suffix.length_le
      obtain ⟨tokens, head, reads, reached, kept⟩ := ih _ shorter
        (fun other member => plain.2 other (suffix.subset member)) goesOn.2 rfl
      rw [← left, ← agrees.rest] at reads
      refine ⟨_, head, .cons fileId rfl goesOn.1 reads, reached, ?_⟩
      exact List.forall_mem_cons.mpr ⟨(congrArg keepsTable agrees.kind).trans keeps, kept⟩

end Lexer

end TexSource
