import Mathlib.Data.List.Chain
import Mathlib.Data.List.TakeWhile
import TexSource.Proofs.Places
import TexSource.Token.Lexer

/-!
# The tokens of a text tile it

While a text is read, the head stands behind a first part of it, at the place of that
part's end (`Lexer.Cursor.Stands`), whatever the category code table is and whatever
the text assigns to it. Every token is a stretch from the head to a later head
(`Lexer.Lexeme.Follows`), so the tokens of a text read to its end cut it into
stretches that follow each other directly (`Lexer.Tiles`), and only a directive with a
number of more digits than are converted ends the reading before
(`Lexer.Outcome`). The tokens of the bytes of a file so tile the bytes (`Tiling`).
-/

namespace TexSource

namespace Lexer

variable {source behind ahead : Text} {cursor : Cursor}

/-- The head stands between two parts of a source text, at the place where they meet. -/
structure Cursor.Stands (source behind ahead : Text) (cursor : Cursor) : Prop where
  split : source = behind ++ ahead
  place : cursor.position = source.placeAt behind.length

namespace Cursor

theorem stands_atStart (source : Text) (table : Catcode.Table) :
    (atStart table).Stands source [] source :=
  ⟨rfl, rfl⟩

/-- Assignments that come into force leave the head where it is. -/
theorem Stands.settle (stands : cursor.Stands source behind ahead) :
    cursor.settle.Stands source behind ahead :=
  ⟨stands.split, stands.place⟩

/-- A head that moves over a glyph stands behind it. -/
theorem Stands.advance {glyph : Glyph} {rest : Text}
    (stands : cursor.Stands source behind (glyph :: rest)) :
    (cursor.advance glyph rest).Stands source (behind ++ [glyph]) rest := by
  have found : source[behind.length]? = some glyph := by
    rw [stands.split]
    simp
  have next : source[behind.length + 1]? = rest.head? := by
    rw [stands.split]
    simp [List.getElem?_append_right, List.head?_eq_getElem?]
  refine ⟨by rw [stands.split]; simp, ?_⟩
  rw [List.length_append, List.length_singleton, Text.placeAt_succ found, next]
  exact congrArg (Position.advance · glyph rest.head?) stands.place

end Cursor

/-- A run of glyphs takes the head to its end. -/
theorem stands_munch {text : Text} (wanted : Catcode → Bool)
    (stands : cursor.Stands source behind text) :
    (munch wanted text cursor).cursor.Stands source
      (behind ++ (munch wanted text cursor).taken) (munch wanted text cursor).rest := by
  induction text generalizing behind cursor with
  | nil => simpa [munch] using stands
  | cons glyph rest ih =>
    simp only [munch]
    split
    · have later := ih stands.settle.advance
      simpa using later
    · simpa using stands.settle

/-- A token covers a stretch of the source text directly behind a first part of it. -/
structure Covers (source behind : Text) (token : Token) : Prop where
  nonempty : token.raw ≠ []
  start : token.span.start = source.placeAt behind.length
  stop : token.span.stop = source.placeAt (behind ++ token.raw).length
  content : token.isEndOfInput = false
  unticketed : token.ticket = none

/-- The token of a lexeme covers the text from the end of a first part to the head. -/
structure Lexeme.Follows (source behind : Text) (lexeme : Lexeme) : Prop where
  covers : Covers source behind lexeme.token
  stands : lexeme.cursor.Stands source (behind ++ lexeme.token.raw) lexeme.rest

/-- A token between two heads covers the text between them. -/
theorem follows_tokenBetween {later : Cursor} {rest : Text} (kind : Token.Kind) (raw : Text)
    (fileId : FileId) (failure : Option NumberError)
    (start : cursor.Stands source behind ahead) (stop : later.Stands source (behind ++ raw) rest)
    (nonempty : raw ≠ []) (content : kind ≠ .endOfInput) :
    Lexeme.Follows source behind
      ⟨tokenBetween fileId cursor later kind raw, rest, later, failure⟩ where
  covers := {
    nonempty := nonempty
    start := start.place
    stop := stop.place
    content := decide_eq_false content
    unticketed := rfl }
  stands := stop

theorem follows_singleGlyph (kind : Token.Kind) {glyph : Glyph} {rest : Text} (fileId : FileId)
    (stands : cursor.Stands source behind (glyph :: rest)) (content : kind ≠ .endOfInput) :
    (singleGlyph fileId kind glyph rest cursor).Follows source behind :=
  follows_tokenBetween _ _ fileId none stands stands.advance (List.cons_ne_nil _ _) content

theorem follows_munchedToken {wanted : Catcode → Bool} {kind : Text → Token.Kind} {glyph : Glyph}
    {rest : Text} (fileId : FileId) (stands : cursor.Stands source behind (glyph :: rest))
    (content : ∀ taken, kind taken ≠ .endOfInput) :
    (munchedToken fileId wanted kind glyph rest cursor).Follows source behind := by
  refine follows_tokenBetween _ _ fileId none stands ?_ (List.cons_ne_nil _ _) (content _)
  simpa using stands_munch wanted stands.advance

theorem follows_mathShift {glyph : Glyph} {rest : Text} (fileId : FileId)
    (stands : cursor.Stands source behind (glyph :: rest)) :
    (mathShift fileId glyph rest cursor).Follows source behind := by
  have single := follows_singleGlyph (.mathShift false) fileId stands nofun
  cases rest with
  | nil => exact single
  | cons next later =>
    simp only [mathShift]
    split
    · refine follows_tokenBetween _ _ fileId none stands ?_ (List.cons_ne_nil _ _) nofun
      simpa [singleGlyph] using stands.advance.settle.advance
    · exact { single with stands := single.stands.settle }

theorem follows_lineEnd {glyph : Glyph} {rest : Text} (fileId : FileId)
    (stands : cursor.Stands source behind (glyph :: rest)) :
    (lineEnd fileId glyph rest cursor).Follows source behind := by
  unfold lineEnd
  split
  · refine follows_tokenBetween _ _ fileId none stands ?_ (List.cons_ne_nil _ _) nofun
    simpa using stands.advance.advance
  · exact follows_singleGlyph _ fileId stands nofun

theorem follows_controlWord {escape letter : Glyph} {rest : Text} {afterEscape : Cursor}
    (fileId : FileId) (stands : cursor.Stands source behind (escape :: letter :: rest))
    (escaped : afterEscape.Stands source (behind ++ [escape]) (letter :: rest)) :
    (controlWord fileId escape letter rest cursor afterEscape).Follows source behind := by
  have letters := stands_munch (· = .letter) escaped.advance
  have blanks := stands_munch (· = .space) letters
  unfold controlWord
  simp only
  generalize munch (· = .letter) rest (afterEscape.advance letter rest) = word at letters blanks ⊢
  generalize munch (· = .space) word.rest word.cursor = gap at blanks ⊢
  have read : gap.cursor.Stands source
      (behind ++ (escape :: (letter :: word.taken) ++ gap.taken)) gap.rest := by
    simpa using blanks
  have follows (failure : Option NumberError) := follows_tokenBetween
    (.controlWord (letter :: word.taken)) _ fileId failure stands read (List.cons_ne_nil _ _) nofun
  split
  · exact ⟨(follows none).covers, ⟨read.split, read.place⟩⟩
  · exact follows _

theorem follows_controlSequence {escape : Glyph} {rest : Text} (fileId : FileId)
    (stands : cursor.Stands source behind (escape :: rest)) :
    (controlSequence fileId escape rest cursor).Follows source behind := by
  cases rest with
  | nil =>
    exact follows_tokenBetween _ _ fileId none stands stands.advance (List.cons_ne_nil _ _) nofun
  | cons glyph later =>
    simp only [controlSequence]
    split
    · exact follows_tokenBetween _ _ fileId none stands stands.advance.settle
        (List.cons_ne_nil _ _) nofun
    · exact follows_controlWord fileId stands stands.advance.settle
    · refine follows_tokenBetween _ _ fileId none stands ?_ (List.cons_ne_nil _ _) nofun
      simpa using stands.advance.settle.advance

/-- **One token.** Whatever the table says of the glyph ahead, the token read covers at
least that glyph, and the head comes to stand at its end. -/
theorem follows_nextToken {glyph : Glyph} {rest : Text} (fileId : FileId)
    (stands : cursor.Stands source behind (glyph :: rest)) :
    (nextToken fileId glyph rest cursor).Follows source behind := by
  have settled := stands.settle
  have retabled (lexeme : Lexeme) (table : Catcode.Table) (follows : lexeme.Follows source behind) :
      ({ lexeme with cursor := { lexeme.cursor with table } } : Lexeme).Follows source behind :=
    { follows with stands := ⟨follows.stands.split, follows.stands.place⟩ }
  unfold nextToken
  simp only
  split
  · exact follows_controlSequence fileId settled
  · exact retabled _ _ (follows_singleGlyph _ fileId settled nofun)
  · exact retabled _ _ (follows_singleGlyph _ fileId settled nofun)
  · exact follows_mathShift fileId settled
  · exact follows_lineEnd fileId settled
  · exact follows_munchedToken fileId settled nofun
  · exact follows_munchedToken fileId settled nofun
  all_goals exact follows_singleGlyph _ fileId settled nofun

/-- The text behind the control word of a category code assignment has too many digits
in the code point that is assigned to, or in the number behind it. -/
def OverlongNumber (table : Catcode.Table) (text : Text) : Prop :=
  maxNumberDigits < (text.takeWhile isNumberDigit).length ∨
    ∃ code rest, assignmentTarget table text = .ok (some (code, rest)) ∧
      maxNumberDigits < ((afterEquals rest).takeWhile isNumberDigit).length

/-- The digits of a number in a directive are decimal digits. -/
theorem isSome_decimalValue? {glyph : Glyph} (digit : isNumberDigit glyph = true) :
    glyph.decimalValue?.isSome := by
  cases glyph with
  | byte offset => cases digit
  | char character =>
    simp only [isNumberDigit, Glyph.asciiDigit?] at digit
    split at digit
    · rename_i isDigit
      have bounds : 48 ≤ character.toNat ∧ character.toNat ≤ 57 := by
        simpa [Char.isDigit, UInt32.le_iff_toNat_le] using isDigit
      simp [Glyph.decimalValue?, Unicode.decimalZeros, Glyph.code, bounds]
    · cases digit

/-- A run of digits is refused only for its length. -/
theorem overlong_of_readNumber {digits : Text} {failure : NumberError}
    (wellFormed : ∀ glyph ∈ digits, isNumberDigit glyph = true)
    (failed : readNumber digits = .error failure) : maxNumberDigits < digits.length := by
  have values : (digits.map Glyph.decimalValue?).takeWhile Option.isSome =
      digits.map Glyph.decimalValue? := by
    apply List.takeWhile_eq_self_iff.mpr
    intro value member
    obtain ⟨glyph, present, rfl⟩ := List.mem_map.mp member
    exact isSome_decimalValue? (wellFormed glyph present)
  simp only [readNumber, values, List.length_map, Nat.lt_irrefl, ↓reduceIte] at failed
  split at failed
  · assumption
  · cases failed

theorem overlong_of_leadingNumber {text : Text} {failure : NumberError}
    (failed : leadingNumber text = .error failure) :
    maxNumberDigits < (text.takeWhile isNumberDigit).length := by
  have wellFormed : ∀ glyph ∈ text.takeWhile isNumberDigit, isNumberDigit glyph = true :=
    fun glyph member => List.mem_takeWhile_imp member
  unfold leadingNumber at failed
  split at failed
  · cases failed
  · cases read : readNumber (text.takeWhile isNumberDigit) with
    | error error => exact overlong_of_readNumber wellFormed read
    | ok number =>
      rw [read] at failed
      cases failed

theorem overlong_of_assignmentTarget {table : Catcode.Table} {text : Text} {failure : NumberError}
    (failed : assignmentTarget table text = .error failure) :
    maxNumberDigits < (text.takeWhile isNumberDigit).length := by
  unfold assignmentTarget at failed
  split at failed
  · simp only at failed
    split at failed <;> cases failed
  · cases number : leadingNumber text with
    | error error => exact overlong_of_leadingNumber number
    | ok found =>
      rw [number] at failed
      cases found <;> cases failed

theorem overlong_of_catcodeAssignment {text : Text} {failure : NumberError}
    (failed : catcodeAssignment cursor text = .error failure) :
    OverlongNumber cursor.table text := by
  unfold catcodeAssignment at failed
  cases target : assignmentTarget cursor.table text with
  | error error => exact .inl (overlong_of_assignmentTarget target)
  | ok found =>
    rw [target] at failed
    cases found with
    | none => cases failed
    | some found =>
      obtain ⟨code, rest⟩ := found
      cases number : leadingNumber (afterEquals rest) with
      | error error => exact .inr ⟨code, rest, target, overlong_of_leadingNumber number⟩
      | ok value =>
        simp only [bind, Except.bind, number] at failed
        cases value <;> cases failed

/-- A directive fails only for a number of too many digits behind `\catcode`. -/
theorem overlong_of_directive {name text : Text} {failure : NumberError}
    (failed : directive name cursor text = .error failure) :
    name = "catcode" ∧ OverlongNumber cursor.table text := by
  unfold directive at failed
  split at failed
  · cases failed
  · split at failed
    · cases failed
    · split at failed
      · rename_i isCatcode
        exact ⟨isCatcode, overlong_of_catcodeAssignment failed⟩
      · cases failed

theorem overlong_of_controlWord {fileId : FileId} {escape letter : Glyph} {rest : Text}
    {start afterEscape : Cursor} {failure : NumberError}
    (failed : (controlWord fileId escape letter rest start afterEscape).failure = some failure) :
    (controlWord fileId escape letter rest start afterEscape).token.isControlWord "catcode" = true ∧
      ∃ table,
        OverlongNumber table (controlWord fileId escape letter rest start afterEscape).rest := by
  unfold controlWord at failed ⊢
  simp only at failed ⊢
  split at failed
  · cases failed
  · rename_i error refused
    have ⟨isCatcode, overlong⟩ := overlong_of_directive refused
    refine ⟨?_, ⟨_, overlong⟩⟩
    simp [Token.isControlWord, tokenBetween, isCatcode]

/-- Only the control word of a category code assignment fails. -/
theorem overlong_of_nextToken {fileId : FileId} {glyph : Glyph} {rest : Text}
    {failure : NumberError}
    (failed : (nextToken fileId glyph rest cursor).failure = some failure) :
    (nextToken fileId glyph rest cursor).token.isControlWord "catcode" = true ∧
      ∃ table, OverlongNumber table (nextToken fileId glyph rest cursor).rest := by
  have notShift (settled : Cursor) : (mathShift fileId glyph rest settled).failure = none := by
    unfold mathShift
    split
    · rfl
    · simp only
      split <;> rfl
  have notLineEnd (settled : Cursor) : (lineEnd fileId glyph rest settled).failure = none := by
    unfold lineEnd
    split <;> rfl
  unfold nextToken at failed ⊢
  simp only at failed ⊢
  split at failed
  case h_1 =>
    unfold controlSequence at failed ⊢
    cases rest with
    | nil => cases failed
    | cons glyph later =>
      simp only at failed ⊢
      split at failed
      · cases failed
      · exact overlong_of_controlWord failed
      · cases failed
  case h_4 => rw [notShift] at failed; cases failed
  case h_5 => rw [notLineEnd] at failed; cases failed
  all_goals cases failed

/-- The token that is read is one between two heads. -/
theorem exists_tokenBetween (fileId : FileId) (glyph : Glyph) (rest : Text) (cursor : Cursor) :
    ∃ start stop kind raw,
      (nextToken fileId glyph rest cursor).token = tokenBetween fileId start stop kind raw := by
  have sequence (settled : Cursor) : ∃ start stop kind raw,
      (controlSequence fileId glyph rest settled).token =
        tokenBetween fileId start stop kind raw := by
    unfold controlSequence
    split
    · exact ⟨_, _, _, _, rfl⟩
    · dsimp only
      split
      · exact ⟨_, _, _, _, rfl⟩
      · unfold controlWord
        dsimp only
        split <;> exact ⟨_, _, _, _, rfl⟩
      · exact ⟨_, _, _, _, rfl⟩
  have shift (settled : Cursor) : ∃ start stop kind raw,
      (mathShift fileId glyph rest settled).token = tokenBetween fileId start stop kind raw := by
    unfold mathShift
    split
    · exact ⟨_, _, _, _, rfl⟩
    · dsimp only
      split <;> exact ⟨_, _, _, _, rfl⟩
  have ends (settled : Cursor) : ∃ start stop kind raw,
      (lineEnd fileId glyph rest settled).token = tokenBetween fileId start stop kind raw := by
    unfold lineEnd
    split <;> exact ⟨_, _, _, _, rfl⟩
  unfold nextToken
  dsimp only
  split
  case h_1 => exact sequence _
  case h_4 => exact shift _
  case h_5 => exact ends _
  all_goals exact ⟨_, _, _, _, rfl⟩

/-- The token that is read is one of the file that is read. -/
theorem fileId_nextToken (fileId : FileId) (glyph : Glyph) (rest : Text) (cursor : Cursor) :
    (nextToken fileId glyph rest cursor).token.span.fileId = fileId := by
  obtain ⟨start, stop, kind, raw, built⟩ := exists_tokenBetween fileId glyph rest cursor
  rw [built]
  rfl

theorem fileId_scanFrom (fileId : FileId) (tokens : Array Token) (diagnostics : Array Diagnostic)
    (text : Text) (cursor : Cursor)
    (earlier : ∀ token ∈ tokens.toList, token.span.fileId = fileId) :
    ∀ token ∈ (scanFrom fileId tokens diagnostics text cursor).tokens.toList,
      token.span.fileId = fileId := by
  have pushed {read : Array Token} {last : Token}
      (earlier : ∀ token ∈ read.toList, token.span.fileId = fileId)
      (own : last.span.fileId = fileId) :
      ∀ token ∈ (read.push last).toList, token.span.fileId = fileId := by
    rw [Array.toList_push]
    exact List.forall_mem_append.mpr ⟨earlier, List.forall_mem_singleton.mpr own⟩
  fun_induction scanFrom fileId tokens diagnostics text cursor with
  | case1 tokens diagnostics cursor => exact pushed earlier rfl
  | case2 tokens diagnostics glyph rest cursor lexeme failure failed =>
    exact pushed earlier (fileId_nextToken ..)
  | case3 tokens diagnostics glyph rest cursor lexeme done ih =>
    exact ih (pushed earlier (fileId_nextToken ..))

/-- The tokens of a text are tokens of its file. -/
theorem fileId_of_lex {source : Text} {table : Catcode.Table} {fileId : FileId}
    {tokens : List Token} {diagnostics : List Diagnostic}
    (read : lex source table fileId = .ok (tokens, diagnostics)) :
    ∀ token ∈ tokens, token.span.fileId = fileId := by
  unfold lex at read
  dsimp only at read
  split at read
  · cases read
  · cases read
    exact fileId_scanFrom fileId #[] #[] source (.atStart table) (List.forall_mem_nil _)

/-- Tokens that cut a source text from the end of one part to the end of a longer one
into stretches, each directly behind the one before. -/
inductive Tiles (source : Text) : Text → List Token → Text → Prop where
  | nil (behind : Text) : Tiles source behind [] behind
  | cons {behind reached : Text} {token : Token} {tokens : List Token}
      (covers : Covers source behind token)
      (later : Tiles source (behind ++ token.raw) tokens reached) :
      Tiles source behind (token :: tokens) reached

/-- What reading a source text on from the end of a first part comes to. -/
inductive Outcome (fileId : FileId) (source behind : Text) :
    List Token → Option NumberError → Prop where
  | complete (content : List Token) (tiles : Tiles source behind content source) :
      Outcome fileId source behind
        (content ++ [Token.endOfInputAt (source.placeAt source.length) fileId]) none
  | stopped (content : List Token) {directive : Token} {reached ahead : Text}
      {failure : NumberError} (table : Catcode.Table)
      (tiles : Tiles source behind (content ++ [directive]) reached)
      (split : source = reached ++ ahead)
      (isCatcode : directive.isControlWord "catcode" = true)
      (overlong : OverlongNumber table ahead) :
      Outcome fileId source behind (content ++ [directive]) (some failure)

theorem Outcome.cons {fileId : FileId} {lexeme : Lexeme} {tokens : List Token}
    {failure : Option NumberError} (follows : lexeme.Follows source behind)
    (later : Outcome fileId source (behind ++ lexeme.token.raw) tokens failure) :
    Outcome fileId source behind (lexeme.token :: tokens) failure := by
  cases later with
  | complete content tiles => exact .complete (lexeme.token :: content) (.cons follows.covers tiles)
  | stopped content table tiles split isCatcode overlong =>
    exact .stopped (lexeme.token :: content) table (.cons follows.covers tiles) split isCatcode
      overlong

/-- **Reading a text to its end.** The tokens read tile what was ahead, up to the end or
up to a directive with a number of too many digits. -/
theorem outcome_scanFrom {text : Text} (fileId : FileId) (tokens : Array Token)
    (diagnostics : Array Diagnostic) (stands : cursor.Stands source behind text) :
    ∃ read, (scanFrom fileId tokens diagnostics text cursor).tokens.toList = tokens.toList ++ read ∧
      Outcome fileId source behind read
        (scanFrom fileId tokens diagnostics text cursor).failure := by
  fun_induction scanFrom fileId tokens diagnostics text cursor generalizing behind with
  | case1 tokens diagnostics cursor =>
    have reached : behind = source := by simpa using stands.split.symm
    subst reached
    refine ⟨[Token.endOfInputAt cursor.position fileId], Array.toList_push, ?_⟩
    rw [stands.place]
    exact .complete [] (.nil behind)
  | case2 tokens diagnostics glyph rest cursor lexeme failure =>
    rename_i failed
    have follows : lexeme.Follows source behind := follows_nextToken fileId stands
    have ⟨isCatcode, table, overlong⟩ := overlong_of_nextToken failed
    refine ⟨[lexeme.token], Array.toList_push, ?_⟩
    exact .stopped [] table
      (.cons follows.covers (.nil _)) follows.stands.split isCatcode overlong
  | case3 tokens diagnostics glyph rest cursor lexeme done =>
    rename_i ih
    have follows : lexeme.Follows source behind := follows_nextToken fileId stands
    obtain ⟨read, split, outcome⟩ := ih follows.stands
    refine ⟨lexeme.token :: read, ?_, .cons follows outcome⟩
    rw [split, Array.toList_push, List.append_assoc, List.singleton_append]

/-- The tokens of a whole text, or of the part before the directive that fails. -/
theorem outcome_lex (source : Text) (table : Catcode.Table) (fileId : FileId) :
    (∃ tokens diagnostics, lex source table fileId = .ok (tokens, diagnostics) ∧
      Outcome fileId source [] tokens none) ∨
    (∃ tokens failure, lex source table fileId = .error failure ∧
      Outcome fileId source [] tokens (some failure)) := by
  obtain ⟨read, tokens, outcome⟩ := outcome_scanFrom fileId #[] #[]
    (Cursor.stands_atStart source table)
  have readAll : (scan source table fileId).tokens.toList = read := by simpa [scan] using tokens
  change Outcome fileId source [] read (scan source table fileId).failure at outcome
  cases failed : (scan source table fileId).failure with
  | none =>
    rw [failed] at outcome
    refine .inl ⟨read, (scan source table fileId).diagnostics.toList, ?_, outcome⟩
    simp only [lex, failed, readAll]
  | some failure =>
    rw [failed] at outcome
    exact .inr ⟨read, failure, by simp only [lex, failed], outcome⟩

namespace Tiles

variable {reached : Text} {tokens : List Token}

/-- The tokens cover all the text between the two ends. -/
theorem reached_eq (tiles : Tiles source behind tokens reached) :
    reached = behind ++ Token.rawText tokens := by
  induction tiles with
  | nil behind => simp
  | cons covers later ih =>
    rw [ih]
    simp

/-- Every token covers a stretch directly behind the text of the tokens before it. -/
theorem covers_of_split {before after : List Token} {token : Token}
    (tiles : Tiles source behind (before ++ token :: after) reached) :
    Covers source (behind ++ Token.rawText before) token := by
  induction before generalizing behind with
  | nil =>
    cases tiles with
    | cons covers later => simpa using covers
  | cons first before ih =>
    cases tiles with
    | cons covers later => simpa using ih later

/-- Every token covers a stretch. -/
theorem covers_of_mem {token : Token} (tiles : Tiles source behind tokens reached)
    (member : token ∈ tokens) : ∃ before, Covers source before token := by
  obtain ⟨before, after, rfl⟩ := List.append_of_mem member
  exact ⟨_, tiles.covers_of_split⟩

/-- Every token starts where the one before it stops. -/
theorem isChain {last : Token} (tiles : Tiles source behind tokens reached)
    (ending : last.span.start = source.placeAt reached.length) :
    (tokens ++ [last]).IsChain (fun token next => token.span.stop = next.span.start) := by
  induction tiles with
  | nil behind => exact .singleton last
  | @cons behind reached token tokens covers later ih =>
    refine List.isChain_cons.mpr ⟨fun next first => ?_, ih ending⟩
    cases later with
    | nil =>
      cases first
      rw [covers.stop, ending]
    | cons second =>
      cases first
      rw [covers.stop, second.start]

end Tiles

/-- The tokens of a text that is read to its end cut it, up to the end of input. -/
theorem tiles_of_lex {source : Text} {table : Catcode.Table} {fileId : FileId}
    {tokens : List Token} {diagnostics : List Diagnostic}
    (read : lex source table fileId = .ok (tokens, diagnostics)) :
    ∃ content, tokens = content ++ [Token.endOfInputAt (source.placeAt source.length) fileId] ∧
      Tiles source [] content source := by
  rcases outcome_lex source table fileId with ⟨_, _, complete, outcome⟩ | ⟨_, _, failed, _⟩
  · cases read.symm.trans complete
    cases outcome with
    | complete content tiles => exact ⟨content, rfl, tiles⟩
  · cases read.symm.trans failed

end Lexer

/-- The tokens of the text that bytes spell tile the bytes: they start at the start,
each of them directly behind the one before, and end with the end of input; their
lengths are those of their texts, and their places those of their texts in the whole. -/
structure Tiling (bytes : List UInt8) (tokens : List Token) : Prop where
  first : tokens.head?.map (·.span.start) = some ⟨1, 1, 0⟩
  adjacent : tokens.IsChain fun token next => token.span.stop = next.span.start
  extent : ∀ token ∈ tokens.dropLast,
    token.raw ≠ [] ∧ token.span.length = (Text.encode token.raw).length
  last : ∃ token, tokens.getLast? = some token ∧ token.kind = .endOfInput ∧ token.raw = [] ∧
    token.span.start = token.span.stop ∧ token.span.stop.offset = bytes.length
  content : Text.encode (Token.rawText tokens) = bytes
  places : ∀ before token after, tokens = before ++ token :: after →
    token.span.start = (Text.decode bytes).placeAt (Token.rawText before).length

namespace Lexer

/-- The offsets of a token that covers a stretch of the source. -/
theorem Covers.offsets {token : Token} (covers : Covers source behind token)
    (within : behind ++ token.raw <+: source) :
    token.span.start.offset = (Text.encode behind).length ∧
      token.span.stop.offset = (Text.encode (behind ++ token.raw)).length := by
  obtain ⟨ahead, split⟩ := within
  have start := Text.offset_placeAt_append behind (token.raw ++ ahead)
  have stop := Text.offset_placeAt_append (behind ++ token.raw) ahead
  rw [← List.append_assoc, split, ← covers.start] at start
  rw [split, ← covers.stop] at stop
  exact ⟨start, stop⟩

/-- Every token of a text stops behind where it starts, and within the text. -/
theorem Tiles.offsets {content : List Token} (tiles : Tiles source [] content source)
    {token : Token} (member : token ∈ content) :
    token.span.start.offset < token.span.stop.offset ∧
      token.span.stop.offset ≤ (Text.encode source).length := by
  obtain ⟨before, after, rfl⟩ := List.append_of_mem member
  have covers := tiles.covers_of_split
  rw [List.nil_append] at covers
  have whole : source = Token.rawText before ++ token.raw ++ Token.rawText after := by
    have reached := tiles.reached_eq
    simpa using reached
  obtain ⟨start, stop⟩ := covers.offsets ⟨_, whole.symm⟩
  have extent : 0 < (Text.encode token.raw).length := by
    cases nonempty : token.raw with
    | nil => exact absurd nonempty covers.nonempty
    | cons glyph rest =>
      have wide : 0 < glyph.byteWidth := Text.byteWidth_pos glyph
      rw [Text.encode_cons, List.length_append, Text.length_bytes]
      omega
  have length := congrArg (fun text => (Text.encode text).length) whole
  simp only [Text.encode_append, List.length_append] at length stop
  omega

/-- Tokens that cut the whole text that bytes spell tile the bytes. -/
theorem Tiles.tiling {bytes : List UInt8} {content : List Token} (fileId : FileId)
    (tiles : Tiles (Text.decode bytes) [] content (Text.decode bytes)) :
    Tiling bytes (content ++
      [Token.endOfInputAt ((Text.decode bytes).placeAt (Text.decode bytes).length) fileId]) := by
  have whole : Text.decode bytes = Token.rawText content := tiles.reached_eq
  have places : ∀ before token after, content = before ++ token :: after →
      Covers (Text.decode bytes) (Token.rawText before) token :=
    fun before token after split => covers_of_split (split ▸ tiles)
  refine ⟨?_, tiles.isChain rfl, ?_, ?_, ?_, ?_⟩
  · cases content with
    | nil =>
      rw [whole]
      rfl
    | cons token rest => exact congrArg some (places [] token rest rfl).start
  · intro token member
    rw [List.dropLast_concat] at member
    obtain ⟨before, after, split⟩ := List.append_of_mem member
    have covers := places before token after split
    have source : Text.decode bytes =
        Token.rawText before ++ token.raw ++ Token.rawText after := by
      rw [whole, split]
      simp
    obtain ⟨start, stop⟩ := covers.offsets ⟨_, source.symm⟩
    refine ⟨covers.nonempty, ?_⟩
    rw [Span.length, start, stop, Text.encode_append, List.length_append]
    omega
  · refine ⟨_, List.getLast?_concat, rfl, rfl, rfl, ?_⟩
    have stop := Text.offset_placeAt_append (Text.decode bytes) []
    rwa [List.append_nil, Text.encode_decode] at stop
  · rw [Token.rawText_append, ← whole]
    simp [Token.endOfInputAt, Text.encode_decode]
  · intro before token after split
    rcases List.eq_nil_or_concat after with rfl | ⟨rest, last, rfl⟩
    · obtain ⟨rfl, same⟩ := List.append_inj' split rfl
      rw [← List.singleton_inj.mp same, ← whole]
      rfl
    · rw [List.concat_eq_append, ← List.cons_append, ← List.append_assoc] at split
      exact (places before token rest (List.append_inj' split rfl).1).start

end Lexer

/-- **Lexer tiling.** Whatever the bytes and the table are, and whatever the text assigns
to the table, the tokens of the text that the bytes spell tile the bytes; unless a
`\catcode` directive in the text has a number of more digits than are converted. -/
theorem lex_tiling (bytes : List UInt8) (table : Catcode.Table) (fileId : FileId) :
    (∃ tokens diagnostics, lex (Text.decode bytes) table fileId = .ok (tokens, diagnostics) ∧
      Tiling bytes tokens) ∨
    (∃ failure before directive ahead later,
      lex (Text.decode bytes) table fileId = .error failure ∧
      Text.decode bytes = Token.rawText (before ++ [directive]) ++ ahead ∧
      directive.isControlWord "catcode" = true ∧ Lexer.OverlongNumber later ahead) := by
  rcases Lexer.outcome_lex (Text.decode bytes) table fileId with
    ⟨tokens, diagnostics, read, outcome⟩ | ⟨tokens, failure, failed, outcome⟩
  · cases outcome with
    | complete content tiles => exact .inl ⟨_, diagnostics, read, tiles.tiling fileId⟩
  · cases outcome with
    | @stopped content directive reached ahead _ later tiles split isCatcode overlong =>
      refine .inr ⟨failure, content, directive, ahead, later, failed, ?_, isCatcode, overlong⟩
      rw [split, tiles.reached_eq, List.nil_append]

end TexSource
