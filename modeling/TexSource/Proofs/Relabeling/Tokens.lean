import TexSource.Token.Lexer

/-!
# New numbers for files

The numbers of files stand in spans, and nothing that is read from a text depends on them: a text
that is cut into tokens for a file with another number gives the same tokens with the other number
(`lex_relabel`).

What reads such tokens with a state is natural (`Natural`) if it does the same with the state and
the result relabeled.
-/

namespace TexSource

/-- New numbers: of the files that spans lie in, and of those that documents come from. -/
structure Relabeling where
  span : FileId → FileId
  file : FileId → FileId

variable (relabeling : Relabeling)

/-- A span with its file id renamed. -/
def Span.relabel (span : Span) : Span :=
  { span with fileId := relabeling.span span.fileId }

/-- A token with its file id renamed. -/
def Token.relabel (token : Token) : Token :=
  { token with span := token.span.relabel relabeling }

/-- A diagnostic with its file id renamed. -/
def Diagnostic.relabel (diagnostic : Diagnostic) : Diagnostic :=
  { diagnostic with span := diagnostic.span.relabel relabeling }

variable {relabeling}

@[simp] theorem Span.start_relabel (span : Span) :
    (span.relabel relabeling).start = span.start := rfl

@[simp] theorem Span.stop_relabel (span : Span) : (span.relabel relabeling).stop = span.stop := rfl

@[simp] theorem Diagnostic.isError_relabel (diagnostic : Diagnostic) :
    (diagnostic.relabel relabeling).isError = diagnostic.isError := rfl

@[simp] theorem Diagnostic.node_relabel (diagnostic : Diagnostic) :
    (diagnostic.relabel relabeling).node = diagnostic.node := rfl

@[simp] theorem Problem.relabel_reportAt (problem : Problem) (span : Span) (node : Option NodeId) :
    (problem.reportAt span node).relabel relabeling =
      problem.reportAt (span.relabel relabeling) node := rfl

namespace Token

variable (token : Token)

@[simp] theorem kind_relabel : (token.relabel relabeling).kind = token.kind := rfl

@[simp] theorem raw_relabel : (token.relabel relabeling).raw = token.raw := rfl

@[simp] theorem span_relabel :
    (token.relabel relabeling).span = token.span.relabel relabeling := rfl

@[simp] theorem expanded_relabel : (token.relabel relabeling).expanded = token.expanded := rfl

@[simp] theorem ticket_relabel : (token.relabel relabeling).ticket = token.ticket := rfl

@[simp] theorem value_relabel : (token.relabel relabeling).value = token.value := rfl

@[simp] theorem controlText_relabel :
    (token.relabel relabeling).controlText = token.controlText := rfl

@[simp] theorem isBlank_relabel : (token.relabel relabeling).isBlank = token.isBlank := rfl

@[simp] theorem isSpace_relabel : (token.relabel relabeling).isSpace = token.isSpace := rfl

@[simp] theorem isEndOfLine_relabel :
    (token.relabel relabeling).isEndOfLine = token.isEndOfLine := rfl

@[simp] theorem isEndOfInput_relabel :
    (token.relabel relabeling).isEndOfInput = token.isEndOfInput := rfl

@[simp] theorem isComment_relabel : (token.relabel relabeling).isComment = token.isComment := rfl

@[simp] theorem isBeginGroup_relabel :
    (token.relabel relabeling).isBeginGroup = token.isBeginGroup := rfl

@[simp] theorem isEndGroup_relabel :
    (token.relabel relabeling).isEndGroup = token.isEndGroup := rfl

@[simp] theorem isMathShift_relabel :
    (token.relabel relabeling).isMathShift = token.isMathShift := rfl

@[simp] theorem isParameter_relabel :
    (token.relabel relabeling).isParameter = token.isParameter := rfl

@[simp] theorem isControlWord_relabel (word : Text) :
    (token.relabel relabeling).isControlWord word = token.isControlWord word := rfl

@[simp] theorem isControlSequence_relabel :
    (token.relabel relabeling).isControlSequence = token.isControlSequence := rfl

@[simp] theorem isCharacter_relabel (character : Char) :
    (token.relabel relabeling).isCharacter character = token.isCharacter character := rfl

/-- The text of tokens does not depend on files. -/
@[simp] theorem rawText_relabel (tokens : List Token) :
    rawText (tokens.map (relabel relabeling)) = rawText tokens := by
  simp [rawText, List.flatMap_map]

end Token

namespace Lexer

variable (fileId : FileId)

/-- A lexeme with its file id renamed. -/
def Lexeme.relabel (relabeling : Relabeling) (lexeme : Lexeme) : Lexeme :=
  { lexeme with token := lexeme.token.relabel relabeling }

theorem mathShift_relabel (glyph : Glyph) (rest : Text) (cursor : Cursor) :
    mathShift (relabeling.span fileId) glyph rest cursor =
      (mathShift fileId glyph rest cursor).relabel relabeling := by
  unfold mathShift
  cases rest with
  | nil => rfl
  | cons next later =>
    dsimp only [singleGlyph]
    split <;> rfl

theorem lineEnd_relabel (glyph : Glyph) (rest : Text) (cursor : Cursor) :
    lineEnd (relabeling.span fileId) glyph rest cursor =
      (lineEnd fileId glyph rest cursor).relabel relabeling := by
  unfold lineEnd
  split <;> rfl

/-- A control word is read alike, with its assignment. -/
theorem controlWord_relabel (escape letter : Glyph) (rest : Text) (start afterEscape : Cursor) :
    controlWord (relabeling.span fileId) escape letter rest start afterEscape =
      (controlWord fileId escape letter rest start afterEscape).relabel relabeling := by
  unfold controlWord
  dsimp only
  split <;> rfl

theorem controlSequence_relabel (escape : Glyph) (rest : Text) (cursor : Cursor) :
    controlSequence (relabeling.span fileId) escape rest cursor =
      (controlSequence fileId escape rest cursor).relabel relabeling := by
  unfold controlSequence
  cases rest with
  | nil => rfl
  | cons glyph later =>
    dsimp only
    split
    · rfl
    · exact controlWord_relabel ..
    · rfl

/-- The next token of a file with another number is the same token. -/
theorem nextToken_relabel (glyph : Glyph) (rest : Text) (cursor : Cursor) :
    nextToken (relabeling.span fileId) glyph rest cursor =
      (nextToken fileId glyph rest cursor).relabel relabeling := by
  unfold nextToken
  dsimp only
  split
  · exact controlSequence_relabel ..
  · rfl
  · rfl
  · exact mathShift_relabel ..
  · exact lineEnd_relabel ..
  all_goals rfl

/-- In renamed files the same glyphs are reported. -/
theorem reports_relabel (token : Token) :
    reports (token.relabel relabeling) = (reports token).map (Diagnostic.relabel relabeling) := by
  unfold reports
  rw [Token.kind_relabel]
  split <;> rfl

/-- What the lexer has read with its file ids renamed. -/
def Scan.relabel (relabeling : Relabeling) (scan : Scan) : Scan :=
  { scan with
    tokens := scan.tokens.map (Token.relabel relabeling)
    diagnostics := scan.diagnostics.map (Diagnostic.relabel relabeling) }

/-- The lexer reads alike in renamed files. -/
theorem scanFrom_relabel (tokens : Array Token) (diagnostics : Array Diagnostic) (text : Text)
    (cursor : Cursor) :
    scanFrom (relabeling.span fileId) (tokens.map (Token.relabel relabeling))
        (diagnostics.map (Diagnostic.relabel relabeling)) text cursor =
      (scanFrom fileId tokens diagnostics text cursor).relabel relabeling := by
  fun_induction scanFrom fileId tokens diagnostics text cursor with
  | case1 =>
    rw [scanFrom]
    simp [Scan.relabel, Token.endOfInputAt, Token.relabel, Span.emptyAt, Span.relabel]
  | case2 tokens diagnostics glyph rest cursor lexeme failure failed =>
    rw [scanFrom, nextToken_relabel]
    simp only [Lexeme.relabel, lexeme] at failed ⊢
    rw [failed]
    simp [Scan.relabel]
  | case3 tokens diagnostics glyph rest cursor lexeme failed ih =>
    rw [scanFrom, nextToken_relabel]
    simp only [Lexeme.relabel, lexeme] at failed ih ⊢
    rw [failed, reports_relabel]
    simpa using ih

end Lexer

/-- **A text is cut into the same tokens whatever the number of its file.** -/
theorem lex_relabel (source : Text) (table : Catcode.Table) (fileId : FileId) :
    lex source table (relabeling.span fileId) = (lex source table fileId).map fun result =>
      (result.1.map (Token.relabel relabeling), result.2.map (Diagnostic.relabel relabeling)) := by
  have same := @Lexer.scanFrom_relabel relabeling fileId #[] #[] source
    (Lexer.Cursor.atStart table)
  simp only [List.map_toArray, List.map_nil] at same
  unfold lex scan
  rw [same]
  simp only [Lexer.Scan.relabel]
  split <;> simp [Except.map]

theorem map_appendList {First Second : Type} (change : First → Second) (array : Array First)
    (list : List First) :
    (array ++ list).map change = array.map change ++ list.map change :=
  Array.toList_inj.mp (by simp)

/-- A reader does with a relabeled state what another one does with the state itself. -/
structure Natural {State Result : Type} (rename : State → State) (relabel : Result → Result)
    (reader renamed : StateM State Result) : Prop where
  apply : ∀ state, renamed (rename state) = (relabel (reader state).1, rename (reader state).2)

namespace Natural

variable {State First Second : Type} {rename : State → State} {first : First → First}
  {second : Second → Second}

/-- A result without a step is renamed as it is. -/
theorem pure (result : First) : Natural rename first (Pure.pure result)
    (Pure.pure (first result)) :=
  ⟨fun _ => rfl⟩

/-- Steps that commute with the renaming do so one after another. -/
theorem bind {reader renamed : StateM State First} {next later : First → StateM State Second}
    (natural : Natural rename first reader renamed)
    (following : ∀ result, Natural rename second (next result) (later (first result))) :
    Natural rename second (reader >>= next) (renamed >>= later) := by
  constructor
  intro state
  have step : (renamed >>= later) (rename state) =
      later (renamed (rename state)).1 (renamed (rename state)).2 := rfl
  rw [step, natural.apply state]
  exact (following _).apply _

/-- A step may look at the state, if what follows commutes. -/
theorem get {next later : State → StateM State Second}
    (following : ∀ state, Natural rename second (next state) (later (rename state))) :
    Natural rename second (MonadState.get >>= next) (MonadState.get >>= later) :=
  ⟨fun state => (following state).apply state⟩

/-- The test that chooses between two readers does not see the labels. -/
theorem ite {reader renamed other otherRenamed : StateM State First} {test : Prop}
    [Decidable test] (holds : Natural rename first reader renamed)
    (fails : Natural rename first other otherRenamed) :
    Natural rename first (if test then reader else other)
      (if test then renamed else otherRenamed) := by
  split
  · exact holds
  · exact fails

end Natural

end TexSource
