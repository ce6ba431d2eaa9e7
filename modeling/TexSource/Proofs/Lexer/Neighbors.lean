import TexSource.Proofs.Lexer.Displacement

/-!
# Neighbouring tokens

A token ends where the glyph ahead does not belong to it any more (`Lexer.Ends`), and the token
behind starts with this glyph (`Lexer.Starts`). Both see the same category code of the glyph, since
an assignment that comes into force between them makes no space of it. So no token is cut in two,
and what may stand directly behind a token is bounded by its kind (`Lexer.Neighbors`).
-/

namespace TexSource

namespace Lexer

/-- What may stand directly behind a token. A run of blanks and a doubled math shift are one token,
the blanks behind a control word belong to it, a comment and a lone escape character reach to the
end of their line, and a carriage return and a line feed are one line end. -/
structure Neighbors (token next : Token) : Prop where
  space : token.kind = .space → next.kind ≠ .space
  word : ∀ name, token.kind = .controlWord name → next.kind ≠ .space
  shift : token.kind = .mathShift false → ∀ doubled, next.kind ≠ .mathShift doubled
  comment : ∀ content, token.kind = .comment content →
    next.kind = .endOfLine ∨ next.kind = .endOfInput
  escape : token.kind = .controlSymbol none → next.kind = .endOfLine ∨ next.kind = .endOfInput
  lineEnd : token.kind = .endOfLine → token.raw = [.char '\r'] →
    next.raw.head? ≠ some (.char '\n')

/-- A token ends in front of a glyph, which has a category code there. -/
structure Ends (token : Token) (glyph : Glyph) (catcode : Catcode) : Prop where
  space : token.kind = .space → catcode ≠ .space
  word : ∀ name, token.kind = .controlWord name → catcode ≠ .space
  shift : token.kind = .mathShift false → catcode ≠ .mathShift
  comment : ∀ content, token.kind = .comment content → catcode = .endOfLine
  escape : token.kind = .controlSymbol none → catcode = .endOfLine
  lineEnd : token.kind = .endOfLine → token.raw = [.char '\r'] → glyph ≠ .char '\n'

/-- A token starts with a glyph, which has a category code there. -/
structure Starts (glyph : Glyph) (catcode : Catcode) (token : Token) : Prop where
  raw : token.raw.head? = some glyph
  space : token.kind = .space → catcode = .space
  shift : ∀ doubled, token.kind = .mathShift doubled → catcode = .mathShift
  lineEnd : catcode = .endOfLine → token.kind = .endOfLine

/-- A token that ends in front of a glyph is followed by the token that starts with it. -/
theorem Ends.neighbors {token next : Token} {glyph : Glyph} {catcode : Catcode}
    (ends : Ends token glyph catcode) (starts : Starts glyph catcode next) :
    Neighbors token next where
  space isSpace behind := ends.space isSpace (starts.space behind)
  word name isWord behind := ends.word name isWord (starts.space behind)
  shift isShift doubled behind := ends.shift isShift (starts.shift doubled behind)
  comment content isComment := .inl (starts.lineEnd (ends.comment content isComment))
  escape isEscape := .inl (starts.lineEnd (ends.escape isEscape))
  lineEnd isLineEnd lone behind := by
    rw [starts.raw, Option.some_inj] at behind
    exact ends.lineEnd isLineEnd lone behind

/-- The end of input may stand behind any token. -/
theorem neighbors_endOfInput (token : Token) (position : Position) (fileId : FileId) :
    Neighbors token (.endOfInputAt position fileId) :=
  ⟨fun _ => nofun, fun _ _ => nofun, fun _ _ => nofun, fun _ _ => .inr rfl, fun _ => .inr rfl,
    fun _ _ => nofun⟩

namespace Cursor

variable {cursor : Cursor}

/-- The category code of a glyph ahead, when the assignments that wait for its place are made. -/
def categoryOf (cursor : Cursor) (glyph : Glyph) : Catcode :=
  cursor.settle.table.classify glyph

/-- Assignments come into force once. -/
theorem settle_settle (cursor : Cursor) : cursor.settle.settle = cursor.settle := by
  have late := cursor.lt_of_head?_settle
  have unmoved : cursor.settle.index = cursor.index := rfl
  unfold settle at late unmoved ⊢
  dsimp only at late ⊢
  generalize
    cursor.pending.dropWhile (fun assignment => decide (assignment.index ≤ cursor.index)) = waiting
    at *
  cases waiting with
  | nil => rfl
  | cons first others =>
    have ahead : ¬ first.index ≤ cursor.index := Nat.not_le.mpr (late first rfl)
    simp [ahead]

theorem categoryOf_settle (cursor : Cursor) (glyph : Glyph) :
    cursor.settle.categoryOf glyph = cursor.settle.table.classify glyph := by
  rw [categoryOf, settle_settle]

/-- Where nothing waits for the place of the head, one more assignment comes into force there only
if no other one waits. -/
theorem table_settle_append (settled : cursor.settle = cursor) (assignment : Assignment) :
    ({ cursor with pending := cursor.pending ++ [assignment] } : Cursor).settle.table =
        cursor.table ∨
      assignment.index ≤ cursor.index ∧
        ({ cursor with pending := cursor.pending ++ [assignment] } : Cursor).settle.table =
          cursor.table.assignLocally assignment.code assignment.catcode := by
  have late := cursor.lt_of_head?_settle
  rw [settled] at late
  unfold settle
  dsimp only
  cases waits : cursor.pending with
  | nil =>
    by_cases due : assignment.index ≤ cursor.index
    · exact .inr ⟨due, by simp [due]⟩
    · exact .inl (by simp [due])
  | cons first others =>
    have ahead : ¬ first.index ≤ cursor.index :=
      Nat.not_le.mpr (late first (by rw [waits]; rfl))
    exact .inl (by simp [ahead])

end Cursor

theorem length_lt_of_leadingNumber {text rest : Text} {number : Nat}
    (found : leadingNumber text = .ok (some (number, rest))) : rest.length < text.length := by
  unfold leadingNumber at found
  split at found
  · cases found
  · rename_i digits none
    cases read : readNumber (text.takeWhile isNumberDigit) with
    | error failure =>
      rw [read] at found
      cases found
    | ok value =>
      rw [read] at found
      cases found
      have split := congrArg List.length
        (@List.takeWhile_append_dropWhile _ isNumberDigit text)
      have positive := List.length_pos_iff.mpr none
      rw [List.length_append] at split
      omega

/-- An assignment by number is made behind its text. -/
theorem lt_of_catcodeAssignment {cursor : Cursor} {text : Text} {assignment : Assignment}
    (found : catcodeAssignment cursor text = .ok (some assignment)) :
    cursor.index < assignment.index := by
  unfold catcodeAssignment at found
  cases target : assignmentTarget cursor.table text with
  | error failure =>
    rw [target] at found
    cases found
  | ok result =>
    cases result with
    | none =>
      rw [target] at found
      cases found
    | some result =>
      obtain ⟨code, behind⟩ := result
      rw [target] at found
      simp only [bind, Except.bind] at found
      cases number : leadingNumber (afterEquals behind) with
      | error failure =>
        rw [number] at found
        cases found
      | ok result =>
        cases result with
        | none =>
          rw [number] at found
          cases found
        | some result =>
          obtain ⟨value, rest⟩ := result
          rw [number] at found
          obtain ⟨front, digits, split, -⟩ := exists_front_of_assignmentTarget target
          obtain ⟨between, splitBehind, -⟩ := exists_between_afterEquals behind
          have shorter := length_lt_of_leadingNumber number
          have length := congrArg List.length split
          have lengthBehind := congrArg List.length splitBehind
          simp only [pure, Except.pure, Except.ok.injEq, Option.map_eq_some_iff] at found
          obtain ⟨catcode, -, rfl⟩ := found
          simp only [List.length_append] at length lengthBehind
          dsimp only
          omega

/-- An assignment that is made directly behind its control word makes no space. -/
theorem catcode_ne_space_of_directive {name : Text} {cursor : Cursor} {text : Text}
    {assignment : Assignment} (found : directive name cursor text = .ok (some assignment))
    (due : assignment.index ≤ cursor.index) : assignment.catcode ≠ .space := by
  unfold directive at found
  split at found
  · cases found
    exact nofun
  split at found
  · cases found
    exact nofun
  split at found
  · exact absurd due (Nat.not_le.mpr (lt_of_catcodeAssignment found))
  · cases found

/-- What a directive assigns at once makes no space of the glyph ahead. -/
theorem categoryOf_ne_space_of_directive {name : Text} {cursor : Cursor} {text : Text}
    {assignment : Option Assignment} {glyph : Glyph} (settled : cursor.settle = cursor)
    (found : directive name cursor text = .ok assignment)
    (other : cursor.categoryOf glyph ≠ .space) :
    Cursor.categoryOf { cursor with pending := cursor.pending ++ assignment.toList } glyph ≠
      .space := by
  cases assignment with
  | none => simpa using other
  | some assignment =>
    rw [Cursor.categoryOf, settled] at other
    rw [Option.toList_some, Cursor.categoryOf]
    rcases cursor.table_settle_append settled assignment with same | ⟨due, changed⟩
    · rwa [same]
    · rw [changed, Catcode.Table.classify_assignLocally]
      split
      · exact catcode_ne_space_of_directive found due
      · exact other

/-- A run of glyphs ends in front of one that does not belong to it, and nothing waits there. -/
theorem munch_stops {wanted : Catcode → Bool} {text more : Text} {cursor : Cursor} {glyph : Glyph}
    (ahead : (munch wanted text cursor).rest = glyph :: more) :
    (munch wanted text cursor).cursor.settle = (munch wanted text cursor).cursor ∧
      wanted ((munch wanted text cursor).cursor.categoryOf glyph) = false := by
  fun_induction munch wanted text cursor with
  | case1 => cases ahead
  | case2 first rest cursor settled isWanted later ih => exact ih ahead
  | case3 first rest cursor settled unwanted =>
    cases ahead
    refine ⟨cursor.settle_settle, ?_⟩
    rw [Cursor.categoryOf_settle]
    exact Bool.eq_false_iff.mpr unwanted

/-- The token of a lexeme ends in front of the glyph ahead. -/
def Lexeme.Closed (lexeme : Lexeme) : Prop :=
  ∀ glyph more, lexeme.rest = glyph :: more →
    Ends lexeme.token glyph (lexeme.cursor.categoryOf glyph)

variable {fileId : FileId} {rest : Text} {cursor : Cursor}

theorem closed_munchedToken_space (glyph : Glyph) :
    (munchedToken fileId (· = .space) (fun _ => .space) glyph rest cursor).Closed := by
  intro next more ahead
  obtain ⟨-, other⟩ := munch_stops ahead
  exact ⟨fun _ => of_decide_eq_false other, nofun, nofun, nofun, nofun, nofun⟩

theorem closed_munchedToken_comment (glyph : Glyph) :
    (munchedToken fileId (· ≠ .endOfLine) .comment glyph rest cursor).Closed := by
  intro next more ahead
  obtain ⟨-, other⟩ := munch_stops ahead
  exact ⟨nofun, nofun, nofun, fun _ _ => not_not.mp (of_decide_eq_false other), nofun, nofun⟩

/-- A single math shift ends in front of what is none. -/
theorem ends_shift {token : Token} {glyph : Glyph} {catcode : Catcode} {doubled : Bool}
    (kind : token.kind = .mathShift doubled) (other : doubled = false → catcode ≠ .mathShift) :
    Ends token glyph catcode where
  space isSpace := nomatch kind.symm.trans isSpace
  word _ isWord := nomatch kind.symm.trans isWord
  shift isShift := other (Token.Kind.mathShift.inj (kind.symm.trans isShift))
  comment _ isComment := nomatch kind.symm.trans isComment
  escape isEscape := nomatch kind.symm.trans isEscape
  lineEnd isLineEnd := nomatch kind.symm.trans isLineEnd

theorem closed_mathShift (glyph : Glyph) : (mathShift fileId glyph rest cursor).Closed := by
  intro next more ahead
  unfold mathShift at ahead ⊢
  cases rest with
  | nil => cases ahead
  | cons first later =>
    dsimp only at ahead ⊢
    split at ahead
    · rename_i another
      rw [if_pos another]
      exact ends_shift rfl fun single => Bool.noConfusion single
    · rename_i other
      rw [if_neg other]
      cases ahead
      refine ends_shift rfl fun _ => ?_
      rwa [Cursor.categoryOf_settle]

/-- A carriage return alone ends in front of what is no line feed. -/
theorem ends_lineEnd {token : Token} {glyph : Glyph} {catcode : Catcode}
    (kind : token.kind = .endOfLine) (apart : token.raw = [.char '\r'] → glyph ≠ .char '\n') :
    Ends token glyph catcode where
  space isSpace := nomatch kind.symm.trans isSpace
  word _ isWord := nomatch kind.symm.trans isWord
  shift isShift := nomatch kind.symm.trans isShift
  comment _ isComment := nomatch kind.symm.trans isComment
  escape isEscape := nomatch kind.symm.trans isEscape
  lineEnd _ := apart

theorem closed_lineEnd (glyph : Glyph) : (lineEnd fileId glyph rest cursor).Closed := by
  intro next more ahead
  by_cases pair : ∃ later, glyph = .char '\r' ∧ rest = .char '\n' :: later
  · obtain ⟨later, rfl, rfl⟩ := pair
    exact ends_lineEnd rfl fun lone => absurd (List.cons.inj lone).2 (List.cons_ne_nil _ _)
  · have apart : ∀ later, glyph = .char '\r' → rest = .char '\n' :: later → False :=
      fun later first second => pair ⟨later, first, second⟩
    rw [lineEnd.eq_2 fileId glyph rest cursor apart] at ahead ⊢
    refine ends_lineEnd rfl fun lone lineFeed => pair ⟨more, List.singleton_inj.mp lone, ?_⟩
    rw [← lineFeed]
    exact ahead

theorem closed_controlWord (escape letter : Glyph) (start : Cursor) :
    (controlWord fileId escape letter rest start cursor).Closed := by
  unfold controlWord
  dsimp only
  intro next more ahead
  split at ahead
  · rename_i assignment found
    obtain ⟨settled, other⟩ := munch_stops ahead
    refine ⟨nofun, fun _ _ => ?_, nofun, nofun, nofun, nofun⟩
    exact categoryOf_ne_space_of_directive settled found (of_decide_eq_false other)
  · obtain ⟨-, other⟩ := munch_stops ahead
    exact ⟨nofun, fun _ _ => of_decide_eq_false other, nofun, nofun, nofun, nofun⟩

theorem closed_controlSequence (escape : Glyph) :
    (controlSequence fileId escape rest cursor).Closed := by
  unfold controlSequence
  cases rest with
  | nil => exact fun _ _ => nofun
  | cons glyph later =>
    dsimp only
    split
    · rename_i lineEnd
      rintro _ _ ⟨⟩
      refine ⟨nofun, nofun, nofun, nofun, fun _ => ?_, nofun⟩
      rwa [Cursor.categoryOf_settle]
    · exact closed_controlWord escape glyph cursor
    · exact fun _ _ _ => ⟨nofun, nofun, nofun, nofun, nofun, nofun⟩

/-- **One token** ends where the glyph ahead does not belong to it. -/
theorem closed_nextToken (fileId : FileId) (glyph : Glyph) (rest : Text) (cursor : Cursor) :
    (nextToken fileId glyph rest cursor).Closed := by
  unfold nextToken
  dsimp only
  split
  case h_1 => exact closed_controlSequence glyph
  case h_4 => exact closed_mathShift glyph
  case h_5 => exact closed_lineEnd glyph
  case h_6 => exact closed_munchedToken_space glyph
  case h_7 => exact closed_munchedToken_comment glyph
  -- A single glyph of any other category ends anywhere.
  all_goals exact fun _ _ _ => ⟨nofun, nofun, nofun, nofun, nofun, nofun⟩

theorem starts_controlSequence (escape : Glyph) {catcode : Catcode} (escapes : catcode = .escape) :
    Starts escape catcode (controlSequence fileId escape rest cursor).token := by
  subst escapes
  unfold controlSequence
  cases rest with
  | nil => exact ⟨rfl, nofun, nofun, nofun⟩
  | cons glyph later =>
    dsimp only
    split
    · exact ⟨rfl, nofun, nofun, nofun⟩
    · unfold controlWord
      dsimp only
      split <;> exact ⟨rfl, nofun, nofun, nofun⟩
    · exact ⟨rfl, nofun, nofun, nofun⟩

theorem starts_shift {glyph : Glyph} {token : Token} {doubled : Bool}
    (raw : token.raw.head? = some glyph) (kind : token.kind = .mathShift doubled) :
    Starts glyph .mathShift token where
  raw := raw
  space isSpace := nomatch kind.symm.trans isSpace
  shift _ _ := rfl
  lineEnd isLineEnd := nomatch isLineEnd

theorem starts_mathShift (glyph : Glyph) {catcode : Catcode} (shifts : catcode = .mathShift) :
    Starts glyph catcode (mathShift fileId glyph rest cursor).token := by
  subst shifts
  unfold mathShift
  cases rest with
  | nil => exact starts_shift rfl rfl
  | cons next later =>
    dsimp only
    split <;> exact starts_shift rfl rfl

theorem starts_lineEnd (glyph : Glyph) {catcode : Catcode} :
    Starts glyph catcode (lineEnd fileId glyph rest cursor).token := by
  unfold lineEnd
  split <;> exact ⟨rfl, nofun, nofun, fun _ => rfl⟩

/-- **One token** starts with the glyph that the head stands in front of. -/
theorem starts_nextToken (fileId : FileId) (glyph : Glyph) (rest : Text) (cursor : Cursor) :
    Starts glyph (cursor.categoryOf glyph) (nextToken fileId glyph rest cursor).token := by
  unfold nextToken Cursor.categoryOf
  dsimp only
  split
  case h_1 escapes => exact starts_controlSequence glyph escapes
  case h_4 shifts => exact starts_mathShift glyph shifts
  case h_5 => exact starts_lineEnd glyph
  case h_6 blank =>
    exact ⟨rfl, fun _ => blank, nofun, fun lineEnd => nomatch blank.symm.trans lineEnd⟩
  all_goals exact ⟨rfl, nofun, nofun, fun lineEnd => by simp_all⟩

/-- Tokens that are read one by one are followed by what may stand behind them. -/
theorem Reads.neighbors {text : Text} {head : Cursor} {tokens : List Token}
    (reads : Reads fileId text cursor tokens [] head) :
    (tokens ++ [Token.endOfInputAt head.position fileId]).IsChain Neighbors := by
  generalize none : ([] : Text) = ahead at reads
  induction reads with
  | done => exact .singleton _
  | @next glyph rest ahead cursor head tokens complete later ih =>
    refine List.isChain_cons.mpr ⟨fun behind first => ?_, ih none⟩
    cases tokens with
    | nil =>
      cases first
      exact neighbors_endOfInput ..
    | cons token tokens =>
      cases first
      obtain ⟨following, more, ahead, -, rfl, -⟩ := later.exists_of_cons
      exact (closed_nextToken fileId glyph rest cursor following more ahead).neighbors
        (starts_nextToken fileId following more _)

/-- **Normal form.** Whatever the source, the table it is read with and the directives in it, no
two tokens stand next to each other that belong together. -/
theorem isChain_neighbors_of_lex {source : Text} {table : Catcode.Table} {fileId : FileId}
    {tokens : List Token} {diagnostics : List Diagnostic}
    (lexed : lex source table fileId = .ok (tokens, diagnostics)) : tokens.IsChain Neighbors := by
  obtain ⟨content, head, reads, rfl⟩ := exists_reads_of_lex lexed
  exact reads.neighbors

/-- A directive that makes a letter a blank: the letter belongs to the control word before it. -/
theorem isChain_neighbors_blankLetter :
    ∃ tokens diagnostics,
      lex "\\catcode\x60a=10 \\b a %c\r" .standard 0 = .ok (tokens, diagnostics) ∧
      tokens.map (·.raw) =
        (["\\catcode", "\x60", "a", "=", "1", "0", " ", "\\b a ", "%c", "\r", ""] : List Text) ∧
      tokens.IsChain Neighbors := by
  have read : ((lex "\\catcode\x60a=10 \\b a %c\r" .standard 0).toOption.map fun read =>
      read.1.map (·.raw)) = some
        (["\\catcode", "\x60", "a", "=", "1", "0", " ", "\\b a ", "%c", "\r", ""] : List Text) := by
    decide +kernel
  cases lexed : lex "\\catcode\x60a=10 \\b a %c\r" .standard 0 with
  | error failure =>
    rw [lexed] at read
    cases read
  | ok found =>
    obtain ⟨tokens, diagnostics⟩ := found
    rw [lexed] at read
    exact ⟨tokens, diagnostics, rfl, Option.some_inj.mp read, isChain_neighbors_of_lex lexed⟩

end Lexer

end TexSource
