import Mathlib.Data.List.TakeWhile
import TexSource.Proofs.Document.BraceStack
import TexSource.Proofs.Lexer.Tiling

/-!
# The reading head from token to token

A text that is read to its end is read token by token (`Lexer.Reads`, `Lexer.exists_reads_of_lex`).
On the way over a token the head brings assignments into force that have been waiting
(`Lexer.Walks`); a brace opens or closes a layer, and a control word may add an assignment to
those that wait (`Lexeme.Moves`).
-/

namespace TexSource

namespace Lexer

/-- Tokens are read one by one, none of them with a failure, and take the head from the front of a
text to the front of what is left of it. -/
inductive Reads (fileId : FileId) : Text → Cursor → List Token → Text → Cursor → Prop where
  | done (text : Text) (cursor : Cursor) : Reads fileId text cursor [] text cursor
  | next {glyph : Glyph} {rest ahead : Text} {cursor head : Cursor} {tokens : List Token}
      (complete : (nextToken fileId glyph rest cursor).failure = none)
      (later : Reads fileId (nextToken fileId glyph rest cursor).rest
        (nextToken fileId glyph rest cursor).cursor tokens ahead head) :
      Reads fileId (glyph :: rest) cursor ((nextToken fileId glyph rest cursor).token :: tokens)
        ahead head

variable {fileId : FileId} {text middle ahead : Text} {cursor head last : Cursor}
  {tokens others : List Token}

namespace Reads

theorem append (first : Reads fileId text cursor tokens middle head)
    (later : Reads fileId middle head others ahead last) :
    Reads fileId text cursor (tokens ++ others) ahead last := by
  induction first with
  | done => exact later
  | next complete _ ih => exact .next complete (ih later)

theorem eq_of_nil (reads : Reads fileId text cursor [] ahead head) :
    ahead = text ∧ head = cursor := by
  cases reads
  exact ⟨rfl, rfl⟩

/-- The first token is read first. -/
theorem exists_of_cons {token : Token}
    (reads : Reads fileId text cursor (token :: tokens) ahead head) :
    ∃ glyph rest, text = glyph :: rest ∧ (nextToken fileId glyph rest cursor).failure = none ∧
      token = (nextToken fileId glyph rest cursor).token ∧
      Reads fileId (nextToken fileId glyph rest cursor).rest
        (nextToken fileId glyph rest cursor).cursor tokens ahead head := by
  cases reads with
  | next complete later => exact ⟨_, _, rfl, complete, rfl, later⟩

/-- Between any two tokens there is a head. -/
theorem exists_of_append (reads : Reads fileId text cursor (tokens ++ others) ahead last) :
    ∃ middle head, Reads fileId text cursor tokens middle head ∧
      Reads fileId middle head others ahead last := by
  induction tokens generalizing text cursor with
  | nil => exact ⟨text, cursor, .done text cursor, reads⟩
  | cons token tokens ih =>
    obtain ⟨glyph, rest, rfl, complete, rfl, later⟩ := reads.exists_of_cons
    obtain ⟨middle, head, first, second⟩ := ih later
    exact ⟨middle, head, .next complete first, second⟩

/-- What is read goes to the tokens, and reading goes on from the head. -/
theorem scanFrom_eq (reads : Reads fileId text cursor tokens ahead head) (earlier : Array Token)
    (diagnostics : Array Diagnostic) :
    scanFrom fileId earlier diagnostics text cursor =
      scanFrom fileId (earlier ++ tokens.toArray)
        (diagnostics ++ (tokens.flatMap reports).toArray) ahead head := by
  induction reads generalizing earlier diagnostics with
  | done => simp
  | next complete _ ih =>
    rw [scanFrom]
    simp only [complete]
    rw [ih]
    simp

theorem lex_eq {source : Text} {table : Catcode.Table} {content : List Token}
    (reads : Reads fileId source (.atStart table) content [] head) :
    lex source table fileId = .ok (content ++ [Token.endOfInputAt head.position fileId],
      content.flatMap reports) := by
  unfold lex scan
  rw [reads.scanFrom_eq, scanFrom]
  simp

/-- What is read are stretches of the text up to the head. -/
theorem tiles {source behind : Text} (reads : Reads fileId text cursor tokens ahead head)
    (stands : cursor.Stands source behind text) :
    ∃ reached, Tiles source behind tokens reached ∧ head.Stands source reached ahead := by
  induction reads generalizing behind with
  | done => exact ⟨behind, .nil behind, stands⟩
  | next complete _ ih =>
    have follows := follows_nextToken fileId stands
    obtain ⟨reached, tiles, later⟩ := ih follows.stands
    exact ⟨reached, .cons follows.covers tiles, later⟩

/-- What is read of a text spells it up to the head. -/
theorem eq_rawText_append {table : Catcode.Table}
    (reads : Reads fileId text (.atStart table) tokens ahead head) :
    text = Token.rawText tokens ++ ahead := by
  obtain ⟨reached, tiles, stands⟩ := reads.tiles (Cursor.stands_atStart text table)
  rw [stands.split, tiles.reached_eq, List.nil_append]

theorem isEndOfInput_of_mem {table : Catcode.Table}
    (reads : Reads fileId text (.atStart table) tokens ahead head) :
    ∀ token ∈ tokens, token.isEndOfInput = false := by
  obtain ⟨reached, tiles, -⟩ := reads.tiles (Cursor.stands_atStart text table)
  intro token member
  obtain ⟨before, covers⟩ := tiles.covers_of_mem member
  exact covers.content

end Reads

/-- A text that is read without a failure is read token by token. -/
theorem exists_reads_of_scanFrom (earlier : Array Token) (diagnostics : Array Diagnostic)
    (complete : (scanFrom fileId earlier diagnostics text cursor).failure = none) :
    ∃ content head, Reads fileId text cursor content [] head := by
  fun_induction scanFrom fileId earlier diagnostics text cursor with
  | case1 earlier diagnostics cursor => exact ⟨[], cursor, .done [] cursor⟩
  | case2 => cases complete
  | case3 earlier diagnostics glyph rest cursor lexeme done ih =>
    obtain ⟨content, head, reads⟩ := ih complete
    exact ⟨lexeme.token :: content, head, .next done reads⟩

/-- **Whole texts.** The tokens of a text are read one by one, up to the end of input. -/
theorem exists_reads_of_lex {source : Text} {table : Catcode.Table} {diagnostics : List Diagnostic}
    (lexed : lex source table fileId = .ok (tokens, diagnostics)) :
    ∃ content head, Reads fileId source (.atStart table) content [] head ∧
      tokens = content ++ [Token.endOfInputAt head.position fileId] := by
  have complete : (scan source table fileId).failure = none := by
    cases failed : (scan source table fileId).failure with
    | none => rfl
    | some failure => simp [lex, failed] at lexed
  obtain ⟨content, head, reads⟩ := exists_reads_of_scanFrom #[] #[] complete
  rw [reads.lex_eq] at lexed
  cases lexed
  exact ⟨content, head, reads, rfl⟩

/-- Assignments are made in a table, each in the innermost layer. -/
def assignAll (table : Catcode.Table) (assignments : List Assignment) : Catcode.Table :=
  assignments.foldl (fun table assignment => table.assignLocally assignment.code assignment.catcode)
    table

/-- From one head to a later one a stretch of text is passed, and the first of the assignments that
waited have come into force; nothing else has been assigned. -/
structure Walks (text : Text) (cursor : Cursor) (rest : Text) (later : Cursor) : Prop where
  passes : ∃ taken, text = taken ++ rest ∧ later.index = cursor.index + taken.length
  matures : ∃ due, cursor.pending = due ++ later.pending ∧ later.table = assignAll cursor.table due

namespace Walks

variable {text middle rest : Text} {cursor head later : Cursor}

theorem refl (text : Text) (cursor : Cursor) : Walks text cursor text cursor :=
  ⟨⟨[], rfl, rfl⟩, ⟨[], rfl, rfl⟩⟩

theorem trans (first : Walks text cursor middle head) (second : Walks middle head rest later) :
    Walks text cursor rest later := by
  obtain ⟨⟨taken, split, moved⟩, due, waited, made⟩ := first
  obtain ⟨⟨more, splitLater, movedLater⟩, dueLater, waitedLater, madeLater⟩ := second
  refine ⟨⟨taken ++ more, by rw [split, splitLater, List.append_assoc], ?_⟩,
    due ++ dueLater, by rw [waited, waitedLater, List.append_assoc], ?_⟩
  · rw [movedLater, moved, List.length_append, Nat.add_assoc]
  · rw [madeLater, made]
    exact (List.foldl_append ..).symm

theorem settle (walks : Walks text cursor rest later) : Walks text cursor rest later.settle :=
  walks.trans ⟨⟨[], rfl, rfl⟩, _, List.takeWhile_append_dropWhile.symm, rfl⟩

theorem advance {glyph : Glyph} (walks : Walks text cursor (glyph :: rest) later) (next : Text) :
    Walks text cursor rest (later.advance glyph next) :=
  walks.trans ⟨⟨[glyph], rfl, rfl⟩, [], rfl, rfl⟩

theorem munch (walks : Walks text cursor rest later) (wanted : Catcode → Bool) :
    Walks text cursor (munch wanted rest later).rest (munch wanted rest later).cursor := by
  induction rest generalizing later with
  | nil => exact walks
  | cons glyph rest ih =>
    rw [Lexer.munch]
    dsimp only
    split
    · exact ih (walks.settle.advance rest)
    · exact walks.settle

theorem pending_suffix (walks : Walks text cursor rest later) :
    later.pending <:+ cursor.pending := by
  obtain ⟨-, due, waited, -⟩ := walks
  exact ⟨due, waited.symm⟩

end Walks

theorem taken_append_rest_munch (wanted : Catcode → Bool) (text : Text) (cursor : Cursor) :
    (munch wanted text cursor).taken ++ (munch wanted text cursor).rest = text := by
  fun_induction munch wanted text cursor with
  | case1 => rfl
  | case2 glyph rest cursor settled isWanted later ih => exact congrArg (glyph :: ·) ih
  | case3 => rfl

/-- What the token that starts with a glyph does to the head before it. -/
inductive Lexeme.Moves (glyph : Glyph) (rest : Text) (cursor : Cursor) (lexeme : Lexeme) :
    Prop where
  | opens (kind : lexeme.token.kind = .beginGroup glyph) (passed : lexeme.rest = rest)
      (moved : lexeme.cursor = { cursor.settle.advance glyph rest with
        table := cursor.settle.table.push })
  | closes (kind : lexeme.token.kind = .endGroup glyph) (passed : lexeme.rest = rest)
      (moved : lexeme.cursor = { cursor.settle.advance glyph rest with
        table := cursor.settle.table.pop })
  | word (name blanks : Text) (kind : lexeme.token.kind = .controlWord name)
      (passed : rest = name ++ blanks ++ lexeme.rest) (head : Cursor)
      (walks : Walks (glyph :: rest) cursor lexeme.rest head) (assignment : Option Assignment)
      (spelled : directive name head lexeme.rest = .ok assignment)
      (moved : lexeme.cursor = { head with pending := head.pending ++ assignment.toList })
  | other (noBrace : lexeme.token.isBrace = false)
      (walks : Walks (glyph :: rest) cursor lexeme.rest lexeme.cursor)

section

variable {glyph : Glyph} {rest whole : Text} {start : Cursor}

theorem moves_singleGlyph {kind : Token.Kind}
    (walks : Walks (glyph :: whole) start (glyph :: rest) cursor)
    (noBrace : ∀ span, Token.isBrace { kind := kind, raw := [glyph], span := span } = false) :
    (singleGlyph fileId kind glyph rest cursor).Moves glyph whole start :=
  .other (noBrace _) (walks.advance rest)

theorem moves_munchedToken {wanted : Catcode → Bool} {kind : Text → Token.Kind}
    (walks : Walks (glyph :: whole) start (glyph :: rest) cursor)
    (noBrace : ∀ taken raw span, Token.isBrace { kind := kind taken, raw, span } = false) :
    (munchedToken fileId wanted kind glyph rest cursor).Moves glyph whole start :=
  .other (noBrace ..) ((walks.advance rest).munch wanted)

theorem moves_mathShift (walks : Walks (glyph :: whole) start (glyph :: rest) cursor) :
    (mathShift fileId glyph rest cursor).Moves glyph whole start := by
  unfold mathShift
  split
  · exact moves_singleGlyph walks fun _ => rfl
  · rename_i next later
    dsimp only
    have settled := (walks.advance (next :: later)).settle
    split
    · exact .other rfl (settled.advance later)
    · exact .other rfl settled

theorem moves_lineEnd (walks : Walks (glyph :: whole) start (glyph :: rest) cursor) :
    (lineEnd fileId glyph rest cursor).Moves glyph whole start := by
  unfold lineEnd
  split
  · exact .other rfl ((walks.advance _).advance _)
  · exact moves_singleGlyph walks fun _ => rfl

theorem moves_controlWord {letter : Glyph} {afterEscape : Cursor}
    (walks : Walks (glyph :: letter :: rest) start (letter :: rest) afterEscape)
    (complete : (controlWord fileId glyph letter rest cursor afterEscape).failure = none) :
    (controlWord fileId glyph letter rest cursor afterEscape).Moves glyph (letter :: rest)
      start := by
  have letters := (walks.advance rest).munch (· = .letter)
  have name := taken_append_rest_munch (· = .letter) rest (afterEscape.advance letter rest)
  unfold controlWord at complete ⊢
  dsimp only at complete ⊢
  generalize munch (· = .letter) rest (afterEscape.advance letter rest) = word at *
  have walked := letters.munch (· = .space)
  have blanks := taken_append_rest_munch (· = .space) word.rest word.cursor
  generalize munch (· = .space) word.rest word.cursor = gap at *
  split at complete
  · rename_i assignment found
    refine .word (letter :: word.taken) gap.taken rfl ?_ gap.cursor walked assignment found rfl
    rw [List.append_assoc, blanks, List.cons_append, name]
  · cases complete

theorem moves_controlSequence (walks : Walks (glyph :: rest) start (glyph :: rest) cursor)
    (complete : (controlSequence fileId glyph rest cursor).failure = none) :
    (controlSequence fileId glyph rest cursor).Moves glyph rest start := by
  unfold controlSequence at complete ⊢
  cases rest with
  | nil => exact .other rfl (walks.advance [])
  | cons next later =>
    have settled := (walks.advance (next :: later)).settle
    dsimp only at complete ⊢
    split at complete
    · exact .other rfl settled
    · exact moves_controlWord settled complete
    · exact .other rfl (settled.advance later)

end

/-- **One token.** -/
theorem moves_nextToken {glyph : Glyph} {rest : Text}
    (complete : (nextToken fileId glyph rest cursor).failure = none) :
    (nextToken fileId glyph rest cursor).Moves glyph rest cursor := by
  have settled := (Walks.refl (glyph :: rest) cursor).settle
  unfold nextToken at complete ⊢
  dsimp only at complete ⊢
  cases category : cursor.settle.table.classify glyph with
  | escape =>
    rw [category] at complete
    exact moves_controlSequence settled complete
  | beginGroup => exact .opens rfl rfl rfl
  | endGroup => exact .closes rfl rfl rfl
  | mathShift => exact moves_mathShift settled
  | endOfLine => exact moves_lineEnd settled
  | space => exact moves_munchedToken settled fun _ _ _ => rfl
  | comment => exact moves_munchedToken settled fun _ _ _ => rfl
  | _ => exact moves_singleGlyph settled fun _ => rfl

end Lexer

end TexSource
