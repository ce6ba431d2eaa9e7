import Mathlib.Data.List.TakeWhile
import TexSource.Proofs.Lexer.Tiling

/-!
# What a text is read as

Where no assignment of category codes by number is in a text, the lexer needs no more than a
table to cut the next piece from it (`Lexer.cut`), and the piece tells the table behind it
(`Lexer.behind`). So a text is read piece by piece, without places and without waiting
assignments (`Lexer.pieces`), and this is what the lexer does (`Lexer.outcome_of_pieces`).
-/

namespace TexSource

namespace Lexer

/-- A kind of token with the text that it was read from. -/
structure Piece where
  kind : Token.Kind
  raw : Text
deriving DecidableEq, Repr

/-- The control word that assigns category codes by number. -/
def isCatcode (kind : Token.Kind) : Bool :=
  kind = .controlWord "catcode"

/-- Whether a token assigns category codes. -/
def isDirective (kind : Token.Kind) : Bool :=
  kind = .controlWord "catcode" || kind = .controlWord "makeatletter" ||
    kind = .controlWord "makeatother"

theorem isCatcode_of_not_isDirective {kind : Token.Kind} (harmless : isDirective kind = false) :
    isCatcode kind = false := by
  simp only [isDirective, Bool.or_eq_false_iff] at harmless
  exact harmless.1.1

theorem isCatcode_kind (token : Token) :
    isCatcode token.kind = token.isControlWord "catcode" := by
  unfold isCatcode Token.isControlWord
  cases token.kind <;> simp

/-- The table behind a control word that does not assign by number. -/
def behindWord (table : Catcode.Table) (name : Text) : Catcode.Table :=
  if name = "makeatletter" then table.assignLocally (Glyph.code (.char '@')) .letter
  else if name = "makeatother" then table.assignLocally (Glyph.code (.char '@')) .other
  else table

/-- The table behind a token, if the token is not that of an assignment by number. -/
def behind (table : Catcode.Table) : Token.Kind → Catcode.Table
  | .controlWord name => behindWord table name
  | .beginGroup _ => table.push
  | .endGroup _ => table.pop
  | _ => table

/-- The piece of one glyph. -/
def single (kind : Token.Kind) (glyph : Glyph) (rest : Text) : Piece × Text :=
  (⟨kind, [glyph]⟩, rest)

/-- The piece of a glyph and the glyphs behind it that satisfy a test. -/
def run (table : Catcode.Table) (wanted : Catcode → Bool) (kind : Text → Token.Kind)
    (glyph : Glyph) (rest : Text) : Piece × Text :=
  let test (glyph : Glyph) : Bool := wanted (table.classify glyph)
  (⟨kind (rest.takeWhile test), glyph :: rest.takeWhile test⟩, rest.dropWhile test)

def cutShift (table : Catcode.Table) (glyph : Glyph) : Text → Piece × Text
  | [] => single (.mathShift false) glyph []
  | next :: later =>
    if table.classify next = .mathShift then (⟨.mathShift true, [glyph, next]⟩, later)
    else single (.mathShift false) glyph (next :: later)

def cutLineEnd (glyph : Glyph) (rest : Text) : Piece × Text :=
  match glyph, rest with
  | .char '\r', .char '\n' :: later => (⟨.endOfLine, [.char '\r', .char '\n']⟩, later)
  | _, _ => single .endOfLine glyph rest

def cutWord (table : Catcode.Table) (escape letter : Glyph) (rest : Text) : Piece × Text :=
  let isLetter (glyph : Glyph) : Bool := table.classify glyph = .letter
  let isSpace (glyph : Glyph) : Bool := table.classify glyph = .space
  let name := letter :: rest.takeWhile isLetter
  let blanks := rest.dropWhile isLetter
  (⟨.controlWord name, escape :: name ++ blanks.takeWhile isSpace⟩, blanks.dropWhile isSpace)

def cutSequence (table : Catcode.Table) (escape : Glyph) : Text → Piece × Text
  | [] => single (.controlSymbol none) escape []
  | glyph :: later =>
    match table.classify glyph with
    | .endOfLine => single (.controlSymbol none) escape (glyph :: later)
    | .letter => cutWord table escape glyph later
    | _ => (⟨.controlSymbol (some glyph), [escape, glyph]⟩, later)

/-- The piece that starts with a glyph, and the text behind it, as a table decides. -/
def cut (table : Catcode.Table) (glyph : Glyph) (rest : Text) : Piece × Text :=
  match table.classify glyph with
  | .escape => cutSequence table glyph rest
  | .beginGroup => single (.beginGroup glyph) glyph rest
  | .endGroup => single (.endGroup glyph) glyph rest
  | .mathShift => cutShift table glyph rest
  | .endOfLine => cutLineEnd glyph rest
  | .space => run table (· = .space) (fun _ => .space) glyph rest
  | .comment => run table (· ≠ .endOfLine) .comment glyph rest
  | .parameter => single (.parameter glyph) glyph rest
  | .superscript => single (.superscript glyph) glyph rest
  | .subscript => single (.subscript glyph) glyph rest
  | catcode => single (.character glyph catcode) glyph rest

namespace Cursor

/-- A table is in force where the head stands, and no assignment waits. -/
structure Settled (table : Catcode.Table) (cursor : Cursor) : Prop where
  table : cursor.table = table
  pending : cursor.pending = []

/-- A table is in force where the head stands when the assignments that wait for this place
are made, and no assignment waits for a later place. -/
def Live (table : Catcode.Table) (cursor : Cursor) : Prop :=
  cursor.settle.Settled table

variable {table : Catcode.Table} {cursor : Cursor}

theorem Settled.live (settled : cursor.Settled table) : cursor.Live table := by
  obtain ⟨index, position, other, pending⟩ := cursor
  obtain ⟨rfl, rfl⟩ := settled
  exact ⟨rfl, rfl⟩

theorem Settled.settle_eq (settled : cursor.Settled table) : cursor.settle = cursor := by
  obtain ⟨index, position, other, pending⟩ := cursor
  obtain ⟨rfl, rfl⟩ := settled
  rfl

theorem Settled.advance (settled : cursor.Settled table) (glyph : Glyph) (rest : Text) :
    (cursor.advance glyph rest).Settled table :=
  ⟨settled.table, settled.pending⟩

end Cursor

variable {table : Catcode.Table} {cursor : Cursor}

/-- Without waiting assignments a run of glyphs is taken as the table says. -/
theorem munch_of_settled (wanted : Catcode → Bool) (text : Text) (settled : cursor.Settled table) :
    (munch wanted text cursor).taken =
        text.takeWhile (fun glyph => wanted (table.classify glyph)) ∧
      (munch wanted text cursor).rest =
        text.dropWhile (fun glyph => wanted (table.classify glyph)) ∧
      (munch wanted text cursor).cursor.Settled table := by
  induction text generalizing cursor with
  | nil => exact ⟨rfl, rfl, settled⟩
  | cons glyph rest ih =>
    rw [munch, settled.settle_eq, settled.table, List.takeWhile_cons, List.dropWhile_cons]
    dsimp only
    by_cases taken : wanted (table.classify glyph) = true
    · rw [if_pos taken, if_pos taken, if_pos taken]
      obtain ⟨takenLater, restLater, settledLater⟩ := ih (settled.advance glyph rest)
      exact ⟨congrArg (glyph :: ·) takenLater, restLater, settledLater⟩
    · rw [if_neg taken, if_neg taken, if_neg taken]
      exact ⟨rfl, rfl, settled⟩

/-- A lexeme agrees with what a table cuts from a text: it is the same piece, and if it is not
that of an assignment by number, reading goes on with the table behind it. -/
structure Lexeme.Agrees (table : Catcode.Table) (front : Piece × Text) (lexeme : Lexeme) :
    Prop where
  kind : lexeme.token.kind = front.1.kind
  raw : lexeme.token.raw = front.1.raw
  rest : lexeme.rest = front.2
  goesOn : isCatcode front.1.kind = false →
    lexeme.failure = none ∧ lexeme.cursor.Live (behind table front.1.kind)

section

variable (fileId : FileId) (glyph : Glyph) (rest : Text) (settled : cursor.Settled table)

include settled

theorem agrees_singleGlyph {kind : Token.Kind} (same : behind table kind = table) :
    (singleGlyph fileId kind glyph rest cursor).Agrees table (single kind glyph rest) where
  kind := rfl
  raw := rfl
  rest := rfl
  goesOn _ := ⟨rfl, by
    rw [single, same]
    exact (settled.advance glyph rest).live⟩

theorem agrees_munchedToken (wanted : Catcode → Bool) {kind : Text → Token.Kind}
    (same : ∀ taken, behind table (kind taken) = table) :
    (munchedToken fileId wanted kind glyph rest cursor).Agrees table
      (run table wanted kind glyph rest) := by
  obtain ⟨taken, left, later⟩ := munch_of_settled wanted rest (settled.advance glyph rest)
  exact {
    kind := congrArg kind taken
    raw := congrArg (glyph :: ·) taken
    rest := left
    goesOn := fun _ => ⟨rfl, by
      rw [run, same]
      exact later.live⟩ }

theorem agrees_mathShift :
    (mathShift fileId glyph rest cursor).Agrees table (cutShift table glyph rest) := by
  have alone : (singleGlyph fileId (.mathShift false) glyph rest cursor).Agrees table
      (single (.mathShift false) glyph rest) := agrees_singleGlyph fileId glyph rest settled rfl
  cases rest with
  | nil => exact alone
  | cons next later =>
    have moved := settled.advance glyph (next :: later)
    unfold mathShift cutShift
    dsimp only [singleGlyph]
    rw [moved.settle_eq, moved.table]
    by_cases doubled : table.classify next = .mathShift
    · rw [if_pos doubled, if_pos doubled]
      exact ⟨rfl, rfl, rfl, fun _ => ⟨rfl, (moved.advance next later).live⟩⟩
    · rw [if_neg doubled, if_neg doubled]
      exact alone

theorem agrees_lineEnd :
    (lineEnd fileId glyph rest cursor).Agrees table (cutLineEnd glyph rest) := by
  by_cases pair : ∃ later, glyph = .char '\r' ∧ rest = .char '\n' :: later
  · obtain ⟨later, rfl, rfl⟩ := pair
    exact ⟨rfl, rfl, rfl, fun _ => ⟨rfl, ((settled.advance _ _).advance _ later).live⟩⟩
  · have apart : ∀ later, glyph = .char '\r' → rest = .char '\n' :: later → False :=
      fun later first second => pair ⟨later, first, second⟩
    rw [lineEnd.eq_2 fileId glyph rest cursor apart, cutLineEnd.eq_2 glyph rest apart]
    exact agrees_singleGlyph fileId glyph rest settled rfl

omit settled in
/-- A control word that does not assign by number makes its assignment at once. -/
theorem directive_of_noCatcode {name : Text} (noCatcode : name ≠ "catcode") (text : Text)
    (settled : cursor.Settled table) :
    ∃ assignment, directive name cursor text = .ok assignment ∧
      Cursor.Live (behindWord table name)
        { cursor with pending := cursor.pending ++ assignment.toList } := by
  obtain ⟨index, position, other, pending⟩ := cursor
  obtain ⟨rfl, rfl⟩ := settled
  unfold directive behindWord
  by_cases letter : name = "makeatletter"
  · rw [if_pos letter, if_pos letter]
    refine ⟨_, rfl, ?_⟩
    constructor <;> simp [Cursor.settle]
  · rw [if_neg letter, if_neg letter]
    by_cases other : name = "makeatother"
    · rw [if_pos other, if_pos other]
      refine ⟨_, rfl, ?_⟩
      constructor <;> simp [Cursor.settle]
    · rw [if_neg other, if_neg other, if_neg noCatcode]
      exact ⟨none, rfl, rfl, rfl⟩

theorem agrees_controlWord (letter : Glyph) (start : Cursor) :
    (controlWord fileId glyph letter rest start cursor).Agrees table
      (cutWord table glyph letter rest) := by
  obtain ⟨name, behindName, moved⟩ :=
    munch_of_settled (· = .letter) rest (settled.advance letter rest)
  obtain ⟨blanks, behindBlanks, later⟩ := munch_of_settled (· = .space)
    (munch (· = .letter) rest (cursor.advance letter rest)).rest moved
  unfold controlWord cutWord
  dsimp only
  generalize munch (· = .letter) rest (cursor.advance letter rest) = letters at *
  generalize munch (· = .space) letters.rest letters.cursor = gap at *
  rw [← name, ← behindName, ← blanks, ← behindBlanks]
  by_cases catcode : letter :: letters.taken = "catcode"
  · have assigns : isCatcode (.controlWord (letter :: letters.taken)) = true := by
      simp [isCatcode, catcode]
    split
    all_goals exact ⟨rfl, rfl, rfl, fun other => absurd (assigns.symm.trans other) nofun⟩
  · obtain ⟨assignment, found, live⟩ := directive_of_noCatcode catcode gap.rest later
    rw [found]
    exact ⟨rfl, rfl, rfl, fun _ => ⟨rfl, live⟩⟩

theorem agrees_controlSequence :
    (controlSequence fileId glyph rest cursor).Agrees table (cutSequence table glyph rest) := by
  unfold controlSequence
  cases rest with
  | nil => exact ⟨rfl, rfl, rfl, fun _ => ⟨rfl, (settled.advance glyph []).live⟩⟩
  | cons next later =>
    have moved := settled.advance glyph (next :: later)
    dsimp only [cutSequence]
    rw [moved.settle_eq, moved.table]
    cases table.classify next with
    | endOfLine => exact ⟨rfl, rfl, rfl, fun _ => ⟨rfl, moved.live⟩⟩
    | letter => exact agrees_controlWord fileId glyph later moved next cursor
    | _ => exact ⟨rfl, rfl, rfl, fun _ => ⟨rfl, (moved.advance next later).live⟩⟩

end

/-- **One piece.** The lexer reads what the table in force cuts from the text ahead. -/
theorem agrees_nextToken (fileId : FileId) (glyph : Glyph) (rest : Text)
    (live : cursor.Live table) :
    (nextToken fileId glyph rest cursor).Agrees table (cut table glyph rest) := by
  have settled : cursor.settle.Settled table := live
  unfold nextToken cut
  dsimp only
  rw [settled.table]
  cases table.classify glyph with
  | escape => exact agrees_controlSequence fileId glyph rest settled
  | beginGroup =>
    have moved := settled.advance glyph rest
    exact ⟨rfl, rfl, rfl, fun _ => ⟨rfl, Cursor.Settled.live
      ⟨congrArg Layered.push moved.table, moved.pending⟩⟩⟩
  | endGroup =>
    have moved := settled.advance glyph rest
    exact ⟨rfl, rfl, rfl, fun _ => ⟨rfl, Cursor.Settled.live
      ⟨congrArg Layered.pop moved.table, moved.pending⟩⟩⟩
  | mathShift => exact agrees_mathShift fileId glyph rest settled
  | endOfLine => exact agrees_lineEnd fileId glyph rest settled
  | space => exact agrees_munchedToken fileId glyph rest settled _ fun _ => rfl
  | comment => exact agrees_munchedToken fileId glyph rest settled _ fun _ => rfl
  | _ => exact agrees_singleGlyph fileId glyph rest settled rfl

theorem length_cut (table : Catcode.Table) (glyph : Glyph) (rest : Text) :
    (cut table glyph rest).2.length ≤ rest.length := by
  have live : (Cursor.atStart table).Live table := Cursor.Settled.live ⟨rfl, rfl⟩
  rw [← (agrees_nextToken 0 glyph rest live).rest]
  exact length_rest_nextToken ..

/-- The pieces that a text is read as from a table. -/
def pieces (table : Catcode.Table) : Text → List Piece
  | [] => []
  | glyph :: rest =>
    (cut table glyph rest).1 ::
      pieces (behind table (cut table glyph rest).1.kind) (cut table glyph rest).2
termination_by text => text.length
decreasing_by
  have := length_cut table glyph rest
  simp only [List.length_cons]
  omega

/-- What is read is kept. -/
theorem exists_tokens_scanFrom (fileId : FileId) (tokens : Array Token)
    (diagnostics : Array Diagnostic) (text : Text) (cursor : Cursor) :
    ∃ read, (scanFrom fileId tokens diagnostics text cursor).tokens.toList =
      tokens.toList ++ read := by
  fun_induction scanFrom fileId tokens diagnostics text cursor with
  | case1 tokens diagnostics cursor => exact ⟨_, Array.toList_push⟩
  | case2 => exact ⟨_, Array.toList_push⟩
  | case3 tokens diagnostics glyph rest cursor lexeme done ih =>
    obtain ⟨read, split⟩ := ih
    exact ⟨lexeme.token :: read, by
      rw [split, Array.toList_push, List.append_assoc, List.singleton_append]⟩

/-- The piece of a token. -/
def pieceOf (token : Token) : Piece :=
  ⟨token.kind, token.raw⟩

/-- **Whole texts.** Where no piece assigns category codes by number, the lexer reads a text as
its pieces, and the end of input behind them. -/
theorem outcome_of_pieces (fileId : FileId) (tokens : Array Token)
    (diagnostics : Array Diagnostic) (text : Text) (live : cursor.Live table)
    (noCatcode : ∀ piece ∈ pieces table text, isCatcode piece.kind = false) :
    (scanFrom fileId tokens diagnostics text cursor).failure = none ∧
      ∃ read last, (scanFrom fileId tokens diagnostics text cursor).tokens.toList =
        tokens.toList ++ read ++ [last] ∧ last.isEndOfInput = true ∧
          read.map pieceOf = pieces table text := by
  fun_induction scanFrom fileId tokens diagnostics text cursor generalizing table with
  | case1 tokens diagnostics cursor =>
    rw [pieces]
    exact ⟨rfl, [], Token.endOfInputAt cursor.position fileId, by simp, rfl, rfl⟩
  | case2 tokens diagnostics glyph rest cursor lexeme failure =>
    rename_i failed
    have agrees : lexeme.Agrees table (cut table glyph rest) :=
      agrees_nextToken fileId glyph rest live
    rw [pieces, List.forall_mem_cons] at noCatcode
    cases failed.symm.trans (agrees.goesOn noCatcode.1).1
  | case3 tokens diagnostics glyph rest cursor lexeme done =>
    rename_i ih
    have agrees : lexeme.Agrees table (cut table glyph rest) :=
      agrees_nextToken fileId glyph rest live
    rw [pieces, List.forall_mem_cons] at noCatcode
    rw [← agrees.rest] at noCatcode
    obtain ⟨complete, read, last, split, ends, same⟩ :=
      ih (agrees.goesOn noCatcode.1).2 noCatcode.2
    refine ⟨complete, lexeme.token :: read, last, ?_, ends, ?_⟩
    · rw [split, Array.toList_push]
      simp
    · rw [pieces, ← agrees.rest, List.map_cons, same, pieceOf, agrees.kind, agrees.raw]

/-- If no token that the lexer reads assigns category codes by number, then no piece does. -/
theorem noCatcode_of_scanFrom (fileId : FileId) (tokens : Array Token)
    (diagnostics : Array Diagnostic) (text : Text) (live : cursor.Live table)
    (noCatcode : ∀ token ∈ (scanFrom fileId tokens diagnostics text cursor).tokens.toList,
      isCatcode token.kind = false) :
    ∀ piece ∈ pieces table text, isCatcode piece.kind = false := by
  fun_induction scanFrom fileId tokens diagnostics text cursor generalizing table with
  | case1 tokens diagnostics cursor =>
    rw [pieces]
    exact List.forall_mem_nil _
  | case2 tokens diagnostics glyph rest cursor lexeme failure =>
    rename_i failed
    have agrees : lexeme.Agrees table (cut table glyph rest) :=
      agrees_nextToken fileId glyph rest live
    have first := noCatcode lexeme.token (by simp)
    rw [agrees.kind] at first
    cases failed.symm.trans (agrees.goesOn first).1
  | case3 tokens diagnostics glyph rest cursor lexeme done =>
    rename_i ih
    have agrees : lexeme.Agrees table (cut table glyph rest) :=
      agrees_nextToken fileId glyph rest live
    obtain ⟨read, split⟩ := exists_tokens_scanFrom fileId (tokens.push lexeme.token)
      (diagnostics ++ (reports lexeme.token).toArray) lexeme.rest lexeme.cursor
    have first := noCatcode lexeme.token (by rw [split]; simp)
    rw [agrees.kind] at first
    rw [pieces, List.forall_mem_cons, ← agrees.rest]
    exact ⟨first, ih (agrees.goesOn first).2 noCatcode⟩

/-- How a text is lexed whose pieces assign no category codes by number. -/
theorem lex_of_pieces {source : Text} {table : Catcode.Table} (fileId : FileId)
    (noCatcode : ∀ piece ∈ pieces table source, isCatcode piece.kind = false) :
    ∃ content last reports, lex source table fileId = .ok (content ++ [last], reports) ∧
      last.isEndOfInput = true ∧ content.map pieceOf = pieces table source := by
  have live : (Cursor.atStart table).Live table := Cursor.Settled.live ⟨rfl, rfl⟩
  obtain ⟨complete, read, last, split, ends, same⟩ :=
    outcome_of_pieces fileId #[] #[] source live noCatcode
  refine ⟨read, last, (scan source table fileId).diagnostics.toList, ?_, ends, same⟩
  unfold lex scan
  dsimp only
  rw [complete]
  dsimp only
  rw [split]
  rfl

/-- The tokens of a text are those that the lexer reads. -/
theorem tokens_scan_of_lex {source : Text} {table : Catcode.Table} {fileId : FileId}
    {tokens : List Token} {reports : List Diagnostic}
    (lexed : lex source table fileId = .ok (tokens, reports)) :
    (scan source table fileId).tokens.toList = tokens := by
  unfold lex at lexed
  dsimp only at lexed
  split at lexed
  · cases lexed
  · exact congrArg Prod.fst (Except.ok.inj lexed)

/-- A text in whose tokens no category codes are assigned by number has no such pieces. -/
theorem noCatcode_of_scan {source : Text} {table : Catcode.Table} {fileId : FileId}
    (noCatcode : ∀ token ∈ (scan source table fileId).tokens.toList,
      isCatcode token.kind = false) :
    ∀ piece ∈ pieces table source, isCatcode piece.kind = false :=
  noCatcode_of_scanFrom fileId #[] #[] source (Cursor.Settled.live ⟨rfl, rfl⟩) noCatcode

end Lexer

end TexSource
