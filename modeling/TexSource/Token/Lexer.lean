import TexSource.Catcode.Table
import TexSource.Diagnostic
import TexSource.Token

/-!
# Cutting a text into tokens

The lexer reads a text from left to right and asks a live category code table at
every glyph. Groups open and close layers of the table, and the directives
`\catcode`, `\makeatletter` and `\makeatother` in the text change it: an
assignment waits until the reading head reaches the glyph behind it. Every glyph
ends up in exactly one token, and the only failure is a number of more digits
than are converted.
-/

namespace TexSource

namespace Lexer

/-- An assignment that comes into force at an index of the text. -/
structure Assignment where
  index : Nat
  code : Nat
  catcode : Catcode

/-- The reading head: where it stands and what the text has assigned so far. -/
structure Cursor where
  index : Nat
  position : Position
  table : Catcode.Table
  pending : List Assignment

namespace Cursor

/-- The reading head at the start of a text. -/
def atStart (table : Catcode.Table) : Cursor :=
  ⟨0, Position.start, table, []⟩

/-- Brings the assignments into force that were waiting for the current index. -/
def settle (cursor : Cursor) : Cursor :=
  let isDue (assignment : Assignment) : Bool := assignment.index ≤ cursor.index
  { cursor with
    table := (cursor.pending.takeWhile isDue).foldl
      (fun table assignment => table.assignLocally assignment.code assignment.catcode) cursor.table
    pending := cursor.pending.dropWhile isDue }

/-- Moves over a glyph, given the text behind it. -/
def advance (cursor : Cursor) (glyph : Glyph) (rest : Text) : Cursor :=
  { cursor with
    index := cursor.index + 1
    position := cursor.position.advance glyph rest.head? }

end Cursor

/-- A stretch of text read, the text behind it, and the head between them. -/
structure Munched where
  taken : Text
  rest : Text
  cursor : Cursor

/-- Reads glyphs while their category codes satisfy a test. -/
def munch (wanted : Catcode → Bool) : Text → Cursor → Munched
  | [], cursor => ⟨[], [], cursor⟩
  | glyph :: rest, cursor =>
    let settled := cursor.settle
    if wanted (settled.table.classify glyph) then
      let later := munch wanted rest (settled.advance glyph rest)
      { later with taken := glyph :: later.taken }
    else
      ⟨[], glyph :: rest, settled⟩

/-- Whether a glyph may stand between the parts of an assignment by number. -/
def isNumberBlank (glyph : Glyph) : Bool :=
  glyph = .char ' ' || glyph = .char '\t'

/-- Whether a glyph is a digit of a number. -/
def isNumberDigit (glyph : Glyph) : Bool :=
  glyph.asciiDigit?.isSome

/-- The number at the front of a text and the text behind it, if a digit stands
there. -/
def leadingNumber (text : Text) : Except NumberError (Option (Nat × Text)) :=
  match text.takeWhile isNumberDigit with
  | [] => .ok none
  | digits => do return some (← readNumber digits, text.dropWhile isNumberDigit)

/-- The largest code point of a character. -/
def maxCodePoint : Nat := 0x10FFFF

/-- The character whose category code a directive changes: a glyph behind a grave
accent, where an escape character may stand between, or a code point. -/
def assignmentTarget (table : Catcode.Table) (text : Text) :
    Except NumberError (Option (Nat × Text)) :=
  match text with
  | .char '\x60' :: marked =>
    let target : Text := match marked with
      | glyph :: rest => if table.classify glyph = Catcode.escape then rest else marked
      | [] => []
    match target with
    | glyph :: rest => .ok (some (glyph.code, rest))
    | [] => .ok none
  | _ => do
    match ← leadingNumber text with
    | some (code, rest) => return if code ≤ maxCodePoint then some (code, rest) else none
    | none => return none

/-- The text behind the equals sign that may stand before a category number. -/
def afterEquals (text : Text) : Text :=
  match text.dropWhile isNumberBlank with
  | .char '=' :: rest => rest.dropWhile isNumberBlank
  | rest => rest

/-- The assignment that the text behind a `\catcode` word spells. -/
def catcodeAssignment (cursor : Cursor) (text : Text) :
    Except NumberError (Option Assignment) := do
  let some (code, afterTarget) ← assignmentTarget cursor.table text | return none
  let some (number, rest) ← leadingNumber (afterEquals afterTarget) | return none
  return (Catcode.ofNat? number).map fun catcode =>
    ⟨cursor.index + (text.length - rest.length), code, catcode⟩

/-- The assignment that starts with a control word, given the text behind it. -/
def directive (name : Text) (cursor : Cursor) (text : Text) :
    Except NumberError (Option Assignment) :=
  if name = "makeatletter" then .ok (some ⟨cursor.index, Glyph.code (.char '@'), .letter⟩)
  else if name = "makeatother" then .ok (some ⟨cursor.index, Glyph.code (.char '@'), .other⟩)
  else if name = "catcode" then catcodeAssignment cursor text
  else .ok none

/-- A token read, the text behind it, and the head between them. A failure is a
number in the directive that the token starts. -/
structure Lexeme where
  token : Token
  rest : Text
  cursor : Cursor
  failure : Option NumberError := none

/-- The token of one kind that covers the text between two heads. -/
def tokenBetween (fileId : FileId) (start stop : Cursor) (kind : Token.Kind) (raw : Text) :
    Token where
  kind := kind
  raw := raw
  span := ⟨start.position, stop.position, fileId⟩

/-- The token of a single glyph. -/
def singleGlyph (fileId : FileId) (kind : Token.Kind) (glyph : Glyph) (rest : Text)
    (cursor : Cursor) : Lexeme :=
  let stop := cursor.advance glyph rest
  { token := tokenBetween fileId cursor stop kind [glyph], rest := rest, cursor := stop }

/-- The token of a glyph and the glyphs behind it that satisfy a test. -/
def munchedToken (fileId : FileId) (wanted : Catcode → Bool) (kind : Text → Token.Kind)
    (glyph : Glyph) (rest : Text) (cursor : Cursor) : Lexeme :=
  let munched := munch wanted rest (cursor.advance glyph rest)
  { token := tokenBetween fileId cursor munched.cursor (kind munched.taken) (glyph :: munched.taken)
    rest := munched.rest
    cursor := munched.cursor }

/-- A math shift, doubled when another one follows directly. -/
def mathShift (fileId : FileId) (glyph : Glyph) (rest : Text) (cursor : Cursor) : Lexeme :=
  let single := singleGlyph fileId (.mathShift false) glyph rest cursor
  match rest with
  | [] => single
  | next :: later =>
    let settled := single.cursor.settle
    if settled.table.classify next = .mathShift then
      let stop := settled.advance next later
      { token := tokenBetween fileId cursor stop (.mathShift true) [glyph, next]
        rest := later
        cursor := stop }
    else
      { single with cursor := settled }

/-- A line end; a carriage return and a line feed are one. -/
def lineEnd (fileId : FileId) (glyph : Glyph) (rest : Text) (cursor : Cursor) : Lexeme :=
  match glyph, rest with
  | .char '\r', .char '\n' :: later =>
    let stop := (cursor.advance glyph rest).advance (.char '\n') later
    { token := tokenBetween fileId cursor stop .endOfLine [glyph, .char '\n']
      rest := later
      cursor := stop }
  | _, _ => singleGlyph fileId .endOfLine glyph rest cursor

/-- A control word: letters, and the blanks behind them. -/
def controlWord (fileId : FileId) (escape : Glyph) (letter : Glyph) (rest : Text)
    (start afterEscape : Cursor) : Lexeme :=
  let letters := munch (· = .letter) rest (afterEscape.advance letter rest)
  let blanks := munch (· = .space) letters.rest letters.cursor
  let name := letter :: letters.taken
  let token := tokenBetween fileId start blanks.cursor (.controlWord name)
    (escape :: name ++ blanks.taken)
  match directive name blanks.cursor blanks.rest with
  | .ok assignment =>
    { token := token
      rest := blanks.rest
      cursor := { blanks.cursor with pending := blanks.cursor.pending ++ assignment.toList } }
  | .error failure =>
    { token := token, rest := blanks.rest, cursor := blanks.cursor, failure := some failure }

/-- A control sequence. An escape character before a line end stands alone. -/
def controlSequence (fileId : FileId) (escape : Glyph) (rest : Text) (cursor : Cursor) : Lexeme :=
  let afterEscape := cursor.advance escape rest
  let lone (stop : Cursor) : Lexeme :=
    { token := tokenBetween fileId cursor stop (.controlSymbol none) [escape]
      rest := rest
      cursor := stop }
  match rest with
  | [] => lone afterEscape
  | glyph :: later =>
    let settled := afterEscape.settle
    match settled.table.classify glyph with
    | .endOfLine => lone settled
    | .letter => controlWord fileId escape glyph later cursor settled
    | _ =>
      let stop := settled.advance glyph later
      { token := tokenBetween fileId cursor stop (.controlSymbol (some glyph)) [escape, glyph]
        rest := later
        cursor := stop }

/-- The token that starts with a glyph, given the text behind it. -/
def nextToken (fileId : FileId) (glyph : Glyph) (rest : Text) (cursor : Cursor) : Lexeme :=
  let settled := cursor.settle
  let withTable (change : Catcode.Table → Catcode.Table) (lexeme : Lexeme) : Lexeme :=
    { lexeme with cursor := { lexeme.cursor with table := change lexeme.cursor.table } }
  match settled.table.classify glyph with
  | .escape => controlSequence fileId glyph rest settled
  | .beginGroup => withTable (·.push) (singleGlyph fileId (.beginGroup glyph) glyph rest settled)
  | .endGroup => withTable (·.pop) (singleGlyph fileId (.endGroup glyph) glyph rest settled)
  | .mathShift => mathShift fileId glyph rest settled
  | .endOfLine => lineEnd fileId glyph rest settled
  | .space => munchedToken fileId (· = .space) (fun _ => .space) glyph rest settled
  | .comment => munchedToken fileId (· ≠ .endOfLine) .comment glyph rest settled
  | .parameter => singleGlyph fileId (.parameter glyph) glyph rest settled
  | .superscript => singleGlyph fileId (.superscript glyph) glyph rest settled
  | .subscript => singleGlyph fileId (.subscript glyph) glyph rest settled
  | catcode => singleGlyph fileId (.character glyph catcode) glyph rest settled

/-- The reports that a token calls for by itself. -/
def reports (token : Token) : List Diagnostic :=
  match token.kind with
  | .character (.byte offset) .invalid =>
    [(Problem.undecodableByte (0x80 + offset)).reportAt token.span]
  | .character (.char character) .invalid =>
    [(Problem.invalidCharacter character.toNat).reportAt token.span]
  | _ => []

/-- Glyphs that are read are not left. -/
theorem length_rest_munch (wanted : Catcode → Bool) (text : Text) (cursor : Cursor) :
    (munch wanted text cursor).rest.length ≤ text.length := by
  fun_induction munch wanted text cursor with
  | case1 => simp
  | case2 glyph rest cursor settled isWanted later step => exact Nat.le_succ_of_le step
  | case3 => simp

/-- A control sequence leaves no more than there was. -/
theorem length_rest_controlSequence (fileId : FileId) (escape : Glyph) (rest : Text)
    (cursor : Cursor) :
    (controlSequence fileId escape rest cursor).rest.length ≤ rest.length := by
  unfold controlSequence
  cases rest with
  | nil => simp
  | cons glyph later =>
    simp only
    split
    · simp
    · unfold controlWord
      simp only
      have letters := length_rest_munch (· = .letter) later
        (((cursor.advance escape (glyph :: later)).settle).advance glyph later)
      have blanks := length_rest_munch (· = .space)
        (munch (· = .letter) later
          (((cursor.advance escape (glyph :: later)).settle).advance glyph later)).rest
        (munch (· = .letter) later
          (((cursor.advance escape (glyph :: later)).settle).advance glyph later)).cursor
      split <;> simp only [List.length_cons] <;> omega
    · simp

/-- A token leaves no more than what stands behind its first glyph. -/
theorem length_rest_nextToken (fileId : FileId) (glyph : Glyph) (rest : Text) (cursor : Cursor) :
    (nextToken fileId glyph rest cursor).rest.length ≤ rest.length := by
  unfold nextToken
  simp only
  split
  · exact length_rest_controlSequence ..
  · simp [singleGlyph]
  · simp [singleGlyph]
  · unfold mathShift
    split
    · simp [singleGlyph]
    · simp only
      split <;> simp [singleGlyph]
  · unfold lineEnd
    split
    · simp
    · simp [singleGlyph]
  · exact length_rest_munch ..
  · exact length_rest_munch ..
  all_goals simp [singleGlyph]

/-- What reading a text produced: its tokens, the reports on them, and the table
as the text left it. After a failure the tokens stop at the failing directive. -/
structure Scan where
  tokens : Array Token
  diagnostics : Array Diagnostic
  table : Catcode.Table
  failure : Option NumberError

/-- Reads a text to its end, after the tokens already read. -/
def scanFrom (fileId : FileId) (tokens : Array Token) (diagnostics : Array Diagnostic) :
    Text → Cursor → Scan
  | [], cursor =>
    ⟨tokens.push (Token.endOfInputAt cursor.position fileId), diagnostics, cursor.table, none⟩
  | glyph :: rest, cursor =>
    let lexeme := nextToken fileId glyph rest cursor
    match lexeme.failure with
    | some failure =>
      ⟨tokens.push lexeme.token, diagnostics, lexeme.cursor.table, some failure⟩
    | none =>
      scanFrom fileId (tokens.push lexeme.token) (diagnostics ++ (reports lexeme.token).toArray)
        lexeme.rest lexeme.cursor
termination_by text => text.length
decreasing_by
  have := length_rest_nextToken fileId glyph rest cursor
  simp only [List.length_cons]
  omega

end Lexer

/-- Cuts a text into tokens with a category code table. -/
def scan (source : Text) (table : Catcode.Table) (fileId : FileId) : Lexer.Scan :=
  Lexer.scanFrom fileId #[] #[] source (Lexer.Cursor.atStart table)

/-- The tokens of a text, the end of input last, with the reports on them. -/
def lex (source : Text) (table : Catcode.Table := Catcode.Table.standard) (fileId : FileId := 0) :
    Except NumberError (List Token × List Diagnostic) :=
  let result := scan source table fileId
  match result.failure with
  | some failure => .error failure
  | none => .ok (result.tokens.toList, result.diagnostics.toList)

end TexSource
