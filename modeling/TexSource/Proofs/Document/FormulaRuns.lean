import Mathlib.Data.List.Forall2
import TexSource.Proofs.Document.Rereading
import TexSource.Proofs.Document.WellFormed
import TexSource.Proofs.Lexer.Heads
import TexSource.Proofs.Lexer.Reading

/-!
# Formulas one directly behind the other

The lexer takes math shifts two by two, whatever formulas they belong to (`Formula.pieces`). The
parser splits a doubled one where it ends an inline formula, which puts the shifts right, except
between an inline formula and a display: there the half that is left is followed by a single shift,
and an empty inline formula is read (`Formula.readable`). So formulas that are written one directly
behind the other are read as written exactly if no inline one is followed by a display
(`Document.exists_parse_formulas`).
-/

namespace TexSource

/-- A formula of letters. -/
structure Formula where
  display : Bool
  letters : Text

namespace Formula

/-- The delimiter of a formula as it is written. -/
def delimiter (formula : Formula) : Text :=
  if formula.display then [.char '$', .char '$'] else [.char '$']

/-- How a formula is written. -/
def text (formula : Formula) : Text :=
  formula.delimiter ++ formula.letters ++ formula.delimiter

/-- A formula is written with letters of a table, and with at least one. -/
structure Fits (table : Catcode.Table) (formula : Formula) : Prop where
  nonempty : formula.letters ≠ []
  letters : ∀ glyph ∈ formula.letters, table.classify glyph = .letter

instance (table : Catcode.Table) (formula : Formula) : Decidable (formula.Fits table) :=
  decidable_of_iff
    (formula.letters ≠ [] ∧ ∀ glyph ∈ formula.letters, table.classify glyph = .letter)
    ⟨fun both => ⟨both.1, both.2⟩, fun fits => ⟨fits.nonempty, fits.letters⟩⟩

/-- Not the first formula is inline and the second one a display. -/
def Separable (formula next : Formula) : Prop :=
  formula.display = true ∨ next.display = false

instance : DecidableRel Separable := fun _ _ => inferInstanceAs (Decidable (_ ∨ _))

/-- A single math shift. -/
def single : Lexer.Piece := ⟨.mathShift false, [.char '$']⟩

/-- A double math shift. -/
def double : Lexer.Piece := ⟨.mathShift true, [.char '$', .char '$']⟩

/-- Letters as they are read. -/
def letterPieces (letters : Text) : List Lexer.Piece :=
  letters.map fun glyph => ⟨.character glyph .letter, [glyph]⟩

/-- What the lexer reads of formulas. When the closing shift of an inline formula is `owed`, it is
read together with what follows it. -/
def pieces : (owed : Bool) → List Formula → List Lexer.Piece
  | false, [] => []
  | true, [] => [single]
  | false, ⟨true, letters⟩ :: rest =>
    double :: (letterPieces letters ++ double :: pieces false rest)
  | false, ⟨false, letters⟩ :: rest => single :: (letterPieces letters ++ pieces true rest)
  | true, ⟨true, letters⟩ :: rest =>
    double :: single :: (letterPieces letters ++ double :: pieces false rest)
  | true, ⟨false, letters⟩ :: rest => double :: (letterPieces letters ++ pieces true rest)

/-- Whether a token is a math shift or a letter. -/
def isPart : Token.Kind → Bool
  | .mathShift _ => true
  | .character _ .letter => true
  | _ => false

/-- A run of formulas is made of shifts and letters only. -/
theorem isPart_of_mem_pieces (owed : Bool) (formulas : List Formula) :
    ∀ piece ∈ pieces owed formulas, isPart piece.kind = true := by
  have hletters (letters : Text) : ∀ piece ∈ letterPieces letters, isPart piece.kind = true :=
    List.forall_mem_map.mpr fun _ _ => rfl
  fun_induction pieces owed formulas with
  | case1 => exact nofun
  | case2 => exact List.forall_mem_singleton.mpr rfl
  | case3 letters rest ih =>
    simp only [List.forall_mem_cons, List.forall_mem_append]
    exact ⟨rfl, hletters letters, rfl, ih⟩
  | case4 letters rest ih =>
    simp only [List.forall_mem_cons, List.forall_mem_append]
    exact ⟨rfl, hletters letters, ih⟩
  | case5 letters rest ih =>
    simp only [List.forall_mem_cons, List.forall_mem_append]
    exact ⟨rfl, rfl, hletters letters, rfl, ih⟩
  | case6 letters rest ih =>
    simp only [List.forall_mem_cons, List.forall_mem_append]
    exact ⟨rfl, hletters letters, ih⟩

theorem isCatcode_of_isPart {kind : Token.Kind} (part : isPart kind = true) :
    Lexer.isCatcode kind = false := by
  cases kind <;> first | rfl | cases part

theorem isEndOfInput_of_isPart {token : Token} (part : isPart token.kind = true) :
    token.isEndOfInput = false := by
  unfold Token.isEndOfInput
  cases kind : token.kind <;> simp_all [isPart]

theorem reports_of_isPart {token : Token} (part : isPart token.kind = true) :
    Lexer.reports token = [] := by
  unfold Lexer.reports
  split <;> simp_all [isPart]

/-- The formulas that the parser reads, up to a display directly behind an inline formula: in its
place it reads an empty inline one. -/
def readable : (owed : Bool) → List Formula → List Formula
  | _, [] => []
  | owed, formula :: rest =>
    if owed && formula.display then [⟨false, []⟩] else formula :: readable (!formula.display) rest

section

variable {table : Catcode.Table} {rest : Text}

/-- Two shifts side by side are read as one token. -/
theorem pieces_double (shift : table.classify (.char '$') = .mathShift) (rest : Text) :
    Lexer.pieces table (.char '$' :: .char '$' :: rest) = double :: Lexer.pieces table rest := by
  rw [Lexer.pieces]
  simp only [Lexer.cut, Lexer.cutShift, shift]
  rfl

/-- A shift before another glyph is read alone. -/
theorem pieces_single (shift : table.classify (.char '$') = .mathShift)
    (apart : ∀ next ∈ rest.head?, table.classify next ≠ .mathShift) :
    Lexer.pieces table (.char '$' :: rest) = single :: Lexer.pieces table rest := by
  rw [Lexer.pieces]
  cases rest with
  | nil =>
    simp only [Lexer.cut, Lexer.cutShift, shift]
    rfl
  | cons next later =>
    have other := apart next rfl
    simp only [Lexer.cut, Lexer.cutShift, shift, if_neg other]
    rfl

/-- Letters are read one by one. -/
theorem pieces_letters {letters : Text}
    (all : ∀ glyph ∈ letters, table.classify glyph = .letter) (rest : Text) :
    Lexer.pieces table (letters ++ rest) = letterPieces letters ++ Lexer.pieces table rest := by
  induction letters with
  | nil => rfl
  | cons glyph letters ih =>
    rw [List.forall_mem_cons] at all
    rw [List.cons_append, Lexer.pieces]
    simp only [Lexer.cut, all.1]
    exact congrArg (_ :: ·) (ih all.2)

/-- Behind a single shift letters are read. -/
theorem Fits.head_append {formula : Formula} (fits : formula.Fits table) (rest : Text) :
    ∀ next ∈ (formula.letters ++ rest).head?, table.classify next ≠ .mathShift := by
  obtain ⟨glyph, later, split⟩ := List.exists_cons_of_ne_nil fits.nonempty
  intro next present
  have same : glyph = next := by simpa [split] using present
  rw [← same, fits.letters glyph (split ▸ List.mem_cons_self)]
  exact nofun

/-- The lexer reads formulas as their pieces. -/
theorem pieces_text (shift : table.classify (.char '$') = .mathShift) {formulas : List Formula}
    (fits : ∀ formula ∈ formulas, formula.Fits table) :
    Lexer.pieces table (formulas.flatMap text) = pieces false formulas ∧
      Lexer.pieces table (.char '$' :: formulas.flatMap text) = pieces true formulas := by
  induction formulas with
  | nil =>
    have alone : Lexer.pieces table [.char '$'] = single :: Lexer.pieces table [] :=
      pieces_single shift nofun
    rw [Lexer.pieces] at alone
    exact ⟨by rw [List.flatMap_nil, Lexer.pieces, pieces], alone⟩
  | cons formula formulas ih =>
    obtain ⟨first, later⟩ := List.forall_mem_cons.mp fits
    obtain ⟨closed, owed⟩ := ih later
    obtain ⟨display, letters⟩ := formula
    cases display with
    | true =>
      have split : (⟨true, letters⟩ :: formulas).flatMap text = .char '$' :: .char '$' ::
          (letters ++ .char '$' :: .char '$' :: formulas.flatMap text) := by
        simp [text, delimiter]
      have behind :
          Lexer.pieces table (letters ++ .char '$' :: .char '$' :: formulas.flatMap text) =
            letterPieces letters ++ double :: pieces false formulas := by
        rw [pieces_letters first.letters, pieces_double shift, closed]
      constructor
      · rw [split, pieces_double shift, behind, pieces]
      · rw [split, pieces_double shift, pieces_single shift (first.head_append _), behind, pieces]
    | false =>
      have split : (⟨false, letters⟩ :: formulas).flatMap text = .char '$' ::
          (letters ++ .char '$' :: formulas.flatMap text) := by
        simp [text, delimiter]
      have behind : Lexer.pieces table (letters ++ .char '$' :: formulas.flatMap text) =
          letterPieces letters ++ pieces true formulas := by
        rw [pieces_letters first.letters, owed]
      constructor
      · rw [split, pieces_single shift (first.head_append _), behind, pieces]
      · rw [split, pieces_double shift, behind, pieces]

end

/-- No display is read as an empty inline formula. -/
theorem readable_eq_of_isPrefix {owed : Bool} {formulas : List Formula}
    (front : readable owed formulas <+: formulas) : readable owed formulas = formulas := by
  induction formulas generalizing owed with
  | nil => rfl
  | cons formula rest ih =>
    unfold readable at front ⊢
    by_cases joined : (owed && formula.display) = true
    · rw [if_pos joined, List.cons_prefix_cons] at front
      have display := (Bool.and_eq_true_iff.mp joined).2
      rw [← front.1] at display
      cases display
    · rw [if_neg joined, List.cons_prefix_cons] at front
      rw [if_neg joined, ih front.2]

/-- A run can be read as it stands if its neighbours can be told apart. -/
theorem readable_behind_iff (previous : Formula) (formulas : List Formula) :
    readable (!previous.display) formulas = formulas ↔
      (previous :: formulas).IsChain Separable := by
  induction formulas generalizing previous with
  | nil => exact iff_of_true rfl (.singleton _)
  | cons formula rest ih =>
    rw [List.isChain_cons_cons, ← ih formula, readable]
    by_cases joined : (!previous.display && formula.display) = true
    · obtain ⟨inline, display⟩ := Bool.and_eq_true_iff.mp joined
      have apart : ¬Separable previous formula := by simp_all [Separable]
      rw [if_pos joined]
      refine iff_of_false (fun same => ?_) fun both => apart both.1
      rw [← (List.cons.inj same).1] at display
      cases display
    · have separable : Separable previous formula := by
        by_cases display : previous.display = true
        · exact .inl display
        · exact .inr (by simpa [display] using joined)
      rw [if_neg joined, List.cons_eq_cons]
      simp [separable]

/-- Formulas are read as written if no inline one is followed by a display. -/
theorem readable_eq_iff (formulas : List Formula) :
    readable false formulas = formulas ↔ formulas.IsChain Separable := by
  cases formulas with
  | nil => exact iff_of_true rfl .nil
  | cons formula rest =>
    rw [← readable_behind_iff, readable, Bool.false_and, if_neg nofun, List.cons_eq_cons]
    simp

/-- A shape of a formula: its content are the tokens of its letters. -/
def SpelledBy (formula : Formula) (shape : Shape) : Prop :=
  ∃ tokens : List Token, tokens.map Lexer.pieceOf = letterPieces formula.letters ∧
    shape = .math formula.display (tokens.map .token)

section

variable {commands : CommandTable} {free : Text → Prop} {room : Nat}

/-- The tokens of letters are derived as themselves. -/
theorem written_letters {letters : Text} {tokens : List Token}
    (spelled : tokens.map Lexer.pieceOf = letterPieces letters) :
    Written commands free (.inside true) room tokens (tokens.map .token) := by
  induction tokens generalizing letters with
  | nil => exact .nil
  | cons token rest ih =>
    obtain ⟨glyph, others, rfl, first, later⟩ := List.map_eq_cons_iff.mp spelled.symm
    have kind : token.kind = .character glyph .letter := congrArg Lexer.Piece.kind first.symm
    exact .token (by simp [CommandTable.isPlain, kind]) (ih later.symm)

/-- Tokens are derived as shapes, behind a formula whose closing shift is `owed` if there is one. -/
def Derives (commands : CommandTable) (free : Text → Prop) (room : Nat) (owed : Bool)
    (tokens : List Token) (shapes : List Shape) : Prop :=
  if owed then
    ∀ ⦃content inner⦄, Written commands free (.inside true) room content inner →
      Written commands free .opened (room + 1) (content ++ tokens) (.math false inner :: shapes)
  else Written commands free (.inside false) (room + 1) tokens shapes

/-- Without tokens nothing is derived. -/
theorem derives_nil : Derives commands free room false [] [] :=
  Written.nil

variable {letters : Text} {opener closer shift : Token} {tokens rest : List Token}
  {shapes : List Shape}

/-- A half that is owed is closed by a single shift. -/
theorem derives_closed (closes : Lexer.pieceOf closer = single) :
    Derives commands free room true [closer] [] :=
  fun _ _ within => .last within (congrArg Lexer.Piece.kind closes :) .nil

/-- An inline formula is derived between single shifts. -/
theorem derives_inline (opens : Lexer.pieceOf opener = single)
    (spelled : tokens.map Lexer.pieceOf = letterPieces letters)
    (later : Derives commands free room true rest shapes) :
    Derives commands free room false (opener :: (tokens ++ rest))
      (.math false (tokens.map .token) :: shapes) :=
  Written.inline (congrArg Lexer.Piece.kind opens :) (later (written_letters spelled))

/-- A doubled shift closes an inline formula and opens the next one. -/
theorem derives_joined (joins : Lexer.pieceOf shift = double)
    (spelled : tokens.map Lexer.pieceOf = letterPieces letters)
    (later : Derives commands free room true rest shapes) :
    Derives commands free room true (shift :: (tokens ++ rest))
      (.math false (tokens.map .token) :: shapes) :=
  fun _ _ within =>
    .joined within (congrArg Lexer.Piece.kind joins :) (later (written_letters spelled))

/-- A display is derived between double shifts. -/
theorem derives_display (opens : Lexer.pieceOf opener = double)
    (spelled : tokens.map Lexer.pieceOf = letterPieces letters)
    (closes : Lexer.pieceOf closer = double)
    (later : Derives commands free room false rest shapes) :
    Derives commands free room false (opener :: (tokens ++ closer :: rest))
      (.math true (tokens.map .token) :: shapes) := by
  have first : opener.kind = .mathShift true := congrArg Lexer.Piece.kind opens
  have last : closer.kind = .mathShift true := congrArg Lexer.Piece.kind closes
  have delimits : Delimits opener.kind closer.kind true := by
    rw [first, last]
    exact .shifts
  exact Written.math delimits (written_letters spelled) later

/-- A doubled shift and a single one close an inline formula and make an empty one. -/
theorem derives_empty (joins : Lexer.pieceOf shift = double)
    (closes : Lexer.pieceOf closer = single) :
    Derives commands free room true [shift, closer] [.math false []] :=
  derives_joined joins (show [].map Lexer.pieceOf = letterPieces [] from rfl)
    (derives_closed closes)

variable (commands free room) in
/-- **Readable formulas are derived.** The tokens up to the first display directly behind an inline
formula are those of the readable formulas; all tokens are if there is no such display. -/
theorem exists_derives {owed : Bool} {formulas : List Formula} {tokens : List Token}
    (same : tokens.map Lexer.pieceOf = pieces owed formulas) :
    ∃ front behind shapes, tokens = front ++ behind ∧
      List.Forall₂ SpelledBy (readable owed formulas) shapes ∧
      Derives commands free room owed front shapes ∧
      (readable owed formulas = formulas → behind = []) := by
  induction formulas generalizing owed tokens with
  | nil =>
    cases owed with
    | false =>
      obtain rfl := List.map_eq_nil_iff.mp same
      exact ⟨[], [], [], rfl, .nil, derives_nil, fun _ => rfl⟩
    | true =>
      obtain ⟨closer, rfl, closes⟩ := List.map_eq_singleton_iff.mp same
      exact ⟨[closer], [], [], rfl, .nil, derives_closed closes, fun _ => rfl⟩
  | cons formula formulas ih =>
    obtain ⟨display, letters⟩ := formula
    have spelled (tokens : List Token) (spelled : tokens.map Lexer.pieceOf = letterPieces letters) :
        SpelledBy ⟨display, letters⟩ (.math display (tokens.map .token)) := ⟨tokens, spelled, rfl⟩
    cases owed <;> cases display
    case false.false =>
      obtain ⟨opener, _, rfl, opens, same⟩ := List.map_eq_cons_iff.mp same
      obtain ⟨inside, _, rfl, letter, same⟩ := List.map_eq_append_iff.mp same
      obtain ⟨front, behind, shapes, rfl, fit, derives, whole⟩ := ih same
      exact ⟨opener :: (inside ++ front), behind, _, by simp, .cons (spelled _ letter) fit,
        derives_inline opens letter derives, fun all => whole (List.cons.inj all).2⟩
    case false.true =>
      obtain ⟨opener, _, rfl, opens, same⟩ := List.map_eq_cons_iff.mp same
      obtain ⟨inside, _, rfl, letter, same⟩ := List.map_eq_append_iff.mp same
      obtain ⟨closer, _, rfl, closes, same⟩ := List.map_eq_cons_iff.mp same
      obtain ⟨front, behind, shapes, rfl, fit, derives, whole⟩ := ih same
      exact ⟨opener :: (inside ++ closer :: front), behind, _, by simp,
        .cons (spelled _ letter) fit, derives_display opens letter closes derives,
        fun all => whole (List.cons.inj all).2⟩
    case true.false =>
      obtain ⟨shift, _, rfl, joins, same⟩ := List.map_eq_cons_iff.mp same
      obtain ⟨inside, _, rfl, letter, same⟩ := List.map_eq_append_iff.mp same
      obtain ⟨front, behind, shapes, rfl, fit, derives, whole⟩ := ih same
      exact ⟨shift :: (inside ++ front), behind, _, by simp, .cons (spelled _ letter) fit,
        derives_joined joins letter derives, fun all => whole (List.cons.inj all).2⟩
    case true.true =>
      -- The half that the joined shift leaves is closed by the single one.
      obtain ⟨shift, _, rfl, joins, same⟩ := List.map_eq_cons_iff.mp same
      obtain ⟨closer, behind, rfl, closes, -⟩ := List.map_eq_cons_iff.mp same
      exact ⟨[shift, closer], behind, _, rfl, .cons ⟨[], rfl, rfl⟩ .nil, derives_empty joins closes,
        fun all => by cases (List.cons.inj all).1⟩

end

/-- A node is that of a formula: closed, and with the letters of the formula in it. -/
def IsReadAs (formula : Formula) (node : Node) : Prop :=
  ∃ id opener children closer span,
    node = .math id formula.display opener children (some closer) span ∧
      (placedAll children).map (fun placed => Lexer.pieceOf placed.token) =
        letterPieces formula.letters

/-- Letters are known by their pieces. -/
theorem letterPieces_injective : Function.Injective letterPieces := by
  apply List.map_injective_iff.mpr
  intro glyph other same
  cases same
  rfl

/-- A node is that of one formula only. -/
theorem leftUnique_isReadAs : Relator.LeftUnique IsReadAs := by
  rintro ⟨display, letters⟩ ⟨otherDisplay, otherLetters⟩ node
    ⟨id, opener, children, closer, span, rfl, spelled⟩ ⟨_, _, _, _, _, same, again⟩
  cases same
  obtain rfl : letters = otherLetters := letterPieces_injective (spelled.symm.trans again)
  rfl

/-- A formula is read as the node of its shape. -/
theorem isReadAs_of_shaped {formula : Formula} {shape : Shape} {node : Node}
    (spelled : formula.SpelledBy shape) (shaped : Shaped shape node) : formula.IsReadAs node := by
  obtain ⟨tokens, letters, rfl⟩ := spelled
  cases shaped with
  | math id display opener closer span within =>
    refine ⟨id, opener, _, closer, span, rfl, ?_⟩
    rw [← letters, ← Parser.tokens_of_shaped within, List.map_map]
    rfl

theorem forall₂_isReadAs {formulas : List Formula} {shapes : List Shape} {nodes : List Node}
    (spelled : List.Forall₂ SpelledBy formulas shapes) (shaped : List.Forall₂ Shaped shapes nodes) :
    List.Forall₂ IsReadAs formulas nodes := by
  induction spelled generalizing nodes with
  | nil =>
    cases shaped
    exact .nil
  | cons first _ ih =>
    cases shaped with
    | cons node later => exact .cons (isReadAs_of_shaped first node) (ih later)

/-- What is read of formulas ends where it is no longer as written. -/
theorem readable_eq_of_forall₂ {formulas : List Formula} {first later : List Node}
    (all : List.Forall₂ IsReadAs formulas (first ++ later))
    (front : List.Forall₂ IsReadAs (readable false formulas) first) :
    readable false formulas = formulas := by
  have same : readable false formulas = formulas.take first.length := by
    have taken := List.forall₂_take first.length all
    rw [List.take_left] at taken
    exact List.left_unique_forall₂' leftUnique_isReadAs front taken
  exact readable_eq_of_isPrefix (same ▸ List.take_prefix ..)

end Formula

namespace Lexer

/-- What is reported of a text is what is reported of its tokens. -/
theorem reports_of_lex {source : Text} {table : Catcode.Table} {fileId : FileId}
    {tokens : List Token} {diagnostics : List Diagnostic}
    (lexed : lex source table fileId = .ok (tokens, diagnostics)) :
    diagnostics = tokens.flatMap reports := by
  obtain ⟨content, head, reads, rfl⟩ := exists_reads_of_lex lexed
  rw [reads.lex_eq] at lexed
  cases lexed
  simp [reports, Token.endOfInputAt]

end Lexer

namespace Document

/-- What is read of a text of formulas: the readable ones, and those as written exactly if no inline
formula is followed by a display. -/
structure ReadsFormulas (formulas : List Formula) (document : Document) : Prop where
  front : ∃ first later, document.root.children = first ++ later ∧
    List.Forall₂ Formula.IsReadAs (Formula.readable false formulas) first
  asWritten : document.diagnostics = [] ∧
      List.Forall₂ Formula.IsReadAs formulas document.root.children ↔
    formulas.IsChain Formula.Separable

/-- **Pieces of formulas are parsed** as those formulas. -/
theorem readsFormulas_ofTokens {tokens : List Token} {formulas : List Formula}
    (same : (contentOf tokens).map Lexer.pieceOf = Formula.pieces false formulas) (source : Text)
    (fileId : FileId) (commands : CommandTable) :
    ReadsFormulas formulas (ofTokens tokens source fileId commands) := by
  obtain ⟨children, reports, derived⟩ := derived_ofTokens tokens source fileId commands
  generalize ofTokens tokens source fileId commands = document at derived
  obtain ⟨span, root⟩ := derived.root
  obtain ⟨front, behind, shapes, split, spelled, written, all⟩ :=
    Formula.exists_derives commands (fun name => commands.isFree name.strip = true) 63 same
  have begins : Parser.Begins commands 0 ⟨false, false, false⟩ .never (front ++ behind) shapes
      behind :=
    Parser.begins_of_written written (fun _ => id) (Nat.le_refl _) behind ⟨rfl, trivial, rfl⟩
  obtain ⟨first, later, rfl, fit, read⟩ := begins (split ▸ derived.reads)
  have readable := Formula.forall₂_isReadAs spelled fit
  have below : document.root.children = first ++ later := by
    rw [root]
    rfl
  constructor
  case front => exact ⟨first, later, below, readable⟩
  case asWritten =>
    rw [below, ← Formula.readable_eq_iff]
    constructor
    · exact fun read => Formula.readable_eq_of_forall₂ read.2 readable
    · intro whole
      obtain rfl := all whole
      -- At the end of the input nothing more is read and nothing is reported.
      obtain ⟨rfl, rfl⟩ : reports = [] ∧ later = [] := by
        cases read
        exact ⟨rfl, rfl⟩
      rw [whole] at readable
      exact ⟨derived.diagnostics, by rwa [List.append_nil]⟩

/-- **Formulas one directly behind the other.** -/
theorem exists_parse_formulas {table : Catcode.Table} {formulas : List Formula}
    (shift : table.classify (.char '$') = .mathShift)
    (fits : ∀ formula ∈ formulas, formula.Fits table) (commands : CommandTable) (fileId : FileId) :
    ∃ document, parse (formulas.flatMap Formula.text) table commands fileId = .ok document ∧
      ReadsFormulas formulas document := by
  have pieces := (Formula.pieces_text shift fits).1
  have parts := Formula.isPart_of_mem_pieces false formulas
  rw [← pieces] at parts
  obtain ⟨content, last, reports, lexed, ends, same⟩ :=
    Lexer.lex_of_pieces fileId fun piece member => Formula.isCatcode_of_isPart (parts piece member)
  have part (token : Token) (member : token ∈ content) : Formula.isPart token.kind = true :=
    parts _ (same ▸ List.mem_map_of_mem member)
  have silent : reports = [] := by
    have unreported (token : Token) (member : token ∈ content) :=
      Formula.reports_of_isPart (part token member)
    have final : Lexer.reports last = [] := by
      have kind : last.kind = .endOfInput := of_decide_eq_true ends
      simp [Lexer.reports, kind]
    rw [Lexer.reports_of_lex lexed, List.flatMap_append, List.flatMap_eq_nil_iff.mpr unreported]
    simpa using final
  subst silent
  have whole : contentOf (content ++ [last]) = content :=
    contentOf_concat (fun token member => Formula.isEndOfInput_of_isPart (part token member)) ends
  refine ⟨ofTokens (content ++ [last]) (formulas.flatMap Formula.text) fileId commands, ?_, ?_⟩
  · rw [parse, lexed]
    rfl
  · have content := whole.symm ▸ same.trans pieces
    exact readsFormulas_ofTokens content _ _ _

/-- A display between inline formulas, but behind one of them another inline one. -/
def separableFormulas : List Formula :=
  [⟨true, [.char 'a']⟩, ⟨false, [.char 'b']⟩, ⟨false, [.char 'c', .char 'd']⟩]

theorem exists_parse_separableFormulas :
    Catcode.Table.standard.classify (.char '$') = .mathShift ∧
      (∀ formula ∈ separableFormulas, formula.Fits .standard) ∧
      ∃ document, parse (separableFormulas.flatMap Formula.text) .standard .standard 0 =
          .ok document ∧ ReadsFormulas separableFormulas document := by
  have shift : Catcode.Table.standard.classify (.char '$') = .mathShift := by decide
  have fits : ∀ formula ∈ separableFormulas, formula.Fits .standard := by decide
  exact ⟨shift, fits, exists_parse_formulas shift fits .standard 0⟩

/-- An inline formula and a display directly behind it. -/
def joinedFormulas : List Formula :=
  [⟨false, [.char 'a']⟩, ⟨true, [.char 'b']⟩]

/-- Of an inline formula and a display directly behind it four nodes are read, and a report is
made. -/
theorem exists_parse_joinedFormulas :
    (∀ formula ∈ joinedFormulas, formula.Fits .standard) ∧
      ∃ document, parse (joinedFormulas.flatMap Formula.text) .standard .standard 0 =
          .ok document ∧ document.diagnostics ≠ [] ∧
        ¬List.Forall₂ Formula.IsReadAs joinedFormulas document.root.children := by
  have built : (parse (joinedFormulas.flatMap Formula.text) .standard .standard 0).toOption.map
      (fun document => (document.root.children.length, document.diagnostics.length)) =
        some (4, 1) := by decide +kernel
  cases parsed : parse (joinedFormulas.flatMap Formula.text) .standard .standard 0 with
  | error failure =>
    rw [parsed] at built
    cases built
  | ok document =>
    rw [parsed] at built
    obtain ⟨children, reports⟩ := Prod.mk.inj (Option.some.inj built)
    refine ⟨by decide, document, rfl, ?_, ?_⟩
    · intro none
      simp [none] at reports
    · intro read
      have lengths := read.length_eq
      rw [children] at lengths
      cases lengths

end Document

end TexSource
