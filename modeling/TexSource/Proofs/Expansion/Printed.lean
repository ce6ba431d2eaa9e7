import TexSource.Proofs.Expansion.Provenance
import TexSource.Proofs.FileTable
import TexSource.Proofs.Lexer.Printing

/-!
# Reading a printed expansion

An expansion is printed by writing the texts of its tokens one behind the other, wherever the
tokens come from. Without assignments of category codes, each of these texts spells its token
(`Expansion.hereditary_printable`). So the text is read as the tokens that were printed exactly
if none of them runs into the one behind it (`Lexer.reads_rawText_iff`). One does where a macro
ends in a control word, or where the parser split a doubled math shift.
-/

namespace TexSource

namespace Lexer

/-- A table in which nothing is assigned. -/
def Bare (table : Catcode.Table) : Prop :=
  ∀ layer ∈ table.layers, layer = []

variable {table other : Catcode.Table}

theorem bare_standard : Bare .standard := fun _ member => List.mem_singleton.mp member

namespace Bare

theorem plain (bare : Bare table) : Plain table := by
  intro layer member binding bound
  rw [bare layer member] at bound
  cases bound

theorem classify (bare : Bare table) (glyph : Glyph) :
    table.classify glyph = Catcode.initial glyph := by
  unfold Catcode.Table.classify
  cases found : table.lookup glyph.code with
  | none => rfl
  | some catcode =>
    obtain ⟨layer, member, bound⟩ := List.exists_of_findSome?_eq_some found
    rw [bare layer member] at bound
    cases bound

/-- Reading on past a token that assigns nothing leads to a table without assignments. -/
theorem behind (bare : Bare table) {kind : Token.Kind} (harmless : isDirective kind = false) :
    Bare (behind table kind) := by
  unfold Lexer.behind
  split
  · rename_i name
    simp only [isDirective, Token.Kind.controlWord.injEq, Bool.or_eq_false_iff,
      decide_eq_false_iff_not] at harmless
    rw [behindWord, if_neg harmless.1.2, if_neg harmless.2]
    exact bare
  · intro layer member
    rcases List.mem_cons.mp member with rfl | member
    · rfl
    · exact bare layer member
  · intro layer member
    apply bare layer
    rcases List.mem_append.mp member with inner | bottom
    · exact List.mem_append_left _ (List.mem_of_mem_tail inner)
    · exact List.mem_append_right _ bottom
  · exact bare

end Bare

/-- Tables that agree on all glyphs agree on what a text spells. -/
theorem Spelled.congr {kind : Token.Kind} {raw : Text}
    (same : ∀ glyph, table.classify glyph = other.classify glyph)
    (spelled : Spelled table kind raw) : Spelled other kind raw := by
  cases spelled with
  | word escapes named letters spaces =>
    exact .word (same _ ▸ escapes) named (fun glyph member => same glyph ▸ letters glyph member)
      fun glyph member => same glyph ▸ spaces glyph member
  | symbol escapes noLetter noLineEnd =>
    exact .symbol (same _ ▸ escapes) (same _ ▸ noLetter) (same _ ▸ noLineEnd)
  | lone escapes => exact .lone (same _ ▸ escapes)
  | shift shifts => exact .shift (same _ ▸ shifts)
  | doubled shifts again => exact .doubled (same _ ▸ shifts) (same _ ▸ again)
  | comment opens inside =>
    exact .comment (same _ ▸ opens) fun glyph member => same glyph ▸ inside glyph member
  | space nonempty spaces =>
    exact .space nonempty fun glyph member => same glyph ▸ spaces glyph member
  | lineEnd nonempty ends =>
    exact .lineEnd nonempty fun glyph member => same glyph ▸ ends glyph member
  | alone alone => exact .alone (same _ ▸ alone)

/-- Without assignments, what is read is spelled by its text in the initial table. -/
theorem spelled_of_mem_pieces (bare : Bare table) (text : Text)
    (harmless : ∀ piece ∈ pieces table text, isDirective piece.kind = false) :
    ∀ piece ∈ pieces table text, Spelled .standard piece.kind piece.raw := by
  fun_induction pieces table text with
  | case1 => exact List.forall_mem_nil _
  | case2 table glyph rest ih =>
    rw [List.forall_mem_cons] at harmless ⊢
    refine ⟨(severed_cut bare.plain glyph rest).spelled.congr fun glyph => ?_,
      ih (bare.behind harmless.1) harmless.2⟩
    rw [bare.classify, bare_standard.classify]

/-- What the first glyph of a text tells about the token that the text spells. -/
theorem Spelled.head {kind : Token.Kind} {glyph : Glyph} {rest : Text}
    (spelled : Spelled table kind (glyph :: rest)) :
    (table.classify glyph = .letter ↔ ∃ other, kind = .character other .letter) ∧
      (table.classify glyph = .mathShift ↔ ∃ doubled, kind = .mathShift doubled) ∧
        (table.classify glyph = .endOfLine ↔ kind = .endOfLine) := by
  generalize written : glyph :: rest = raw at spelled
  cases spelled with
  | word escapes | symbol escapes | lone escapes =>
    cases written
    simp [escapes]
  | shift shifts | doubled shifts =>
    cases written
    simp [shifts]
  | comment opens =>
    cases written
    simp [opens]
  | space nonempty spaces =>
    have space := spaces glyph (by rw [← written]; exact List.mem_cons_self)
    simp [space]
  | lineEnd nonempty ends =>
    have lineEnd := ends glyph (by rw [← written]; exact List.mem_cons_self)
    simp [lineEnd]
  | alone alone =>
    cases written
    cases category : table.classify glyph <;> rw [category] at alone <;> cases alone <;> simp

end Lexer

namespace Token

/-- Whether a token that is printed runs into the one that is printed behind it: a control word
without blanks into a letter, a lone escape character and a comment into anything but a line
end, and a single math shift into a math shift. -/
def runsInto (token next : Token) : Bool :=
  match token.kind, next.kind with
  | .controlWord _, .character _ .letter => token.raw = token.controlText
  | .controlSymbol none, kind => kind ≠ .endOfLine
  | .comment _, kind => kind ≠ .endOfLine
  | .mathShift false, .mathShift _ => true
  | _, _ => false

end Token

namespace Lexer

variable {table : Catcode.Table}

/-- A control word is its text without blanks if nothing follows its name. -/
theorem Spelled.eq_controlText_iff {token : Token} {name : Text}
    (spelled : Spelled table token.kind token.raw) (kind : token.kind = .controlWord name) :
    token.raw = token.controlText ↔ token.raw.length = name.length + 1 := by
  rw [kind] at spelled
  obtain ⟨escape, blanks, written, _⟩ := spelled.of_word
  have least : name.length + 1 ≤ token.raw.length := by simp [written]
  simp only [Token.controlText, kind]
  constructor
  · intro whole
    have cut := congrArg List.length whole
    rw [List.length_take] at cut
    omega
  · intro short
    rw [List.take_of_length_le (by omega)]

/-- A token closes before the next one exactly if it does not run into it. -/
theorem closes_iff_runsInto {token next : Token}
    (spelled : Spelled table token.kind token.raw) {glyph : Glyph} {rest : Text}
    (written : next.raw = glyph :: rest) (follows : Spelled table next.kind next.raw) :
    Closes table token.kind token.raw glyph ↔ token.runsInto next = false := by
  rw [written] at follows
  obtain ⟨letter, shift, lineEnd⟩ := follows.head
  unfold Closes Token.runsInto
  cases kind : token.kind with
  | controlWord name =>
    dsimp only
    rw [← spelled.eq_controlText_iff kind, Ne, letter]
    cases next.kind with
    | character other catcode => cases catcode <;> simp
    | _ => simp
  | controlSymbol symbol => cases symbol <;> simp [lineEnd]
  | comment content => simp [lineEnd]
  | mathShift doubled =>
    cases doubled with
    | true => simp
    | false =>
      dsimp only
      rw [Ne, shift]
      cases next.kind <;> simp
  | _ => simp

/-- Tokens that are spelled by their texts and assign nothing are read from what is printed of
them exactly if none runs into the one behind it. -/
theorem reads_rawText_iff (bare : Bare table) {tokens : List Token}
    (spelled : ∀ token ∈ tokens, Spelled .standard token.kind token.raw)
    (harmless : ∀ token ∈ tokens, isDirective token.kind = false) :
    reads table (Token.rawText tokens) = (tokens.map Token.kind).filter (!·.isBlank) ↔
      tokens.IsChain fun token next => token.runsInto next = false := by
  induction tokens generalizing table with
  | nil => exact iff_of_true (reads_nil table) .nil
  | cons token tokens ih =>
    rw [List.forall_mem_cons] at spelled harmless
    have same : ∀ glyph, Catcode.Table.standard.classify glyph = table.classify glyph :=
      fun glyph => by rw [bare.classify, bare_standard.classify]
    have first := spelled.1.congr same
    have later := ih (bare.behind harmless.1) spelled.2 harmless.2
    rw [Token.rawText_cons, List.map_cons, ← List.singleton_append (l := tokens.map Token.kind),
      List.filter_append]
    cases tokens with
    | nil =>
      rw [Token.rawText_nil, reads_append bare.plain first (by simp), reads_nil]
      exact iff_of_true rfl (.singleton token)
    | cons next rest =>
      rw [List.forall_mem_cons] at spelled
      have second := spelled.2.1.congr same
      obtain ⟨glyph, tail, written⟩ := List.exists_cons_of_ne_nil second.ne_nil
      have text : Token.rawText (next :: rest) = glyph :: (tail ++ Token.rawText rest) := by
        rw [Token.rawText_cons, written, List.cons_append]
      rw [List.isChain_cons_cons, ← closes_iff_runsInto first written second, ← later]
      by_cases closes : Closes table token.kind token.raw glyph
      · rw [reads_append bare.plain first (by simpa [text] using closes),
          List.append_cancel_left_eq]
        simp [closes]
      · rw [text]
        exact iff_of_false (reads_append_of_not_closes first closes _ _) fun both => closes both.1

end Lexer

namespace Expansion

/-- A text without assignments of category codes. -/
def Undirected (source : Text) : Prop :=
  ∀ token ∈ (scan source .standard 0).tokens.toList, Lexer.isDirective token.kind = false

/-- A token that assigns no category codes and is spelled by its text, if it has one. -/
structure Printable (token : Token) : Prop where
  spelled : token.raw ≠ [] → Lexer.Spelled .standard token.kind token.raw
  harmless : Lexer.isDirective token.kind = false

open Lexer

/-- An expansion keeps tokens printable. -/
theorem hereditary_printable : Hereditary Printable where
  markExpanded printable := ⟨printable.spelled, printable.harmless⟩
  withTicket printable _ := ⟨printable.spelled, printable.harmless⟩
  halves {token} doubled printable := by
    have parts : ∀ half : Text, half ≠ [] → half = token.raw.take 1 ∨ half = token.raw.drop 1 →
        Spelled .standard (.mathShift false) half := by
      intro half written part
      have spelled := printable.spelled (by rintro empty; simp_all)
      rw [doubled] at spelled
      obtain ⟨glyph, next, raw, shifts, again⟩ := spelled.of_doubled
      rw [raw] at part
      rcases part with rfl | rfl
      · exact .shift shifts
      · exact .shift again
    exact ⟨⟨fun written => parts _ written (.inl rfl), rfl⟩,
      ⟨fun written => parts _ written (.inr rfl), rfl⟩⟩
  opener _ := ⟨fun written => absurd rfl written, rfl⟩
  closer _ := ⟨fun written => absurd rfl written, rfl⟩

theorem Undirected.noCatcode {source : Text} (undirected : Undirected source) :
    ∀ piece ∈ pieces .standard source, isCatcode piece.kind = false :=
  noCatcode_of_scan fun token member => isCatcode_of_not_isDirective (undirected token member)

/-- No piece of a text without assignments assigns category codes. -/
theorem Undirected.harmless {source : Text} (undirected : Undirected source) :
    ∀ piece ∈ pieces .standard source, isDirective piece.kind = false := by
  obtain ⟨content, last, reports, read, _, same⟩ := lex_of_pieces 0 undirected.noCatcode
  have tokens : (scan source .standard 0).tokens.toList = content ++ [last] := by
    unfold lex at read
    dsimp only at read
    split at read
    · cases read
    · exact congrArg Prod.fst (Except.ok.inj read)
  intro piece member
  rw [← same] at member
  obtain ⟨token, among, rfl⟩ := List.mem_map.mp member
  exact undirected token (by rw [tokens]; exact List.mem_append_left _ among)

/-- The tokens of a text without assignments are printable. -/
theorem printable_of_lex {source : Text} (undirected : Undirected source) {fileId : FileId}
    {tokens : List Token} {reports : List Diagnostic}
    (read : lex source .standard fileId = .ok (tokens, reports)) :
    ∀ token ∈ tokens, token.isEndOfInput = false → Printable token := by
  have harmless := undirected.harmless
  obtain ⟨content, last, others, reread, ends, same⟩ := lex_of_pieces fileId undirected.noCatcode
  obtain ⟨rfl, rfl⟩ := Prod.mk.inj (Except.ok.inj (read.symm.trans reread))
  intro token member inside
  rcases List.mem_append.mp member with among | final
  · have piece : pieceOf token ∈ pieces .standard source := by
      rw [← same]
      exact List.mem_map_of_mem among
    exact ⟨fun _ => spelled_of_mem_pieces bare_standard source harmless _ piece,
      harmless _ piece⟩
  · rw [List.mem_singleton.mp final, ends] at inside
    cases inside

/-- Contents without assignments of category codes. -/
def UndirectedContents (bytes : List UInt8) : Prop :=
  Undirected (Text.decode bytes)

/-- Files without assignments, parsed with the initial category codes, supply printable
tokens. -/
theorem supplies_printable {files : FileSystem}
    (undirected : FileTable.Reads files UndirectedContents) (main : FileId) :
    Supplies files main Printable fun table =>
      table.Sound UndirectedContents ∧ table.catcodes = [] where
  enter kept path parent :=
    ⟨(kept.1.enter path parent).1, (FileTable.catcodes_enter ..).trans kept.2⟩
  document kept id :=
    ⟨(kept.1.document undirected id).1, (FileTable.catcodes_document ..).trans kept.2⟩
  supplied {table _ path parent document} kept _ read := by
    obtain ⟨entered, _⟩ := kept.1.enter path parent
    obtain ⟨_, origin⟩ := entered.document undirected (table.enter path parent).1.id
    obtain ⟨bytes, harmless, parsed⟩ := origin document (by rw [read])
    rw [FileTable.catcodes_enter, kept.2] at parsed
    exact (Document.carries_parse hereditary_printable parsed fun _ _ lexed =>
      printable_of_lex harmless lexed).2

/-- The tokens of a document that are printed: those of an included document stand in the place
of its directive, and those without text are left out. -/
def printed (document : Document) : List Token :=
  document.inlined.filter fun token => token.raw ≠ []

/-- Before their halves were split, tokens were printable if the halves are. -/
theorem printable_of_splits {joined tokens : List Token} (splits : Parser.Splits joined tokens)
    (printable : ∀ token ∈ tokens, Printable token ∧ token.raw ≠ []) :
    ∀ token ∈ joined, Printable token ∧ token.raw ≠ [] := by
  induction splits with
  | nil => exact printable
  | keep token _ ih =>
    rw [List.forall_mem_cons] at printable ⊢
    exact ⟨printable.1, ih printable.2⟩
  | @split token doubled _ _ later ih =>
    rw [List.forall_mem_cons, List.forall_mem_cons] at printable
    rw [List.forall_mem_cons]
    refine ⟨?_, ih printable.2.2⟩
    obtain ⟨glyph, front, shifts⟩ := (printable.1.1.spelled printable.1.2).of_shift
    obtain ⟨next, back, again⟩ := (printable.2.1.1.spelled printable.2.1.2).of_shift
    have whole : token.raw = [glyph, next] := by
      rw [← Parser.raw_splitShift, front, back]
      rfl
    refine ⟨⟨fun _ => ?_, by rw [doubled]; rfl⟩, by simp [whole]⟩
    rw [doubled, whole]
    exact .doubled shifts again

/-- Printable tokens are read from their text again exactly if they do not run into each
other. -/
theorem lex_rawText_iff {tokens : List Token}
    (printable : ∀ token ∈ tokens, Printable token ∧ token.raw ≠ []) (fileId : FileId) :
    (∃ others reports, lex (Token.rawText tokens) .standard fileId = .ok (others, reports) ∧
        Token.content others = Token.content tokens) ↔
      tokens.IsChain fun token next => token.runsInto next = false := by
  have spelled : ∀ token ∈ tokens, Spelled .standard token.kind token.raw :=
    fun token member => (printable token member).1.spelled (printable token member).2
  have harmless : ∀ token ∈ tokens, isDirective token.kind = false :=
    fun token member => (printable token member).1.harmless
  have content : Token.content tokens = (tokens.map Token.kind).filter (!·.isBlank) := by
    apply List.filter_congr
    intro kind member
    obtain ⟨token, among, rfl⟩ := List.mem_map.mp member
    simp [(spelled token among).ne_endOfInput]
  have noCatcode : .controlWord "catcode" ∉ Token.content tokens := by
    intro word
    obtain ⟨token, among, kind⟩ := List.mem_map.mp (List.mem_filter.mp word).1
    have assigns := harmless token among
    rw [kind] at assigns
    simp [isDirective] at assigns
  rw [← reads_rawText_iff bare_standard spelled harmless, ← content]
  constructor
  · rintro ⟨others, reports, lexed, same⟩
    rw [← same] at noCatcode ⊢
    exact reads_of_lex plain_standard lexed noCatcode
  · intro read
    rw [← read] at noCatcode ⊢
    exact lex_of_reads plain_standard noCatcode fileId

/-- Tokens without text do not matter to the text. -/
theorem rawText_printed (document : Document) :
    Token.rawText (printed document) = document.sourceText := by
  rw [Document.sourceText_eq_rawText, printed]
  induction document.inlined with
  | nil => rfl
  | cons token rest ih =>
    by_cases written : token.raw ≠ []
    · rw [List.filter_cons_of_pos (by simpa using written), Token.rawText_cons, ih,
        Token.rawText_cons]
    · rw [List.filter_cons_of_neg (by simpa using written), Token.rawText_cons, ih,
        not_not.mp written, List.nil_append]

/-- **The printed expansion means what was expanded** exactly where nothing runs together. Let a
source and the files that can be read assign no category codes, and let any halves of doubled
math shifts that were split be joined again among the tokens that are printed of its expansion.
Then the printed text is read as these tokens, blanks left out, if and only if none of them
runs into the one behind it. -/
theorem reads_sourceText_iff {source : Text} (undirected : Undirected source)
    {commands : CommandTable} {fileId : FileId} {document : Document}
    (parsed : Document.parse source .standard commands fileId = .ok document)
    {settings : Settings} (harmless : FileTable.Reads settings.files UndirectedContents)
    {fileTable : FileTable} (sound : fileTable.Sound UndirectedContents)
    (initial : fileTable.catcodes = []) {expanded : Document} {reports : List Diagnostic}
    (done : (expand settings document Scope.empty fileTable).outcome = .ok (expanded, reports))
    {joined : List Token} (splits : Parser.Splits joined (printed expanded)) (other : FileId) :
    (∃ tokens others, lex expanded.sourceText .standard other = .ok (tokens, others) ∧
        Token.content tokens = Token.content joined) ↔
      joined.IsChain fun token next => token.runsInto next = false := by
  have holds := (Document.carries_parse hereditary_printable parsed fun _ _ lexed =>
    printable_of_lex undirected lexed).2
  obtain ⟨branch, ended, rfl⟩ := carries_expand hereditary_printable
    (supplies_printable harmless document.fileId) holds (.empty _) ⟨sound, initial⟩ done
  have carries := ended.result hereditary_printable settings.commands document
  have printable : ∀ token ∈ printed (branch.result settings.commands document),
      Printable token ∧ token.raw ≠ [] := by
    intro token member
    obtain ⟨inlined, written⟩ := List.mem_filter.mp member
    exact ⟨carries.inlined token inlined, of_decide_eq_true written⟩
  rw [← rawText_printed, splits.rawText_eq]
  exact lex_rawText_iff (printable_of_splits splits printable) other

/-- Without files, with the default tables and limits. -/
def defaults : Settings := ⟨noFiles, {}, .standard⟩

def noTable : FileTable := FileTable.empty noFiles.currentDirectory

/-- A text that is expanded in a scope within a number of steps to a document that passes a test. -/
theorem exists_expansion_in (scope : Scope) (source : Text) (count : Nat) (test : Document → Bool)
    (checked : ((Document.parse source .standard .standard 0).toOption.bind fun document =>
      ((mainRun defaults document scope noTable count).map
        (·.result .standard document)).filter test).isSome = true) :
    ∃ document expanded reports, Document.parse source .standard .standard 0 = .ok document ∧
      (expand defaults document scope noTable).outcome = .ok (expanded, reports) ∧
        test expanded = true := by
  obtain ⟨expanded, found⟩ := Option.isSome_iff_exists.mp checked
  obtain ⟨document, parsed, ran⟩ := Option.bind_eq_some_iff.mp found
  obtain ⟨ran, passes⟩ := Option.filter_eq_some_iff.mp ran
  obtain ⟨branch, reached, rfl⟩ := Option.map_eq_some_iff.mp ran
  cases outcome : Document.parse source .standard .standard 0 with
  | error failure =>
    rw [outcome] at parsed
    cases parsed
  | ok other =>
    rw [outcome] at parsed
    cases parsed
    exact ⟨document, _, _, rfl, outcome_of_mainRun reached, passes⟩

theorem exists_expansion (source : Text) (count : Nat) (test : Document → Bool)
    (checked : ((Document.parse source .standard .standard 0).toOption.bind fun document =>
      ((mainRun defaults document Scope.empty noTable count).map
        (·.result .standard document)).filter test).isSome = true) :
    ∃ document expanded reports, Document.parse source .standard .standard 0 = .ok document ∧
      (expand defaults document Scope.empty noTable).outcome = .ok (expanded, reports) ∧
        test expanded = true :=
  exists_expansion_in Scope.empty source count test checked

/-- A text with a macro whose words are kept apart from what is behind them. -/
def spacedWords : Text := "\\def\\a#1\x7b\\b #1$#1$\x7d\\a\x7bc\x7d%\n$$d$$"

theorem reads_sourceText_iff_spacedWords :
    Undirected spacedWords ∧ FileTable.Reads defaults.files UndirectedContents ∧
      noTable.Sound UndirectedContents ∧ noTable.catcodes = [] ∧
      ∃ document expanded reports tokens others,
        Document.parse spacedWords .standard .standard 0 = .ok document ∧
        (expand defaults document Scope.empty noTable).outcome = .ok (expanded, reports) ∧
        Parser.Splits (printed expanded) (printed expanded) ∧
        ((printed expanded).IsChain fun token next => token.runsInto next = false) ∧
        expanded.sourceText = "\\b c$c$%\n$$d$$" ∧
        lex expanded.sourceText .standard 0 = .ok (tokens, others) ∧
        Token.content tokens = Token.content (printed expanded) := by
  have undirected : Undirected spacedWords := by
    unfold Undirected
    decide +kernel
  have harmless : FileTable.Reads defaults.files UndirectedContents :=
    fun _ _ found => nomatch found
  have sound : noTable.Sound UndirectedContents := .empty ..
  obtain ⟨document, expanded, reports, parsed, done, passes⟩ :=
    exists_expansion spacedWords 20 (fun expanded =>
      decide ((printed expanded).IsChain fun token next => token.runsInto next = false) &&
        decide (expanded.sourceText = "\\b c$c$%\n$$d$$")) (by decide +kernel)
  simp only [Bool.and_eq_true, decide_eq_true_eq] at passes
  have splits := Parser.Splits.refl (printed expanded)
  obtain ⟨tokens, others, read, same⟩ :=
    (reads_sourceText_iff undirected parsed harmless sound rfl done splits 0).mpr passes.1
  exact ⟨undirected, harmless, sound, rfl, document, expanded, reports, tokens, others, parsed,
    done, splits, passes.1, passes.2, read, same⟩

/-- A text without assignments is expanded to a document that is printed from tokens with one
content, and read as tokens with another. -/
def Misread (source : Text) (written read : List Token.Kind) : Prop :=
  Undirected source ∧ ∃ document expanded reports tokens others,
    Document.parse source .standard .standard 0 = .ok document ∧
    (expand defaults document Scope.empty noTable).outcome = .ok (expanded, reports) ∧
    lex expanded.sourceText .standard 0 = .ok (tokens, others) ∧
    Token.content (printed expanded) = written ∧ Token.content tokens = read ∧ written ≠ read

theorem misread_of_checked {source : Text} {written read : List Token.Kind} (count : Nat)
    (undirected : Undirected source) (apart : written ≠ read)
    (checked : ((Document.parse source .standard .standard 0).toOption.bind fun document =>
      ((mainRun defaults document Scope.empty noTable count).map
        (·.result .standard document)).filter fun expanded =>
          decide (Token.content (printed expanded) = written) &&
            decide ((lex expanded.sourceText .standard 0).toOption.map
              (fun result => Token.content result.1) = some read)).isSome = true) :
    Misread source written read := by
  obtain ⟨document, expanded, reports, parsed, done, passes⟩ := exists_expansion _ _ _ checked
  simp only [Bool.and_eq_true, decide_eq_true_eq] at passes
  obtain ⟨⟨tokens, others⟩, found, content⟩ := Option.map_eq_some_iff.mp passes.2
  cases outcome : lex expanded.sourceText .standard 0 with
  | error failure =>
    rw [outcome] at found
    cases found
  | ok result =>
    rw [outcome] at found
    cases found
    exact ⟨undirected, document, expanded, reports, tokens, others, parsed, done, outcome,
      passes.1, content, apart⟩

/-- A text with a macro whose last word runs into the letter behind its use. -/
def fusedWords : Text := "\\def\\a\x7b\\b\x7d\\a c"

/-- A text with a doubled math shift that is split between two formulas. -/
def splitFormulas : Text := "$a$$b$"

/-- Two tokens that are printed next to each other can be read as one. -/
theorem sourceText_misread :
    Misread fusedWords [.controlWord "b", .character (.char 'c') .letter] [.controlWord "bc"] ∧
      Misread splitFormulas
        [.mathShift false, .character (.char 'a') .letter, .mathShift false, .mathShift false,
          .character (.char 'b') .letter, .mathShift false]
        [.mathShift false, .character (.char 'a') .letter, .mathShift true,
          .character (.char 'b') .letter, .mathShift false] :=
  ⟨misread_of_checked 20 (by unfold Undirected; decide +kernel) (by decide) (by decide +kernel),
    misread_of_checked 20 (by unfold Undirected; decide +kernel) (by decide) (by decide +kernel)⟩

end Expansion

end TexSource
