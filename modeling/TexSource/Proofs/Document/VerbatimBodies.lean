import TexSource.Proofs.Document.Displacement
import TexSource.Proofs.Document.Quiet
import TexSource.Proofs.Document.Rereading
import TexSource.Proofs.Expansion.Printed
import TexSource.Proofs.Lexer.Tags

/-!
# Verbatim bodies

When the parser comes to a verbatim environment, its body has been read as TeX. So the environment
takes a text as it is only if the text fits (`Verbatim.Fits`): if it is read up to the `\end` behind
it and not beyond, if no other `\end` of the environment is found in it, and if it leaves the
category codes as they were. Then nothing behind the environment depends on the text
(`Verbatim.Fits.parse_enclose`). A text without control sequences, comments and braces fits
(`Verbatim.exists_fits_of_plain`).
-/

namespace TexSource

namespace Verbatim

def opening : Text := Problem.control "begin" ++ Problem.braced "verbatim"

def closing : Text := Problem.control "end" ++ Problem.braced "verbatim"

/-- A text in a verbatim environment, with text behind it. -/
def enclose (body behind : Text) : Text := opening ++ (body ++ (closing ++ behind))

/-- A text that is read up to the end of the environment, where the parser finds it and glyphs have
their initial category codes. -/
structure Fits (fileId : FileId) (body : Text) (content : List Token) (head : Lexer.Cursor) :
    Prop where
  reads : Lexer.Reads fileId (body ++ closing) (.atStart .standard) content closing head
  unended : Parser.verbatimLength "verbatim" (content ++ Lexer.tagTokens "end" "verbatim") =
    content.length
  pending : head.settle.pending = []
  restores : Catcode.Table.IsInitial head.settle.table

theorem fenced_closing (more : Text) : Lexer.Fenced closing more :=
  .inr ⟨by decide, Problem.control "end" ++ .char '\x7b' :: "verbatim", .char '\x7d',
    by decide, by decide⟩

variable {fileId : FileId} {body : Text} {content : List Token} {head : Lexer.Cursor}

/-- **Reading an environment.** Its body is read as by itself, and behind it reading goes on as at
the start of a text. -/
theorem Fits.exists_reads (fits : Fits fileId body content head) (behind : Text) :
    ∃ front inside back last, Lexer.Reads fileId (enclose body behind) (.atStart .standard)
        (front ++ inside ++ back) behind last ∧
      front.map Token.unplaced = Lexer.tagTokens "begin" "verbatim" ∧
      inside.map Token.unplaced = content.map Token.unplaced ∧
      back.map Token.unplaced = Lexer.tagTokens "end" "verbatim" ∧
      ∀ assigns, (assigns = true → head.settle.table.depth = 0) →
        (Lexer.Cursor.atStart .standard).Displaced assigns last.index last := by
  have start : (Lexer.Cursor.atStart .standard).Settled .standard := ⟨rfl, rfl⟩
  obtain ⟨front, first, opens, atFirst, begins⟩ := Lexer.exists_reads_tag fileId "begin" "verbatim"
    (by decide) .standard (by decide) (by decide) start.live (body ++ (closing ++ behind))
  have moved : (Lexer.Cursor.atStart .standard).Displaced true first.index first := {
    index := (Nat.zero_add _).symm
    tables := atFirst.table ▸ .refl _
    pending := atFirst.pending
    depth := fun _ => congrArg Layered.depth atFirst.table
    settled := nofun }
  obtain ⟨inside, second, reads, same, reached⟩ :=
    fits.reads.displaced moved (fenced_closing behind) nofun
  have settled := reached.settle
  have initial : Catcode.Table.IsInitial second.settle.table := fun ended glyph =>
    (settled.tables ended glyph).symm.trans (fits.restores ended glyph)
  obtain ⟨back, last, closes, atLast, ends⟩ := Lexer.exists_reads_tag fileId "end" "verbatim"
    (by decide) initial (by decide) (by decide)
    ⟨rfl, by rw [settled.pending, fits.pending]; rfl⟩ behind
  refine ⟨front, inside, back, last, ?_, begins, same, ends, fun assigns shallow => ?_⟩
  · rw [List.append_assoc] at reads
    exact (opens.append reads).append closes
  · exact {
      index := (Nat.zero_add _).symm
      tables := atLast.table ▸ Catcode.Table.IsInitial.standard.alike initial
      pending := atLast.pending
      depth := fun assigned => by
        rw [atLast.table, settled.depth rfl, shallow assigned]
        rfl
      settled := fun _ => rfl }

end Verbatim

namespace Parser

/-- The places of tokens do not matter for whether they are a tag. -/
theorem tag_of_unplaced {word name : Text} (stripped : name.strip = name) {tokens : List Token}
    (same : tokens.map Token.unplaced = Lexer.tagTokens word name) : Tag word name tokens := by
  unfold Lexer.tagTokens at same
  obtain ⟨head, _, rfl, first, same⟩ := List.map_eq_cons_iff.mp same
  obtain ⟨opener, _, rfl, second, same⟩ := List.map_eq_cons_iff.mp same
  obtain ⟨characters, _, rfl, spelled, same⟩ := List.map_eq_append_iff.mp same
  obtain ⟨closer, rfl, third⟩ := List.map_eq_singleton_iff.mp same
  have raw : Token.rawText characters = name := by
    rw [← keepsText_unplaced.rawText, spelled]
    simp [Token.rawText, List.flatMap_map, Lexer.letterToken]
  refine .spelled ?_ (congrArg Token.isBeginGroup second :) ?_ (by rw [raw, stripped])
    (congrArg Token.isEndGroup third :)
  · show head.unplaced.isControlWord word = true
    rw [first]
    simp [Token.isControlWord]
  · intro token member
    have among : token.unplaced ∈ name.map Lexer.letterToken :=
      spelled ▸ List.mem_map_of_mem member
    obtain ⟨glyph, -, letter⟩ := List.mem_map.mp among
    exact ⟨glyph, .letter, (congrArg Token.kind letter :).symm⟩

/-- The state in which a document is begun. -/
def State.atStart (content : List Token) : State :=
  ⟨#[], content, 0, #[], false⟩

/-- The first node of a document is read first, and the others behind it. -/
theorem nodesOf_cons (context : Context) (token : Token) (rest : List Token) :
    let first := node context (some (level context (maxNesting - 1))) ⟨false, false, false⟩
      (.atStart (token :: rest))
    let later := nodesUntil context (some (level context (maxNesting - 1))) .never
      ⟨false, false, false⟩ #[] first.2
    nodesOf context (token :: rest) = (first.1 :: later.1, later.2) := by
  have continues : endsBefore .never ⟨false, false, false⟩ token = false := by
    simp [endsBefore, Closing.isAt]
  intro first later
  have step : nodesOf context (token :: rest) =
      nodesUntil context (some (level context (maxNesting - 1))) .never ⟨false, false, false⟩
        (#[first.1] ++ #[]) first.2 :=
    nodesUntil_of_continues #[] rfl continues
  rw [step, nodesUntil_append]
  rfl

/-- **An environment at the start.** The parser reads on behind it as it reads what stands there. -/
theorem exists_nodesOf {context other : Context} (alike : context.Alike other) {name : Text}
    {front body back behind later : List Token} (opens : Tag "begin" name front)
    (closes : Tag "end" name back) (verbatim : other.commands.isVerbatim name = true)
    (plain : (other.commands.environment name).arguments = [])
    (runs : verbatimLength name (body ++ (back ++ later)) = body.length)
    (same : later.map Token.unplaced = behind.map Token.unplaced) :
    ∃ id opening leaves ending span nodes,
      (nodesOf other (front ++ body ++ back ++ later)).1 =
          .environment id name opening leaves (some ending) true span :: nodes ∧
        Leaves body leaves ∧ unplacedAll nodes = unplacedAll (nodesOf context behind).1 ∧
          (nodesOf context behind).2.Alike ((front ++ body ++ back).map Token.unplaced)
            (nodesOf other (front ++ body ++ back ++ later)).2 := by
  have consumes : Consumes _ _ later _ := consumes_verbatim (maxNesting - 1) ⟨false, false, false⟩
    opens closes verbatim plain runs
  obtain ⟨passed, id, opening, leaves, ending, span, built, spelled⟩ :=
    consumes.run (show (State.atStart (front ++ body ++ back ++ later)).rest = _ from rfl)
  obtain ⟨head, rest, split⟩ : ∃ head rest, front ++ body ++ back ++ later = head :: rest := by
    cases opens
    exact ⟨_, _, rfl⟩
  have reached : (State.atStart behind).Alike ((front ++ body ++ back).map Token.unplaced)
      (node other (some (level other (maxNesting - 1))) ⟨false, false, false⟩
        (.atStart (front ++ body ++ back ++ later))).2 := {
    rest := by
      rw [← List.append_cancel_left passed.rest]
      exact same
    taken := by
      rw [passed.taken]
      exact (List.append_nil _).symm
    diagnostics := congrArg (Array.map Diagnostic.unplaced) passed.diagnostics
    nestingReported := passed.nestingReported }
  have none : unplacedAll (#[] : Array Node).toList = unplacedAll (#[] : Array Node).toList := rfl
  obtain ⟨nodes, states⟩ := (parallel_nodesUntil alike
    (.present (parallel_level alike (maxNesting - 1))) .never ⟨false, false, false⟩
      none).run reached
  rw [split] at built nodes states ⊢
  rw [nodesOf_cons]
  exact ⟨id, opening, leaves, ending, span, _, congrArg (· :: _) built, spelled, nodes, states⟩

end Parser

namespace Parser

/-- The text of leaves is that of their tokens. -/
theorem Leaves.sourceText {tokens : List Token} {leaves : List Node}
    (spelled : Leaves tokens leaves) : sourceTextAll leaves = Token.rawText tokens := by
  induction spelled with
  | nil => rfl
  | cons id placed _ ih => rw [sourceTextAll, Node.sourceText, ih, Token.rawText_cons]

end Parser

namespace Document

/-- A text that is read without a failure has a document, built from what is read. -/
theorem exists_parse_of_reads {fileId : FileId} {source : Text} {table : Catcode.Table}
    {content : List Token} {head : Lexer.Cursor}
    (reads : Lexer.Reads fileId source (.atStart table) content [] head) (commands : CommandTable) :
    let last := Token.endOfInputAt head.position fileId
    let built := Parser.nodesOf ⟨fileId, commands, last⟩ content
    ∃ document, parse source table commands fileId = .ok document ∧
      document.root.children = built.1 ∧ document.tokens = built.2.taken.toList ++ [last] ∧
        document.diagnostics = content.flatMap Lexer.reports ++ built.2.diagnostics.toList := by
  intro last built
  have ends : last.isEndOfInput = true := rfl
  have inside := contentOf_concat reads.isEndOfInput_of_mem ends
  have final := endOf_concat reads.isEndOfInput_of_mem ends fileId
  have whole : Parser.nodesOf ⟨fileId, commands, endOf (content ++ [last]) fileId⟩
      (contentOf (content ++ [last])) = built := by rw [inside, final]
  let document := ofTokens (content ++ [last]) source fileId commands
  refine ⟨{ document with diagnostics := content.flatMap Lexer.reports ++ document.diagnostics },
    by rw [parse, reads.lex_eq]; rfl, congrArg Prod.fst whole, ?_,
    congrArg (fun built => content.flatMap Lexer.reports ++ built.2.diagnostics.toList) whole⟩
  exact congrArg₂ (fun built last => built.2.taken.toList ++ [last]) whole final

theorem exists_lex_of_parse {source : Text} {table : Catcode.Table} {commands : CommandTable}
    {fileId : FileId} {document : Document}
    (parsed : parse source table commands fileId = .ok document) :
    ∃ tokens reports, lex source table fileId = .ok (tokens, reports) := by
  unfold parse at parsed
  cases lexed : lex source table fileId with
  | error failure =>
    rw [lexed] at parsed
    cases parsed
  | ok read => exact ⟨read.1, read.2, rfl⟩

/-- A text has no document if it cannot be read. -/
theorem parse_eq_error_iff {source : Text} {table : Catcode.Table} {commands : CommandTable}
    {fileId : FileId} {failure : NumberError} :
    parse source table commands fileId = .error failure ↔
      (scan source table fileId).failure = some failure := by
  unfold parse lex
  dsimp only
  cases (scan source table fileId).failure with
  | none => exact iff_of_false nofun nofun
  | some found => exact ⟨fun same => by cases same; rfl, fun same => by cases same; rfl⟩

/-- A document that starts with a verbatim environment, of the given body and with the given reports
on it, and goes on as another document. -/
structure Encloses (document : Document) (body : Text) (reports : List Diagnostic)
    (rest : Document) : Prop where
  nodes : ∃ id opening leaves ending span later,
    document.root.children =
        .environment id "verbatim" opening leaves (some ending) true span :: later ∧
      sourceTextAll leaves = body ∧ unplacedAll later = unplacedAll rest.root.children
  tokens : ∃ front later, document.tokens = front ++ later ∧
    Token.rawText front = Verbatim.enclose body [] ∧
      later.map Token.unplaced = rest.tokens.map Token.unplaced
  diagnostics : document.diagnostics.map Diagnostic.unplaced =
    (reports ++ rest.diagnostics).map Diagnostic.unplaced

end Document

namespace Verbatim

variable {fileId : FileId} {body : Text} {content : List Token} {head : Lexer.Cursor}

theorem unplaced_reports {tokens others : List Token}
    (same : others.map Token.unplaced = tokens.map Token.unplaced) :
    (others.flatMap Lexer.reports).map Diagnostic.unplaced =
      (tokens.flatMap Lexer.reports).map Diagnostic.unplaced := by
  have blind : ∀ tokens : List Token, (tokens.flatMap Lexer.reports).map Diagnostic.unplaced =
      ((tokens.map Token.unplaced).flatMap Lexer.reports).map Diagnostic.unplaced := by
    intro tokens
    rw [List.map_flatMap, List.map_flatMap, List.flatMap_map]
    refine List.flatMap_congr fun token _ => ?_
    unfold Lexer.reports
    rw [show token.unplaced.kind = token.kind from rfl]
    split <;> rfl
  rw [blind, same, ← blind]

/-- The text behind is read in its place as by itself, if the same number of groups is open there or
if no category codes are assigned in it. -/
theorem exists_reads_resumed {behind : Text} {last : Lexer.Cursor} {shallow : Prop}
    (moved : ∀ assigns, (assigns = true → shallow) →
      (Lexer.Cursor.atStart .standard).Displaced assigns last.index last)
    (resumes : shallow ∨ Expansion.Undirected behind) {tokens : List Token}
    {reports : List Diagnostic} (lexed : lex behind .standard fileId = .ok (tokens, reports)) :
    ∃ content final others otherFinal,
      Lexer.Reads fileId behind (.atStart .standard) content [] final ∧
        Lexer.Reads fileId behind last others [] otherFinal ∧
          others.map Token.unplaced = content.map Token.unplaced := by
  obtain ⟨content, final, reads, split⟩ := Lexer.exists_reads_of_lex lexed
  obtain ⟨assigns, allowed, quiet⟩ : ∃ assigns, (assigns = true → shallow) ∧
      (assigns = false → ∀ token ∈ content, Lexer.isDirective token.kind = false) := by
    rcases resumes with shallow | undirected
    · exact ⟨true, fun _ => shallow, nofun⟩
    · refine ⟨false, nofun, fun _ token member => ?_⟩
      exact (Expansion.printable_of_lex undirected lexed token (by simp [split, member])
        (reads.isEndOfInput_of_mem token member)).harmless
  obtain ⟨others, otherFinal, again, same, -⟩ :=
    reads.displaced (moved assigns allowed) (.inl rfl) quiet
  rw [List.append_nil, List.append_nil] at again
  exact ⟨content, final, others, otherFinal, reads, again, same⟩

/-- The parser finds the end of a body that fits, wherever the body stands. -/
theorem Fits.verbatimLength_eq (fits : Fits fileId body content head) {inside back : List Token}
    (same : inside.map Token.unplaced = content.map Token.unplaced)
    (ends : back.map Token.unplaced = Lexer.tagTokens "end" "verbatim") (behind : List Token) :
    Parser.verbatimLength "verbatim" (inside ++ (back ++ behind)) = inside.length := by
  have count : inside.length = content.length := by simpa using congrArg List.length same
  have whole : Parser.verbatimLength "verbatim" (inside ++ back) = inside.length := by
    rw [count, ← fits.unended, ← Parser.verbatimLength_map keepsText_unplaced,
      ← Parser.verbatimLength_map keepsText_unplaced "verbatim" (content ++ _), List.map_append,
      List.map_append, same, ends, Lexer.unplaced_tagTokens]
  obtain @⟨head, opener, closer, characters, -, -, -, -, closes⟩ :=
    Parser.tag_of_unplaced (by decide) ends
  have split : ∀ others, inside ++ (head :: opener :: (characters ++ [closer]) ++ others) =
      (inside ++ head :: opener :: characters) ++ closer :: others := by simp
  have alone := split []
  rw [List.append_nil] at alone
  rw [alone] at whole
  rw [split, Parser.verbatimLength_append closes _ (by rw [whole]; simp), whole]

/-- What is read of a body that fits spells it, wherever it stands. -/
theorem Fits.rawText_eq (fits : Fits fileId body content head) {inside : List Token}
    (same : inside.map Token.unplaced = content.map Token.unplaced) :
    Token.rawText inside = body := by
  have text := List.append_cancel_right fits.reads.eq_rawText_append
  rw [text, ← keepsText_unplaced.rawText, same, keepsText_unplaced.rawText]

theorem rawText_eq_enclose {behind : Text} {tokens : List Token} {last : Lexer.Cursor}
    (reads : Lexer.Reads fileId (enclose body behind) (.atStart .standard) tokens behind last) :
    Token.rawText tokens = enclose body [] := by
  have text : enclose body [] ++ behind = Token.rawText tokens ++ behind := by
    rw [← reads.eq_rawText_append]
    simp [enclose]
  exact (List.append_cancel_right text).symm

theorem noReports_of_tag {word name : Text} {tokens : List Token}
    (same : tokens.map Token.unplaced = Lexer.tagTokens word name) :
    (tokens.flatMap Lexer.reports).map Diagnostic.unplaced = [] := by
  have nothing : (Lexer.tagTokens word name).flatMap Lexer.reports = [] := by
    simp [Lexer.tagTokens, Lexer.letterToken, Lexer.reports, List.flatMap_map]
  rw [unplaced_reports (same.trans (Lexer.unplaced_tagTokens word name).symm), nothing]
  rfl

theorem isVerbatim_verbatim : CommandTable.standard.isVerbatim "verbatim" = true := by
  decide

theorem arguments_verbatim : (CommandTable.standard.environment "verbatim").arguments = [] := by
  decide

/-- **What stands in an environment.** If the text behind can be read, the text in the environment
is its body, and behind the environment the document goes on as that of the text behind. -/
theorem Fits.exists_parse (fits : Fits fileId body content head) {behind : Text} {rest : Document}
    (resumes : head.settle.table.depth = 0 ∨ Expansion.Undirected behind)
    (parsed : Document.parse behind .standard .standard fileId = .ok rest) :
    ∃ document, Document.parse (enclose body behind) .standard .standard fileId = .ok document ∧
      document.Encloses body (content.flatMap Lexer.reports) rest := by
  obtain ⟨front, inside, back, last, reads, begins, same, ends, moved⟩ := fits.exists_reads behind
  obtain ⟨found, reports, lexed⟩ := Document.exists_lex_of_parse parsed
  obtain ⟨alone, final, others, otherFinal, readsAlone, again, sameBehind⟩ :=
    exists_reads_resumed moved resumes lexed
  obtain ⟨_, reparsed, restChildren, restTokens, restDiagnostics⟩ :=
    Document.exists_parse_of_reads readsAlone .standard
  cases parsed.symm.trans reparsed
  obtain ⟨document, parsedWhole, children, tokens, diagnostics⟩ :=
    Document.exists_parse_of_reads (reads.append again) .standard
  have alike : Parser.Context.Alike
      ⟨fileId, .standard, Token.endOfInputAt final.position fileId⟩
      ⟨fileId, .standard, Token.endOfInputAt otherFinal.position fileId⟩ := ⟨rfl, rfl⟩
  obtain ⟨id, opening, leaves, ending, span, nodes, built, spelled, later, states⟩ :=
    Parser.exists_nodesOf alike (Parser.tag_of_unplaced (by decide) begins)
      (Parser.tag_of_unplaced (by decide) ends) isVerbatim_verbatim arguments_verbatim
      (fits.verbatimLength_eq same ends others) sameBehind
  refine ⟨document, parsedWhole, ?_, ?_, ?_⟩
  · exact ⟨id, opening, leaves, ending, span, nodes, children.trans built,
      spelled.sourceText.trans (fits.rawText_eq same), by rw [later, restChildren]⟩
  · obtain ⟨first, second, split, firstSame, secondSame⟩ := List.map_eq_append_iff.mp states.taken
    refine ⟨first, second ++ [_], by rw [tokens, split, List.append_assoc], ?_, ?_⟩
    · rw [← keepsText_unplaced.rawText, firstSame, keepsText_unplaced.rawText,
        rawText_eq_enclose reads]
    · rw [restTokens, List.map_append, List.map_append, secondSame]
      rfl
  · have found := congrArg Array.toList states.diagnostics
    rw [Array.toList_map, Array.toList_map] at found
    rw [diagnostics, restDiagnostics]
    simp only [List.flatMap_append, List.map_append, found, noReports_of_tag begins,
      noReports_of_tag ends, unplaced_reports same, unplaced_reports sameBehind, List.nil_append,
      List.append_nil]
    exact List.append_assoc ..

/-- If the text behind cannot be read, it cannot be read behind an environment. -/
theorem Fits.parse_eq_error (fits : Fits fileId body content head) {behind : Text}
    {failure : NumberError}
    (resumes : head.settle.table.depth = 0 ∨ Expansion.Undirected behind)
    (failed : Document.parse behind .standard .standard fileId = .error failure) :
    Document.parse (enclose body behind) .standard .standard fileId = .error failure := by
  obtain ⟨front, inside, back, last, reads, -, -, -, moved⟩ := fits.exists_reads behind
  rcases resumes with shallow | undirected
  · rw [Document.parse_eq_error_iff] at failed ⊢
    rw [scan, reads.scanFrom_eq,
      Lexer.failure_displaced (moved true fun _ => shallow) fileId behind #[] _ #[] _]
    exact failed
  · obtain ⟨tokens, final, reports, lexed, -⟩ := Lexer.lex_of_pieces fileId undirected.noCatcode
    rw [Document.parse, lexed] at failed
    cases failed

/-- A text in which no category codes are assigned leaves them as they are. -/
theorem fits_of_harmless
    (reads : Lexer.Reads fileId (body ++ closing) (.atStart .standard) content closing head)
    (unended : Parser.verbatimLength "verbatim"
      (content ++ Lexer.tagTokens "end" "verbatim") = content.length)
    (harmless : ∀ token ∈ content, Lexer.isDirective token.kind = false) :
    Fits fileId body content head := by
  have start : (Lexer.Cursor.atStart .standard).Settled .standard := ⟨rfl, rfl⟩
  obtain ⟨table, live, initial⟩ := reads.exists_live start.live .standard harmless
  exact ⟨reads, unended, live.pending, live.table ▸ initial⟩

/-- A text without control sequences, comments and braces fits. -/
theorem exists_fits_of_plain (fileId : FileId) {body : Text}
    (plain : ∀ glyph ∈ body, Lexer.isPlain (Catcode.initial glyph) = true) :
    ∃ content head, Fits fileId body content head ∧ head.settle.table.depth = 0 := by
  have start : (Lexer.Cursor.atStart .standard).Settled .standard := ⟨rfl, rfl⟩
  have escapes : Catcode.Table.classify .standard (.char '\\') = .escape := rfl
  obtain ⟨content, head, reads, live, kept⟩ := Lexer.exists_reads_plain fileId plain escapes
    (by decide) start.live ("end" ++ Problem.braced "verbatim")
  refine ⟨content, head, ⟨reads, ?_, live.pending, live.table ▸ .standard⟩, live.table ▸ rfl⟩
  clear reads
  induction content with
  | nil => decide
  | cons token content ih =>
    rw [List.forall_mem_cons] at kept
    have noEnd : token.isControlWord "end" = false := by
      unfold Token.isControlWord
      split
      · rename_i kind
        rw [kind] at kept
        cases kept.1
      · rfl
    simp [Parser.verbatimLength, Parser.startsWithEnd, noEnd, ih kept.2]

theorem fits_nil (fileId : FileId) : Fits fileId [] [] (.atStart .standard) where
  reads := .done ..
  unended := by decide
  pending := rfl
  restores := .standard

/-- **Verbatim bodies.** A body that fits is the text of its environment, and makes no difference to
what is built from the text behind, nor to whether that can be read. -/
theorem Fits.parse_enclose (fits : Fits fileId body content head) (behind : Text)
    (resumes : head.settle.table.depth = 0 ∨ Expansion.Undirected behind) :
    (∀ failure, Document.parse behind .standard .standard fileId = .error failure →
      Document.parse (enclose [] behind) .standard .standard fileId = .error failure ∧
        Document.parse (enclose body behind) .standard .standard fileId = .error failure) ∧
    ∀ rest, Document.parse behind .standard .standard fileId = .ok rest → ∃ plain document,
      Document.parse (enclose [] behind) .standard .standard fileId = .ok plain ∧
        Document.parse (enclose body behind) .standard .standard fileId = .ok document ∧
          plain.Encloses [] [] rest ∧
            document.Encloses body (content.flatMap Lexer.reports) rest := by
  constructor
  · intro failure failed
    exact ⟨(fits_nil fileId).parse_eq_error (.inl rfl) failed, fits.parse_eq_error resumes failed⟩
  · intro rest parsed
    obtain ⟨plain, parsedPlain, encloses⟩ := (fits_nil fileId).exists_parse (.inl rfl) parsed
    obtain ⟨document, parsedWhole, whole⟩ := fits.exists_parse resumes parsed
    exact ⟨plain, document, parsedPlain, parsedWhole, encloses, whole⟩

theorem exists_parse_unbalanced :
    ∃ content head rest plain document,
      Fits 0 "\\foo\x7b $" content head ∧ Expansion.Undirected "\n" ∧
        Document.parse "\n" .standard .standard 0 = .ok rest ∧
          Document.parse (enclose [] "\n") .standard .standard 0 = .ok plain ∧
            Document.parse (enclose "\\foo\x7b $" "\n") .standard .standard 0 = .ok document ∧
              plain.Encloses [] [] rest ∧
                document.Encloses "\\foo\x7b $" (content.flatMap Lexer.reports) rest := by
  obtain ⟨content, head, fits⟩ : ∃ content head, Fits 0 "\\foo\x7b $" content head :=
    ⟨_, _, fits_of_harmless (.next rfl (.next rfl (.next rfl (.next rfl (.done ..)))))
      (by decide +kernel) (by decide +kernel)⟩
  have undirected : Expansion.Undirected "\n" := by
    unfold Expansion.Undirected
    decide +kernel
  cases parsed : Document.parse "\n" .standard .standard 0 with
  | error failure =>
    rw [Document.parse_eq_error_iff, show (scan "\n" .standard 0).failure = none by decide +kernel]
      at parsed
    cases parsed
  | ok rest =>
    obtain ⟨plain, document, parsedPlain, parsedWhole, encloses⟩ :=
      (fits.parse_enclose "\n" (.inr undirected)).2 rest parsed
    exact ⟨content, head, rest, plain, document, fits, undirected, rfl, parsedPlain, parsedWhole,
      encloses⟩

/-- A comment in a body hides the end of the environment. -/
theorem messages_enclose_comment :
    ¬closing <:+: ("50%" : Text) ∧
      (Document.parse (enclose [] "\n") .standard .standard 0).map
        (·.diagnostics.map Diagnostic.message) = .ok [] ∧
      (Document.parse (enclose "50%" "\n") .standard .standard 0).map
        (·.diagnostics.map Diagnostic.message) =
          .ok [(Problem.environmentNeverClosed "verbatim").message] := by
  decide +kernel

end Verbatim

end TexSource
