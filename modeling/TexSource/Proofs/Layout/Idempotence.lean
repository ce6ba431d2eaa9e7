import TexSource.Buffer
import TexSource.Proofs.Layout.PagesAgain
import TexSource.Proofs.Layout.Recurrence

/-!
# Formatting again

A text is formatted once and for all (`Layout.exists_reformat_eq`) if its document is steady
(`Layout.Steady`): its layout is read as the same tokens with other blanks, in which all arguments
are found where they were, so it is laid out as it is (`Layout.exists_format_again`). Otherwise the
blank lines of a layout may end the search for an argument that was found, or may themselves be read
as verbatim text.
-/

namespace TexSource

namespace Parser

/-- The same tokens with other places have the same blanks between them. -/
theorem Respaced.of_pieceOf {gaps ends : Option (Gap × Gap)} {tokens others later : List Token}
    (respaced : Respaced gaps tokens others ends)
    (same : later.map Lexer.pieceOf = others.map Lexer.pieceOf) :
    Respaced gaps tokens later ends := by
  have core : ∀ {token other : Token}, Lexer.pieceOf other = Lexer.pieceOf token →
      other.core = token.core := fun same => by
    rw [Token.core, Token.core, Lexer.kind_of_pieceOf same, Lexer.raw_of_pieceOf same,
      Lexer.controlText_of_pieceOf same]
  induction respaced generalizing later with
  | nil =>
    rw [List.map_eq_nil_iff.mp same]
    exact .nil _
  | @token _ _ token other _ _ fits alike _ ih =>
    obtain ⟨first, rest, rfl, front, behind⟩ := List.map_eq_cons_iff.mp same
    have kind := Lexer.kind_of_pieceOf front
    have raw := Lexer.raw_of_pieceOf front
    have cores := core front
    have moved : token.Same first := by
      refine ⟨alike.first, ⟨?_, ?_, fun closes => ?_⟩, kind ▸ alike.kind, cores.trans alike.core⟩
      · rw [Token.isBlank, kind]
        exact alike.second.solid
      · rw [raw, cores]
        exact alike.second.edged
      · rw [raw]
        refine alike.second.closes ?_
        rw [Token.isEndGroup, ← kind]
        exact closes
    have gap : Gap.behind first = Gap.behind other := by rw [Gap.behind, Gap.behind, raw, cores]
    refine .token fits moved ?_
    rw [gap]
    exact ih behind
  | left gap _ ih => exact .left gap (ih same)
  | @right _ _ blank _ _ gap _ ih =>
    obtain ⟨first, rest, rfl, front, behind⟩ := List.map_eq_cons_iff.mp same
    have kind := Lexer.kind_of_pieceOf front
    have raw := Lexer.raw_of_pieceOf front
    refine .right ⟨?_, raw ▸ gap.written, raw ▸ gap.white⟩ ?_
    · rw [Token.isBlank, kind]
      exact gap.blank
    · have past : ∀ before : Gap, before.past first = before.past blank := fun before => by
        rw [Gap.past, Gap.past, Token.isEndOfLine, Token.isEndOfLine, kind]
      simp only [past]
      exact ih behind

/-- All reports are made, but for some of nesting. -/
theorem Report.mem_made {nestingReported : Bool} {report : Report} {reports : List Report}
    (member : report ∈ reports) (other : report.isNesting = false) :
    report ∈ made nestingReported reports := by
  induction reports generalizing nestingReported with
  | nil => cases member
  | cons first rest ih =>
    rw [made]
    rcases List.mem_cons.mp member with rfl | member
    · rw [if_neg (by simp [other])]
      exact List.mem_cons_self
    · split
      · split
        · exact ih member
        · exact List.mem_cons_of_mem _ (ih member)
      · exact List.mem_cons_of_mem _ (ih member)

end Parser

namespace Lexer

theorem Cuts.neat {table last : Catcode.Table} (plain : Plain table) {tokens : List Token}
    {next : Option Glyph} (cuts : Cuts table tokens next last) : ∀ token ∈ tokens, Neat token := by
  induction cuts with
  | nil => exact List.forall_mem_nil _
  | cons sharp _ _ ih =>
    exact List.forall_mem_cons.mpr ⟨sharp.spelled.neat plain, ih (plain.behind _)⟩

end Lexer

namespace Layout

open Lexer TexSource.Parser

variable {options : Options} {commands : CommandTable} {source : Text} {fileId : FileId}
  {document : Document}

/-- What a source without assignments by number is read as: the content of the source, from which
the nodes below the root are read. -/
structure Reading (options : Options) (commands : CommandTable) (source : Text)
    (document : Document) (content : List Token) (children : List Node) (reports : List Report) :
    Prop where
  cut : content.map pieceOf = pieces .standard source
  tiles : Tiles source [] content source
  reads : Parser.Reads commands 0 ⟨false, false, false⟩ content (.sequence .never children) []
    reports
  items : nodeItems options 0 none document.root = nodesItems options 0 none children
  walk : document.walk = document.root :: walkAll children
  splits : Splits content ((nodeItems options 0 none document.root).map Item.token)
  reported : ∀ report ∈ reports, report.isNesting = false →
    report.diagnostic ∈ document.diagnostics

theorem exists_reading (options : Options)
    (noCatcode : .controlWord "catcode" ∉ reads .standard source)
    (parsed : Document.parse source .standard commands fileId = .ok document) :
    ∃ content children reports, Reading options commands source document content children
      reports := by
  obtain ⟨content, last, lexed, read, ends, same⟩ :=
    lex_of_pieces fileId (noCatcode_iff.mpr noCatcode)
  obtain ⟨_, whole, tiles⟩ := tiles_of_lex read
  obtain ⟨rfl, -⟩ := List.append_inj' whole rfl
  obtain ⟨children, reports, derived⟩ :=
    Document.derived_ofTokens (content ++ [last]) source fileId commands
  obtain ⟨span, root⟩ := derived.root
  have reads := derived.reads
  have splits := derived.kept
  rw [contentOf_of_pieces same ends] at reads splits
  rw [Document.parse, read] at parsed
  cases parsed
  have walk : (Document.ofTokens (content ++ [last]) source fileId commands).root.walk =
      (Document.ofTokens (content ++ [last]) source fileId commands).root :: walkAll children := by
    conv_lhs => rw [root, Node.walk]
    rw [← root]
  have own : ∀ node ∈ (Document.ofTokens (content ++ [last]) source fileId commands).root.walk,
      node.isInclusion = false := by
    rw [walk]
    exact List.forall_mem_cons.mpr ⟨by rw [root]; rfl, reads.own⟩
  refine ⟨content, children, reports, same, tiles, reads, ?_, walk, ?_,
    fun report member other => ?_⟩
  · rw [root]
    simp [nodeItems, delimiterItems]
  · rwa [nodeItems_tokens options 0 none _ own]
  · refine List.mem_append_right _ ?_
    rw [derived.diagnostics]
    exact List.mem_map_of_mem (Report.mem_made member other)

/-- What a document needs to be laid out for good: arguments stand behind spaces alone, none is
missing, and nothing that belongs to a major command stands directly behind verbatim text. -/
structure Steady (options : Options) (document : Document) : Prop where
  spaced : ∀ node ∈ document.walk, node.IsSpaced
  complete : ∀ report ∈ document.diagnostics, report.kind ≠ .macroArityMismatch
  apart : (nodeItems options 0 none document.root).IsChain Item.KeepsApart

instance (options : Options) (document : Document) : Decidable (Steady options document) :=
  decidable_of_iff
    ((∀ node ∈ document.walk, node.IsSpaced) ∧
      (∀ report ∈ document.diagnostics, report.kind ≠ .macroArityMismatch) ∧
      (nodeItems options 0 none document.root).IsChain Item.KeepsApart)
    ⟨fun ⟨spaced, complete, apart⟩ => ⟨spaced, complete, apart⟩,
      fun steady => ⟨steady.spaced, steady.complete, steady.apart⟩⟩

namespace Reading

variable {content later : List Token} {children nodes : List Node} {reports found : List Report}

/-- What is read of a steady document recurs. -/
theorem recurs (reading : Reading options commands source document content children reports)
    (settled : Settled options commands) (steady : Steady options document) :
    Recurs options commands 0 ⟨false, false, false⟩ content (.sequence .never children) [] := by
  refine reading.reads.recurs settled (fun node member => ?_) fun report member kind => ?_
  · exact steady.spaced node (reading.walk ▸ List.mem_cons_of_mem _ member)
  · refine steady.complete _ (reading.reported report member ?_) kind
    cases problem : report.problem <;>
      simp_all [Problem.kind, Report.isNesting, Problem.isNesting]

/-- **Formatting twice.** A document that is read from the layout of a steady one has this
layout. -/
theorem format_eq (reading : Reading options commands source document content children reports)
    (settled : Settled options commands)
    (white : ∀ glyph ∈ options.indent, Catcode.initial glyph = .space)
    (steady : Steady options document) {again : Document}
    (rereading : Reading options commands (document.format options) again later nodes found) :
    again.format options = document.format options := by
  -- the tokens that are printed for the document are those of its layout
  obtain ⟨last, cuts⟩ := Cuts.of_pieces plain_standard reading.cut
  obtain ⟨printed, repeats⟩ : ∃ printed, Page.Repeats options ⟨[], false, none⟩
      (lines options document) content .standard last printed :=
    Page.exists_repeats white plain_standard (List.forall_mem_nil _) cuts
      (.of_splits rfl reading.splits)
  have text : document.format options = Token.rawText printed := repeats.text
  have same : later.map pieceOf = printed.map pieceOf := by
    have cut : pieces .standard (Token.rawText printed ++ []) = _ := repeats.cuts.pieces_eq rfl
    rw [List.append_nil, ← text, ← rereading.cut] at cut
    rw [cut, pieces, List.append_nil]
  -- so they are the tokens of the source with other blanks, and are read alike
  obtain ⟨ends, respaced⟩ := repeats.respaced (.inl (rfl : none = none))
  obtain ⟨-, -, continues⟩ := reading.recurs settled steady none (.sequence _ _ nodes)
    rereading.reads ⟨⟨none, ends, respaced.of_pieceOf same⟩, .inr (.inl rfl)⟩
  obtain ⟨final, alike, -⟩ := continues 0 none none
  have items : (lines options document).flatMap Line.all = nodeItems options 0 none document.root :=
    flatMap_linesFrom [] _
  have rereads : Rereads (document.format options) [] printed
      (nodeItems options 0 none again.root) :=
    ⟨.of_splits same rereading.splits, rereading.tiles.seated rereading.splits, text, .inl rfl,
      repeats.cuts.neat plain_standard⟩
  have written : ((lines options again).foldl (Page.add options) ⟨[], false, none⟩).written = _ :=
    repeats.prints.again none rereads
      (by
        rw [items, reading.items, rereading.items]
        exact alike)
      (by
        rw [items]
        exact steady.apart)
      ⟨rfl, rfl, rfl, by simp, by simp⟩
  unfold Document.format
  simp only
  exact congrArg (fun rows : List Text => rows.reverse.flatMap fun line => line ++ [.char '\n'])
    written

end Reading

/-- The layout of a steady document is laid out as it is. -/
theorem exists_format_again (settled : Settled options commands)
    (white : ∀ glyph ∈ options.indent, Catcode.initial glyph = .space)
    (noCatcode : .controlWord "catcode" ∉ reads .standard source)
    (parsed : Document.parse source .standard commands fileId = .ok document)
    (steady : Steady options document) (other : FileId) :
    ∃ again, Document.parse (document.format options) .standard commands other = .ok again ∧
      again.format options = document.format options := by
  obtain ⟨content, children, reports, reading⟩ := exists_reading options noCatcode parsed
  obtain ⟨_, _, _, reparsed, _, _, means⟩ :=
    exists_format noCatcode (fun glyph member => .inl (white glyph member)) commands fileId
  obtain rfl := Except.ok.inj (parsed.symm.trans reparsed)
  have noWord : .controlWord "catcode" ∉ reads .standard (document.format options) := by
    rwa [← mem_significant_word, means, mem_significant_word]
  obtain ⟨again, _, _, _, parsedAgain, -⟩ := exists_parse_plain noWord commands other
  obtain ⟨later, nodes, found, rereading⟩ := exists_reading options noWord parsedAgain
  exact ⟨again, parsedAgain, reading.format_eq settled white steady rereading⟩

theorem settled_standard : Settled .standard .standard :=
  ⟨by decide +kernel, by decide +kernel, by decide +kernel, by decide +kernel, by decide +kernel⟩

/-- **Formatting is done once.** Where a document is steady, every further pass gives its layout
again, and there is nothing to edit in it. -/
theorem exists_reformat_eq {source : Text}
    (noCatcode : ∀ token ∈ (scan source .standard 0).tokens.toList,
      token.isControlWord "catcode" = false) :
    ∃ document, Document.parse source .standard .standard 0 = .ok document ∧
      (Steady .standard document →
        (∀ passes, reformat .standard (passes + 1) source = .ok (document.format .standard)) ∧
          Buffer.formatEdits (document.format .standard) = .ok []) := by
  have noWord : .controlWord "catcode" ∉ reads .standard source :=
    noCatcode_iff.mp <| noCatcode_of_scan fun token member =>
      (isCatcode_kind token).trans (noCatcode token member)
  obtain ⟨document, _, _, _, parsed, -⟩ := exists_parse_plain noWord .standard 0
  refine ⟨document, parsed, fun steady => ?_⟩
  obtain ⟨again, reparsed, same⟩ :=
    exists_format_again settled_standard (by decide) noWord parsed steady 0
  have later : ∀ passes, reformat .standard passes (document.format .standard) =
      .ok (document.format .standard) := by
    intro passes
    induction passes with
    | zero => rfl
    | succ passes ih =>
      rw [reformat, reparsed]
      exact (congrArg (reformat .standard passes) same).trans ih
  constructor
  · intro passes
    rw [reformat, parsed]
    exact later passes
  · rw [Buffer.formatEdits, reparsed]
    exact if_pos same

/-- A heading, a comment and verbatim text, with blanks in many places. -/
def loose : Text :=
  "\\section \x7bA\x7d  % a \n$b$\n\n\n\\begin\x7bverbatim\x7d\n x \n\\end\x7bverbatim\x7d"

/-- What it is laid out as. -/
def looseLayout : Text :=
  "\\section \x7bA\x7d  % a\n\n$b$\n\n\\begin\x7bverbatim\x7d\n x \n\\end\x7bverbatim\x7d\n"

theorem exists_reformat_eq_loose :
    (∀ token ∈ (scan loose .standard 0).tokens.toList, token.isControlWord "catcode" = false) ∧
      ∃ document, Document.parse loose .standard .standard 0 = .ok document ∧
        Steady .standard document ∧ document.format .standard = looseLayout ∧
        (∀ passes, reformat .standard (passes + 1) loose = .ok (document.format .standard)) ∧
        Buffer.formatEdits (document.format .standard) = .ok [] := by
  have plain : ∀ token ∈ (scan loose .standard 0).tokens.toList,
      token.isControlWord "catcode" = false := by decide +kernel
  have checked : (Document.parse loose .standard .standard 0).toOption.any (fun document =>
      decide (Steady .standard document ∧ document.format .standard = looseLayout)) = true := by
    decide +kernel
  obtain ⟨document, parsed, passes⟩ := Document.exists_parse_of_any checked
  obtain ⟨steady, format⟩ := of_decide_eq_true passes
  obtain ⟨same, reparsed, settles⟩ := exists_reformat_eq plain
  obtain rfl := Except.ok.inj (parsed.symm.trans reparsed)
  exact ⟨plain, document, parsed, steady, format, settles steady⟩

end Layout

end TexSource
