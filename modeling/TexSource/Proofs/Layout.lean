import TexSource.Buffer
import TexSource.Proofs.Expansion.Provenance
import TexSource.Proofs.Lexer.Trimming

/-!
# A layout changes white space only

The lines of a layout hold the tokens of the document (`Layout.nodeItems_tokens`). Each line is
written as a text that is read as its tokens again, up to blanks and up to white space at the
end of a comment (`Layout.Page.Reads.add`), and so is the page, line by line
(`Layout.Page.Reads.addLines`), whatever the source: nothing that is moved or left out parts a
token or joins two. White space itself can change again each time that a text is formatted.
-/

namespace TexSource

namespace Layout

mutual

/-- The items of a node are its tokens. -/
theorem nodeItems_tokens (options : Options) (depth : Nat) (block : Option Text) : (node : Node) →
    (∀ below ∈ node.walk, below.isInclusion = false) →
      (nodeItems options depth block node).map Item.token = node.placed.map Placed.token
  | .leaf _ _, _ => rfl
  | .group _ _ none children closer _, own => by
    have inside := nodesItems_tokens options depth block children fun below member =>
      own below (List.mem_cons_of_mem _ member)
    simp [nodeItems, Node.placed, inside, delimiterItems, Function.comp_def]
  | .group _ _ (some opener) children closer _, own => by
    have inside := nodesItems_tokens options (depth + 1) block children fun below member =>
      own below (List.mem_cons_of_mem _ member)
    simp [nodeItems, Node.placed, inside, delimiterItems, Function.comp_def]
  | .math _ _ opener children closer _, own => by
    have inside := nodesItems_tokens options (depth + 1) block children fun below member =>
      own below (List.mem_cons_of_mem _ member)
    simp [nodeItems, Node.placed, inside, delimiterItems, Function.comp_def]
  | .command invocation, own => by
    rw [nodeItems, Node.placed]
    exact commandItems_tokens options depth block _ invocation own
  | .environment _ name opening body none _ _, own => by
    have head := commandItems_tokens options depth block
      (majorKey? options ("begin" ++ Problem.braced name)) opening fun below member =>
        own below (by simp [Node.walk, member])
    have inside := nodesItems_tokens options (bodyDepth options depth name) block body
      fun below member => own below (by simp [Node.walk, member])
    rw [nodeItems, Node.placed]
    split <;> simp [head, inside, verbatimItems, Function.comp_def]
  | .environment _ name opening body (some ending) _ _, own => by
    have head := commandItems_tokens options depth block
      (majorKey? options ("begin" ++ Problem.braced name)) opening fun below member =>
        own below (by simp [Node.walk, member])
    have inside := nodesItems_tokens options (bodyDepth options depth name) block body
      fun below member => own below (by simp [Node.walk, member])
    have foot := commandItems_tokens options depth block
      (majorKey? options ("end" ++ Problem.braced name)) ending fun below member =>
        own below (by simp [Node.walk, member])
    rw [nodeItems, Node.placed]
    split <;> simp [head, inside, foot, verbatimItems, Function.comp_def]
  | .inclusion _ _ _ _ _ _, own => by
    have := own _ List.mem_cons_self
    cases this

theorem commandItems_tokens (options : Options) (depth : Nat) (block key : Option Text) :
    (invocation : Command) → (∀ below ∈ invocation.walk, below.isInclusion = false) →
      (commandItems options depth block key invocation).map Item.token =
        invocation.placed.map Placed.token
  | ⟨_, _, head, star, arguments, _⟩, own => by
    have inside := argumentsItems_tokens options depth (key.or block) arguments
      fun below member => own below (List.mem_cons_of_mem _ member)
    simp [commandItems, Command.placed, inside, delimiterItems, Function.comp_def]

theorem nodesItems_tokens (options : Options) (depth : Nat) (block : Option Text) :
    (nodes : List Node) → (∀ below ∈ walkAll nodes, below.isInclusion = false) →
      (nodesItems options depth block nodes).map Item.token = (placedAll nodes).map Placed.token
  | [], _ => rfl
  | node :: rest, own => by
    have first := nodeItems_tokens options depth block node fun below member =>
      own below (List.mem_append_left _ member)
    have later := nodesItems_tokens options depth block rest fun below member =>
      own below (List.mem_append_right _ member)
    simp [nodesItems, first, later]

theorem argumentsItems_tokens (options : Options) (depth : Nat) (block : Option Text) :
    (arguments : List Argument) →
      (∀ below ∈ walkArguments arguments, below.isInclusion = false) →
        (argumentsItems options depth block arguments).map Item.token =
          (placedArguments arguments).map Placed.token
  | [], _ => rfl
  | ⟨_, leading, content⟩ :: rest, own => by
    have before := nodesItems_tokens options depth block leading fun below member =>
      own below (by simp [walkArguments, member])
    have inside := nodeItems_tokens options depth block content fun below member =>
      own below (by simp [walkArguments, member])
    have later := argumentsItems_tokens options depth block rest fun below member =>
      own below (by simp [walkArguments, member])
    simp [argumentsItems, placedArguments, before, inside, later]

end

theorem trimEnd_cons (item : Item) (rest : List Item) :
    trimEnd (item :: rest) =
      if rest.all (·.token.isSpace) then if item.token.isSpace then [] else [item]
      else item :: trimEnd rest := by
  unfold trimEnd
  rw [List.reverse_cons, List.dropWhile_append]
  by_cases spaces : rest.all (·.token.isSpace) = true
  · have dropped : rest.reverse.dropWhile (·.token.isSpace) = [] := by
      rw [List.dropWhile_eq_nil_iff]
      simpa using spaces
    rw [dropped, if_pos spaces]
    by_cases space : item.token.isSpace = true <;> simp [space]
  · have kept : rest.reverse.dropWhile (·.token.isSpace) ≠ [] := by
      rw [ne_eq, List.dropWhile_eq_nil_iff]
      simpa using spaces
    rw [if_neg spaces, if_neg (by simpa using kept), List.reverse_append]
    rfl

/-- An item that is no space stays in front. -/
theorem exists_trimEnd {item : Item} (solid : item.token.isSpace = false) (rest : List Item) :
    ∃ later, trimEnd (item :: rest) = item :: later := by
  rw [trimEnd_cons, solid]
  split
  · exact ⟨[], rfl⟩
  · exact ⟨_, rfl⟩

theorem textOf_cons (item : Item) {rest : List Item} (more : rest ≠ []) :
    textOf (item :: rest) = item.token.raw ++ textOf rest := by
  obtain ⟨next, later, rfl⟩ := List.exists_cons_of_ne_nil more
  unfold textOf
  rw [List.getLast?_cons_cons]
  cases found : (next :: later).getLast? with
  | none => simp at found
  | some last => simp

/-- The text of a code line is that of its tokens without the blanks at the end. -/
theorem textOf_trimEnd (items : List Item) :
    textOf (trimEnd items) = Token.rawText (Token.trimEnd (items.map Item.token)) := by
  induction items with
  | nil => rfl
  | cons item rest ih =>
    have same : (rest.map Item.token).all Token.isSpace = rest.all (·.token.isSpace) :=
      List.all_map
    rw [trimEnd_cons, List.map_cons, Token.trimEnd, same]
    split
    · split
      · rfl
      · simp [textOf]
    · rename_i code
      have kept : trimEnd rest ≠ [] := by
        change rest.rdropWhile (·.token.isSpace) ≠ []
        rw [ne_eq, List.rdropWhile_eq_nil_iff]
        simpa using code
      rw [textOf_cons item kept, ih, Token.rawText_cons]

/-- Items that end without blanks are written as they are. -/
theorem textOf_of_endsInBlanks {items : List Item} (code : endsInBlanks items = false) :
    textOf (trimEnd items) = Token.rawText (items.map Item.token) := by
  rcases List.eq_nil_or_concat items with rfl | ⟨before, last, rfl⟩
  · rfl
  · rw [List.concat_eq_append] at code ⊢
    simp only [endsInBlanks, List.getLast?_append, List.getLast?_singleton, Option.some_or,
      Bool.or_eq_false_iff, decide_eq_false_iff_not, ne_eq, not_not] at code
    have kept : trimEnd (before ++ [last]) = before ++ [last] :=
      List.rdropWhile_concat_neg _ _ _ (by simp [code.1])
    rw [kept]
    simp [textOf, ← code.2, Token.rawText, List.flatMap_map]

/-- What is trimmed from items are spaces. -/
theorem exists_spaces (items : List Item) :
    ∃ spaces, items = trimEnd items ++ spaces ∧ ∀ item ∈ spaces, item.token.isSpace = true := by
  refine ⟨(items.reverse.takeWhile (·.token.isSpace)).reverse, ?_, fun item member => ?_⟩
  · rw [trimEnd, ← List.reverse_append, List.takeWhile_append_dropWhile, List.reverse_reverse]
  · have taken := List.mem_takeWhile_imp (List.mem_reverse.mp member)
    exact taken

namespace Line

variable {line : Line}

theorem first?_eq_none_iff :
    line.first? = none ↔ (line.items.map Item.token).all Token.isSpace = true := by
  simp [first?]

/-- Past the spaces at its front, a line starts with its first item. -/
theorem exists_dropSpaces {first : Item} (found : line.first? = some first) :
    first.token.isSpace = false ∧
      ∃ rest, line.items.dropWhile (·.token.isSpace) = first :: rest := by
  rw [first?, List.find?_eq_head?_dropWhile_not] at found
  simp only [Bool.not_not] at found
  cases dropped : line.items.dropWhile (·.token.isSpace) with
  | nil => simp [dropped] at found
  | cons item rest =>
    rw [dropped] at found
    cases found
    have head := List.head?_dropWhile_not (·.token.isSpace) line.items
    rw [dropped] at head
    exact ⟨by simpa using head, rest, rfl⟩

end Line

/-- A code line is the text of its items behind a margin, and a comment at its end is set off. -/
theorem codeLine_cases (indent : Text) (line : Line) :
    (∃ before last depth, trimEnd (line.items.dropWhile (·.token.isSpace)) = before ++ [last] ∧
      last.token.isComment = true ∧
        codeLine indent line = margin indent depth ++ textOf (trimEnd before) ++
          commentGap (margin indent depth ++ textOf (trimEnd before)) before last.token ++
            last.token.raw.stripEnd) ∨
      ∃ depth, codeLine indent line =
        margin indent depth ++ textOf (trimEnd (line.items.dropWhile (·.token.isSpace))) := by
  unfold codeLine
  dsimp only
  generalize trimEnd (line.items.dropWhile (·.token.isSpace)) = items
  split
  · rename_i first second rest last found
    have split := List.dropLast_append_getLast? last found
    split
    · rename_i isComment
      exact .inl ⟨_, last, first.depth, split.symm, isComment, rfl⟩
    · exact .inr ⟨first.depth, rfl⟩
  · rename_i first rest _
    exact .inr ⟨first.depth, rfl⟩
  · exact .inr ⟨0, rfl⟩

theorem mem_margin {indent : Text} {depth : Nat} {glyph : Glyph}
    (member : glyph ∈ margin indent depth) : glyph ∈ indent := by
  obtain ⟨unit, among, inside⟩ := List.mem_flatten.mp member
  rwa [List.eq_of_mem_replicate among] at inside

section

open Lexer

variable {table last : Catcode.Table} (plain : Plain table) {indent : Text}
  (white : ∀ glyph ∈ indent, IsWhite glyph) {next : Option Glyph} {kinds : List Token.Kind}

include white in
theorem white_margin (depth : Nat) : ∀ glyph ∈ margin indent depth, IsWhite glyph :=
  fun glyph member => white glyph (mem_margin member)

include plain in
/-- Between code and a comment, a gap does not matter. -/
theorem significant_commented (before : List Item) (code : Text) {comment : Token}
    (isComment : comment.isComment = true)
    (legible : Legible table (before.map Item.token ++ [comment]) next kinds last) {rest : Text}
    (ahead : ∀ glyph ∈ rest.head?, Catcode.initial glyph = .endOfLine) :
    significant table (textOf (trimEnd before) ++
        (commentGap code before comment ++ (comment.raw.stripEnd ++ rest))) =
      kinds.map Token.Kind.trimmed ++ significant last rest := by
  obtain ⟨glyph, content, others, raw, opens, rfl, earlier, spelled⟩ :=
    legible.splitComment plain isComment
  have plainLast := earlier.plain_last plain
  have stripped : comment.raw.stripEnd = glyph :: content.stripEnd := by
    rw [raw]
    exact Text.stripEnd_append_cons [] (isBlank_of_comment opens) content
  have read := significant_comment plainLast spelled ahead
  rw [stripped, List.map_append, List.append_assoc]
  unfold commentGap
  split
  · have trimmed : Legible table (Token.trimEnd (before.map Item.token)) (some (.char ' ')) others
        last := earlier.trimEnd plain fun other member => by
      cases member
      exact .inr ⟨rfl, glyph, rfl, by rw [opens]; decide⟩
    have spaces : ∀ count, ∀ glyph ∈ List.replicate count (Glyph.char ' '), IsWhite glyph :=
      fun count glyph member => by
        rw [List.eq_of_mem_replicate member]
        exact .inl rfl
    obtain ⟨count, wide⟩ :
        ∃ count, max (comment.span.start.column - 1 - code.length) 1 = count + 1 :=
      ⟨_, (Nat.succ_pred_eq_of_pos (by omega)).symm⟩
    rw [textOf_trimEnd, trimmed.significant plain (by rw [wide]; rfl),
      significant_blanks plainLast (spaces _), read]
    rfl
  · rename_i code
    rw [textOf_of_endsInBlanks (by simpa using code), List.nil_append,
      earlier.significant plain rfl, read]
    rfl

include plain white in
/-- **Code lines.** A code line means what its items mean. -/
theorem significant_codeLine {line : Line}
    (legible : Legible table (line.items.map Item.token) next kinds last) {rest : Text}
    (ahead : ∃ glyph ∈ rest.head?, Catcode.initial glyph = .endOfLine) :
    significant table (codeLine indent line ++ rest) =
      kinds.map Token.Kind.trimmed ++ significant last rest := by
  obtain ⟨glyph, first, ends⟩ := ahead
  have dropped := legible.dropSpaces
  rw [List.dropWhile_map] at dropped
  obtain ⟨before, comment, depth, split, isComment, written⟩ | ⟨depth, written⟩ :=
    codeLine_cases indent line
  · obtain ⟨spaces, whole, blank⟩ := exists_spaces (line.items.dropWhile (·.token.isSpace))
    rw [Function.comp_def, whole, split, List.map_append, List.map_append] at dropped
    have code := dropped.withoutSpaces fun token member => by
      obtain ⟨item, among, rfl⟩ := List.mem_map.mp member
      exact blank item among
    rw [written, List.append_assoc, List.append_assoc, List.append_assoc,
      significant_blanks plain (white_margin white depth)]
    refine significant_commented plain before _ isComment code fun other found => ?_
    rw [Option.mem_unique found first]
    exact ends
  · have trimmed : Legible table
        (Token.trimEnd ((line.items.dropWhile (·.token.isSpace)).map Item.token)) (some glyph)
          kinds last := dropped.trimEnd plain fun other member => by
      cases member
      exact .inl ends
    rw [written, List.append_assoc, significant_blanks plain (white_margin white depth),
      textOf_trimEnd, trimmed.significant plain first]

/-- The text of a line is that of its tokens. -/
theorem Line.rawText_eq (line : Line) :
    line.rawText = Token.rawText (line.items.map Item.token) := by
  rw [Token.rawText, List.flatMap_map, Line.rawText]

include plain in
/-- **Comment lines.** A line with nothing but a comment means the same without white space at
its end. -/
theorem significant_commentLine {line : Line} (commentOnly : line.isCommentOnly = true)
    (legible : Legible table (line.items.map Item.token) next kinds last) {rest : Text}
    (ahead : ∀ glyph ∈ rest.head?, Catcode.initial glyph = .endOfLine) :
    significant table (line.rawText.stripEnd ++ rest) =
      kinds.map Token.Kind.trimmed ++ significant last rest := by
  unfold Line.isCommentOnly at commentOnly
  split at commentOnly
  · rename_i comment found
    have whole := List.takeWhile_append_dropWhile (p := fun item : Item => item.token.isSpace)
      (l := line.items)
    rw [found] at whole
    generalize line.items.takeWhile (fun item => item.token.isSpace) = spaces at whole
    rw [← whole, List.map_append] at legible
    obtain ⟨glyph, content, others, raw, opens, rfl, earlier, spelled⟩ :=
      legible.splitComment plain commentOnly
    have text : line.rawText.stripEnd =
        Token.rawText (spaces.map Item.token) ++ glyph :: Text.stripEnd content := by
      rw [Line.rawText_eq, ← whole, List.map_append, Token.rawText_append]
      simp only [List.map_cons, List.map_nil, Token.rawText_cons, Token.rawText_nil, raw,
        List.append_nil]
      exact Text.stripEnd_append_cons _ (isBlank_of_comment opens) content
    rw [text, List.append_assoc, earlier.significant plain rfl,
      significant_comment (earlier.plain_last plain) spelled ahead]
    simp
  · cases commentOnly

end

namespace Page

/-- The text of the lines written so far. -/
def text (page : Page) : Text :=
  page.written.reverse.flatMap fun line => line ++ [.char '\n']

theorem text_write (page : Page) (blank : Bool) (line : Text) (key : Option Text) :
    (page.write blank line key).text =
      page.text ++ ((if blank then [.char '\n'] else []) ++ (line ++ [.char '\n'])) := by
  cases blank <;> simp [write, text]

/-- Adding a line writes it raw, without white space at the end of its comment, or as code,
and perhaps a blank line before it. Lines of spaces alone are not written. -/
theorem add_cases (options : Options) (page : Page) (line : Line) :
    ((page.add options line).text = page.text ∧
        ∀ token ∈ line.items.map Item.token, token.isSpace = true) ∨
      ∃ (blank : Bool) (written : Text),
        (page.add options line).text =
          page.text ++ ((if blank then [.char '\n'] else []) ++ (written ++ [.char '\n'])) ∧
        (written = line.rawText ∨
          line.isCommentOnly = true ∧ written = line.rawText.stripEnd ∨
          written = codeLine options.indent line) := by
  unfold add
  split
  · exact .inr ⟨_, _, text_write .., .inl rfl⟩
  · split
    · rename_i blank
      refine .inl ⟨rfl, fun token member => ?_⟩
      obtain ⟨item, among, rfl⟩ := List.mem_map.mp member
      simpa using List.find?_eq_none.mp blank item among
    · split
      · exact .inr ⟨_, _, text_write .., .inr (.inl ⟨‹_›, rfl⟩)⟩
      · exact .inr ⟨_, _, text_write .., .inr (.inr rfl)⟩

/-- A page is read from a first table to a last one as the given kinds. -/
def Reads (first : Catcode.Table) (kinds : List Token.Kind) (last : Catcode.Table) (page : Page) :
    Prop :=
  ∀ rest, Lexer.significant first (page.text ++ rest) = kinds ++ Lexer.significant last rest

section

open Lexer

variable {options : Options} (white : ∀ glyph ∈ options.indent, IsWhite glyph)
  {first table last : Catcode.Table} (plain : Plain table) {read kinds : List Token.Kind}
  {page : Page}

include white plain

/-- **One line.** With a line added, a page is read as before and then as the line. -/
theorem Reads.add (reads : page.Reads first read table) {line : Line} {next : Option Glyph}
    (legible : Legible table (line.items.map Item.token) next kinds last) :
    (page.add options line).Reads first (read ++ kinds.map Token.Kind.trimmed) last := by
  intro rest
  have ends : Catcode.initial (.char '\n') = .endOfLine := rfl
  obtain ⟨same, spaces⟩ | ⟨blank, written, text, form⟩ := page.add_cases options line
  · obtain ⟨rfl, rfl⟩ := legible.eq_of_spaces spaces
    rw [same, reads]
    simp
  · have lineRead : significant table (written ++ Glyph.char '\n' :: rest) =
        kinds.map Token.Kind.trimmed ++ significant last (Glyph.char '\n' :: rest) := by
      rcases form with rfl | ⟨commentOnly, rfl⟩ | rfl
      · rw [line.rawText_eq]
        exact (legible.ended plain ends).significant plain rfl
      · exact significant_commentLine plain commentOnly legible fun glyph found => by
          cases found
          exact ends
      · exact significant_codeLine plain white legible ⟨_, rfl, ends⟩
    have gap : ∀ glyph ∈ (if blank then [Glyph.char '\n'] else []), IsWhite glyph := by
      intro glyph member
      cases blank with
      | false => cases member
      | true =>
        rw [List.mem_singleton.mp member]
        exact .inr ends
    have behind : significant last (Glyph.char '\n' :: rest) = significant last rest := by
      rw [significant, reads_cons_white (legible.plain_last plain) (.inr ends), significant]
    rw [text, List.append_assoc, reads, List.append_assoc, significant_blanks plain gap,
      List.append_assoc, List.singleton_append, lineRead, behind, List.append_assoc]

/-- **All lines.** With the lines of items added, a page is read as before and then as the
items. -/
theorem Reads.addLines (reads : page.Reads first read table) {current items : List Item}
    (legible : Legible table ((current.reverse ++ items).map Item.token) none kinds last) :
    ((linesFrom current items).foldl (Page.add options) page).Reads first
      (read ++ kinds.map Token.Kind.trimmed) last := by
  induction items generalizing current page read table kinds with
  | nil =>
    rw [List.append_nil] at legible
    rw [linesFrom]
    split
    · rename_i nothing
      rw [nothing] at legible
      cases legible
      rw [List.map_nil, List.append_nil]
      exact reads
    · exact Reads.add white plain reads legible
  | cons item rest ih =>
    rw [linesFrom]
    split
    · rename_i lineEnd
      have kind : item.token.kind = .endOfLine := of_decide_eq_true lineEnd
      rw [List.map_append, List.map_cons] at legible
      obtain ⟨middle, before, after, rfl, earlier, later⟩ := legible.split fun token front => by
        cases front
        simp [Token.isMathShift, kind]
      have added : (page.add options ⟨current.reverse, some item⟩).Reads first
          (read ++ before.map Token.Kind.trimmed) middle := Reads.add white plain reads earlier
      generalize behind : rest.map Item.token = others at later
      cases later with
      | cons _ _ later =>
        rw [kind, ← behind] at later
        rw [kind, List.map_append, ← List.append_assoc]
        exact ih (earlier.plain_last plain) added later
      | halves same _ _ _ _ _ =>
        rw [kind] at same
        cases same
    · exact ih plain reads (by simpa using legible)

end

end Page

open Lexer

/-- All that is lexed from a text but the end of the input is content of its document. -/
theorem contentOf_of_pieces {source : Text} {content : List Token} {last : Token}
    (same : content.map pieceOf = pieces .standard source) (ends : last.isEndOfInput = true) :
    Document.contentOf (content ++ [last]) = content := by
  rw [Document.contentOf, List.takeWhile_append_of_pos]
  · simp [ends]
  · intro token member
    have piece : pieceOf token ∈ pieces .standard source := by
      rw [← same]
      exact List.mem_map_of_mem member
    have inside : token.kind ≠ .endOfInput :=
      ne_endOfInput_of_mem_pieces plain_standard source _ piece
    simpa [Token.isEndOfInput] using inside

/-- A source without assignments by number is parsed, and the document has the tokens that are
read. -/
theorem exists_parse_plain {source : Text}
    (noCatcode : .controlWord "catcode" ∉ reads .standard source) (commands : CommandTable)
    (fileId : FileId) :
    ∃ document content last reports,
      Document.parse source .standard commands fileId = .ok document ∧
      lex source .standard fileId = .ok (content ++ [last], reports) ∧
      last.isEndOfInput = true ∧ content.map pieceOf = pieces .standard source ∧
      Parser.Splits content (document.root.placed.map Placed.token) ∧
      ∀ below ∈ document.walk, below.isInclusion = false := by
  obtain ⟨content, last, reports, read, ends, same⟩ :=
    lex_of_pieces fileId (noCatcode_iff.mpr noCatcode)
  obtain ⟨splits, _, own⟩ := Document.splits_placed (content ++ [last]) source fileId commands
  obtain ⟨document, parsed, root⟩ : ∃ document,
      Document.parse source .standard commands fileId = .ok document ∧
        document.root = (Document.ofTokens (content ++ [last]) source fileId commands).root := by
    rw [Document.parse, read]
    exact ⟨_, rfl, rfl⟩
  rw [contentOf_of_pieces same ends, ← root] at splits
  rw [Document.walk, ← root] at own
  exact ⟨document, content, last, reports, parsed, read, ends, same, splits, own⟩

/-- The document of a text is laid out as a text that means the same up to white space. -/
theorem significant_format_of_pieces {source : Text} {tokens : List Token} {document : Document}
    {options : Options} (white : ∀ glyph ∈ options.indent, IsWhite glyph)
    (same : tokens.map pieceOf = pieces .standard source)
    (splits : Parser.Splits tokens (document.root.placed.map Placed.token))
    (own : ∀ below ∈ document.walk, below.isInclusion = false) :
    Lexer.significant .standard (document.format options) = Lexer.significant .standard source := by
  obtain ⟨last, legible⟩ := legible_of_pieces plain_standard same
  have placed := legible.splits splits
  rw [← nodeItems_tokens options 0 none document.root own] at placed
  have blank : Page.Reads .standard [] .standard ⟨[], false, none⟩ := fun rest => rfl
  have page : Page.Reads .standard _ last
      ((lines options document).foldl (Page.add options) ⟨[], false, none⟩) :=
    Page.Reads.addLines white plain_standard blank placed
  have read := page []
  rw [List.append_nil, List.nil_append] at read
  calc Lexer.significant .standard (document.format options)
      _ = _ := read
      _ = Lexer.significant .standard source := by
        rw [Lexer.significant, Lexer.significant, reads_nil, reads, kinds_of_pieces same,
          List.map_nil, List.append_nil]

/-- A source without assignments by number is parsed, and its document is laid out as a text
that means the same up to white space. -/
theorem exists_format {source : Text} (noCatcode : .controlWord "catcode" ∉ reads .standard source)
    {options : Options} (white : ∀ glyph ∈ options.indent, IsWhite glyph)
    (commands : CommandTable) (fileId : FileId) :
    ∃ document tokens reports, Document.parse source .standard commands fileId = .ok document ∧
      lex source .standard fileId = .ok (tokens, reports) ∧
      Token.content tokens = reads .standard source ∧
      Lexer.significant .standard (document.format options) =
        Lexer.significant .standard source := by
  obtain ⟨document, content, last, reports, parsed, read, ends, same, splits, own⟩ :=
    exists_parse_plain noCatcode commands fileId
  exact ⟨document, _, _, parsed, read, content_of_pieces plain_standard same ends,
    significant_format_of_pieces white same splits own⟩

theorem isWhite_of_indent {options : Options}
    (white : ∀ glyph ∈ options.indent, glyph = .char ' ' ∨ glyph = .char '\t') :
    ∀ glyph ∈ options.indent, IsWhite glyph := by
  intro glyph member
  rcases white glyph member with rfl | rfl
  · exact .inl rfl
  · exact .inl rfl

/-- **A layout changes white space only.** Where a source assigns no category codes by number,
its document is laid out as a text with the same tokens, up to blanks and to white space at the
ends of comments. -/
theorem significant_format (source : Text) (commands : CommandTable) (options : Options)
    (white : ∀ glyph ∈ options.indent, glyph = .char ' ' ∨ glyph = .char '\t')
    (fileId other : FileId)
    (noCatcode : ∀ token ∈ (scan source .standard fileId).tokens.toList,
      token.isControlWord "catcode" = false) :
    ∃ document tokens reports others otherReports,
      Document.parse source .standard commands fileId = .ok document ∧
      lex source .standard fileId = .ok (tokens, reports) ∧
      lex (document.format options) .standard other = .ok (others, otherReports) ∧
      Token.significant others = Token.significant tokens := by
  have noWord : .controlWord "catcode" ∉ reads .standard source :=
    noCatcode_iff.mp <| noCatcode_of_scan fun token member =>
      (isCatcode_kind token).trans (noCatcode token member)
  obtain ⟨document, tokens, reports, parsed, read, means, same⟩ :=
    exists_format noWord (isWhite_of_indent white) commands fileId
  obtain ⟨others, otherReports, reread, written⟩ := lex_of_reads plain_standard
    (by rwa [← mem_significant_word, same, mem_significant_word]) other
  refine ⟨document, tokens, reports, others, otherReports, parsed, read, reread, ?_⟩
  rw [Token.significant, written, Token.significant, means]
  exact same

/-- A text with blanks in many places, and with a doubled math shift that ends one formula and
starts another. -/
def untidy : Text := "\\textbf  \x7bA\x7d   % note \t\n\n\n$b$$c %\n \\d  $ "

theorem significant_format_untidy :
    (∀ glyph ∈ Options.standard.indent, glyph = .char ' ' ∨ glyph = .char '\t') ∧
      (∀ token ∈ (scan untidy .standard 0).tokens.toList,
        token.isControlWord "catcode" = false) ∧
      (Document.parse untidy .standard .standard 0).toOption.map (Document.format .standard) =
        some (.ofString "\\textbf  \x7bA\x7d   % note\n\n$b$$c %\n  \\d  $\n") ∧
      ∃ document tokens reports others otherReports,
        Document.parse untidy .standard .standard 0 = .ok document ∧
        lex untidy .standard 0 = .ok (tokens, reports) ∧
        lex (document.format .standard) .standard 0 = .ok (others, otherReports) ∧
        Token.significant others = Token.significant tokens :=
  ⟨by decide, by decide +kernel, by decide +kernel,
    significant_format untidy .standard .standard (by decide) 0 0 (by decide +kernel)⟩

/-- A text that is formatted a number of times, with the initial tables. -/
def reformat (options : Options) : (passes : Nat) → Text → Except NumberError Text
  | 0, source => .ok source
  | passes + 1, source => do
    let document ← Document.parse source .standard .standard 0
    reformat options passes (document.format options)

/-- However often a text is formatted, it means the same up to white space. -/
theorem significant_reformat {options : Options}
    (white : ∀ glyph ∈ options.indent, glyph = .char ' ' ∨ glyph = .char '\t') (passes : Nat)
    {source : Text} (noCatcode : .controlWord "catcode" ∉ reads .standard source) :
    ∃ text, reformat options passes source = .ok text ∧
      Lexer.significant .standard text = Lexer.significant .standard source := by
  induction passes generalizing source with
  | zero => exact ⟨source, rfl, rfl⟩
  | succ passes ih =>
    obtain ⟨document, _, _, parsed, _, _, same⟩ :=
      exists_format noCatcode (isWhite_of_indent white) .standard 0
    obtain ⟨text, done, again⟩ :=
      ih (by rwa [← mem_significant_word, same, mem_significant_word])
    refine ⟨text, ?_, again.trans same⟩
    rw [reformat, parsed]
    exact done

/-- A major command with a verbatim environment in its argument. -/
def growing : Text := "\\part\x7b\\begin\x7bverbatim\x7d\nx\n\\end\x7bverbatim\x7d\x7d"

/-- White space can change again. The line behind the verbatim text belongs to the major command
and the text does not, so a blank line is written between them: into the environment, where the
next pass keeps it and writes another one. -/
theorem reformat_growing :
    (reformat .standard 1 growing).toOption = some (.ofString
        "\\part\x7b\\begin\x7bverbatim\x7d\nx\n\n  \\end\x7bverbatim\x7d\x7d\n") ∧
      (reformat .standard 2 growing).toOption = some (.ofString
        "\\part\x7b\\begin\x7bverbatim\x7d\nx\n\n\n  \\end\x7bverbatim\x7d\x7d\n") ∧
      ((reformat .standard 1 growing).toOption.bind fun text =>
        (Buffer.formatEdits text).toOption.map List.length) = some 1 :=
  ⟨by decide +kernel, by decide +kernel, by decide +kernel⟩

end Layout

end TexSource
