import TexSource.Proofs.Layout.Rows

/-!
# Pages

A page is written row by row: a line that is not left out is written as its row, with a blank row
before it if one is called for (`Layout.Page.parts`), and with a line end behind it. So the tokens
of a document are printed as tokens with other blanks, whose text is the layout of the document and
is cut into them again (`Layout.Page.exists_repeats`).
-/

namespace TexSource

namespace Layout

open Lexer TexSource.Parser

variable {options : Options} {page : Page}

namespace Page

variable {line : Line}

/-- Whether a blank row is written before a line. -/
def parts (page : Page) (line : Line) : Bool :=
  if line.isCode then page.written ≠ [] && (page.pendingBlank || line.key ≠ page.lastKey)
  else page.pendingBlank

/-- The key of the last code line, with a line written. -/
def keyBehind (page : Page) (line : Line) : Option Text :=
  if line.isRaw then none else if line.isCommentOnly then page.lastKey else line.key

theorem add_skipped (skipped : line.isSkipped = true) :
    page.add options line = { page with pendingBlank := page.written ≠ [] } := by
  obtain ⟨plain, none⟩ := Bool.and_eq_true_iff.mp skipped
  rw [Bool.not_eq_true'] at plain
  rw [Option.isNone_iff_eq_none] at none
  simp [add, plain, none]

theorem add_written (kept : line.isSkipped = false) :
    page.add options line =
      page.write (page.parts line) (line.output options) (page.keyBehind line) := by
  unfold add parts keyBehind Line.output Line.isCode Line.key
  unfold Line.isSkipped at kept
  cases raw : line.isRaw with
  | true => simp
  | false =>
    cases found : line.first? with
    | none => simp [raw, found] at kept
    | some first => cases commentOnly : line.isCommentOnly <;> simp

end Page

/-- The line end of a line is one, and only the last line may lack it. -/
structure Line.Closes (line : Line) (lines : List Line) : Prop where
  lineEnd : ∀ item ∈ line.lineEnd, item.token.isEndOfLine = true
  last : line.lineEnd = none → lines = []

/-- What the tokens of lines are printed as, behind what is written on a page: rows with line ends
behind them, and blank rows between them. -/
inductive Page.Prints (options : Options) : Page → List Line → List Token → Prop where
  | done (page : Page) : Prints options page [] []
  | skipped {page : Page} {line : Line} {lines : List Line} {printed : List Token}
      (skipped : line.isSkipped = true) (closes : line.Closes lines)
      (later : Prints options (page.add options line) lines printed) :
      Prints options page (line :: lines) printed
  | written {page : Page} {line : Line} {lines : List Line} {tokens row printed : List Token}
      (kept : line.isSkipped = false) (reprints : Reprints tokens (line.items.map Item.token))
      (rowed : line.Printed options tokens row)
      (text : Token.rawText row = line.output options)
      (inside : ∀ token ∈ tokens, token.isEndOfLine = false) (closes : line.Closes lines)
      (later : Prints options (page.add options line) lines printed) :
      Prints options page (line :: lines)
        ((if page.parts line then [Token.feed] else []) ++ row ++ Token.feed :: printed)

/-- The tokens of lines are printed as tokens with other blanks. Their text is what is written for
the lines, and it is cut into them again. -/
structure Page.Repeats (options : Options) (page : Page) (lines : List Line) (tokens : List Token)
    (table last : Catcode.Table) (printed : List Token) : Prop where
  prints : page.Prints options lines printed
  cuts : Cuts table printed none last
  text : (lines.foldl (Page.add options) page).text = page.text ++ Token.rawText printed
  respaced : ∀ {gaps}, Fresh gaps → ∃ ends, Respaced gaps tokens printed ends

theorem isGap_feed : Token.feed.IsGap where
  blank := rfl
  written := List.cons_ne_nil _ _
  white glyph member := by
    rw [List.mem_singleton.mp member]
    decide

/-- A line end that is written is a token of its own, whatever is behind it. -/
theorem cuts_feed {table last : Catcode.Table} (plain : Plain table) {tokens : List Token}
    {next : Option Glyph} (cuts : Cuts table tokens next last) :
    Cuts table (Token.feed :: tokens) next last := by
  refine .cons ⟨.lineEnd (List.cons_ne_nil _ _) fun glyph member => ?_, fun _ => .inr ⟨_, rfl⟩⟩
    (fun glyph _ => ⟨trivial, nofun, nofun, fun _ lone => ?_⟩) cuts
  · rw [List.mem_singleton.mp member, plain.lineEnd_iff]
    rfl
  · simp [Token.feed, Token.written] at lone

section

variable (white : ∀ glyph ∈ options.indent, Catcode.initial glyph = .space)
  {table middle last : Catcode.Table} (plain : Plain table) {line : Line} {lines : List Line}
  {tokens closing rest printed : List Token} {next : Option Glyph}

include white plain

/-- **One line.** -/
theorem Page.Repeats.cons (cuts : Cuts table tokens next middle)
    (inside : ∀ token ∈ tokens, token.isEndOfLine = false)
    (reprints : Reprints tokens (line.items.map Item.token))
    (closes : (∃ lineEnd, closing = [lineEnd] ∧ lineEnd.isEndOfLine = true ∧ lineEnd.IsGap) ∨
      closing = [] ∧ lines = [] ∧ rest = [])
    (closed : line.Closes lines)
    (repeats : (page.add options line).Repeats options lines rest middle last printed) :
    ∃ printed, page.Repeats options (line :: lines) (tokens ++ (closing ++ rest)) table last
      printed := by
  have sorted := cuts.sorted plain
  cases skipped : line.isSkipped with
  | true =>
    have spaces : ∀ token ∈ tokens, token.isSpace = true := by
      obtain ⟨-, nothing⟩ := Bool.and_eq_true_iff.mp skipped
      rw [Option.isNone_iff_eq_none, Line.first?_eq_none_iff, reprints.all_isSpace] at nothing
      exact List.all_eq_true.mp nothing
    obtain rfl := cuts.eq_of_spaces spaces
    refine ⟨printed, .skipped skipped closed repeats.prints, repeats.cuts, ?_, fun fresh => ?_⟩
    · rw [List.foldl_cons, repeats.text, Page.add_skipped skipped]
      rfl
    · rw [← List.append_assoc]
      refine Respaced.lefts_append (tokens ++ closing) (List.forall_mem_append.mpr
        ⟨fun token member => ?_, ?_⟩) fresh repeats.respaced
      · exact .of_isBlank (sorted token member)
          (Token.isBlank_iff.mpr (.inl (spaces token member)))
      · rcases closes with ⟨lineEnd, rfl, -, gap⟩ | ⟨rfl, -, -⟩
        · exact List.forall_mem_singleton.mpr gap
        · exact List.forall_mem_nil _
  | false =>
    obtain ⟨row, rowed, text⟩ := Line.exists_printed options plain cuts inside reprints skipped
    have feeds : ∀ {tokens}, Cuts middle tokens none last →
        Cuts middle (Token.feed :: tokens) none last := cuts_feed (cuts.plain_last plain)
    have rowCuts : Cuts table row (some (.char '\n')) middle :=
      rowed.cuts white plain cuts inside rfl
    refine ⟨_, .written skipped reprints rowed text inside closed repeats.prints, ?_, ?_,
      fun fresh => ?_⟩
    · have whole : Cuts table (row ++ Token.feed :: printed) none last :=
        Cuts.append rowCuts (feeds repeats.cuts)
      rw [List.append_assoc]
      split
      · exact cuts_feed plain whole
      · exact whole
    · rw [List.foldl_cons, repeats.text, Page.add_written skipped, Page.text_write, ← text]
      split <;> simp [Token.feed, Token.written]
    · rw [List.append_assoc]
      have written : ∀ {gaps}, Fresh gaps →
          ∃ ends, Respaced gaps (tokens ++ (closing ++ rest)) (row ++ Token.feed :: printed)
            ends := by
        intro gaps fresh
        obtain ⟨between, front⟩ := rowed.respaced white fresh sorted
        rcases closes with ⟨lineEnd, rfl, ends, gap⟩ | ⟨rfl, rfl, rfl⟩
        · obtain ⟨ends, back⟩ :=
            repeats.respaced (fresh_past between ends (rfl : Token.feed.isEndOfLine = true))
          exact ⟨ends, front.append (.blanks gap isGap_feed back)⟩
        · have nothing : printed = [] := by
            cases repeats.prints
            rfl
          rw [nothing]
          exact ⟨_, front.append (.right isGap_feed (.nil _))⟩
      split
      · obtain ⟨ends, respaced⟩ := written (fresh.right Token.feed)
        exact ⟨ends, .right isGap_feed respaced⟩
      · exact written fresh

/-- **All lines.** -/
theorem Page.exists_repeats {current items : List Item}
    (ongoing : ∀ item ∈ current, item.token.isEndOfLine = false)
    (cuts : Cuts table tokens none last)
    (reprints : Reprints tokens ((current.reverse ++ items).map Item.token)) :
    ∃ printed, page.Repeats options (linesFrom current items) tokens table last printed := by
  induction items generalizing current page tokens table with
  | nil =>
    rw [linesFrom]
    rw [List.append_nil] at reprints
    split
    · rename_i nothing
      rw [nothing] at reprints
      cases reprints
      cases cuts
      exact ⟨[], .done page, .nil _ _, by simp, fun _ => ⟨_, .nil _⟩⟩
    · have inside : ∀ token ∈ tokens, token.isEndOfLine = false := by
        rw [← reprints.isEndOfLine_iff, List.forall_mem_map]
        simpa using ongoing
      have final : (page.add options ⟨current.reverse, none⟩).Repeats options [] [] last last [] :=
        ⟨.done _, .nil _ _, by simp, fun _ => ⟨_, .nil _⟩⟩
      simpa using Page.Repeats.cons white plain cuts inside reprints
        (.inr ⟨rfl, rfl, rfl⟩)
        ⟨fun _ absent => absurd absent (Option.not_mem_none _), fun _ => rfl⟩ final
  | cons item rest ih =>
    rw [linesFrom]
    split
    · rename_i lineEnd
      rw [List.map_append, List.map_cons] at reprints
      obtain ⟨before, token, after, rfl, same, earlier, later⟩ :=
        reprints.exists_of_middle (by simp [Token.isMathShift, of_decide_eq_true lineEnd])
      have inside : ∀ token ∈ before, token.isEndOfLine = false := by
        rw [← earlier.isEndOfLine_iff, List.forall_mem_map]
        simpa using ongoing
      obtain ⟨middle, front, back⟩ := cuts.split
      cases back with
      | cons sharp _ back =>
        have kind : token.kind = .endOfLine := by
          rw [← kind_of_pieceOf same]
          exact of_decide_eq_true lineEnd
        have plainMiddle := front.plain_last plain
        have gap := sharp.isGap plainMiddle (by simp [Token.isBlank, kind, Token.Kind.isBlank])
        rw [kind] at back
        obtain ⟨printed, repeats⟩ : ∃ printed,
            (page.add options ⟨current.reverse, some item⟩).Repeats options (linesFrom [] rest)
              after (behind middle .endOfLine) last printed :=
          ih plainMiddle (List.forall_mem_nil _) back later
        exact Page.Repeats.cons white plain front inside earlier
          (.inl ⟨token, rfl, decide_eq_true kind, gap⟩)
          ⟨fun _ found => Option.mem_some_iff.mp found ▸ lineEnd,
            fun absent => absurd absent (Option.some_ne_none _)⟩ repeats
    · rename_i code
      refine ih plain (List.forall_mem_cons.mpr ⟨by simpa using code, ongoing⟩) cuts ?_
      simpa using reprints

end

end Layout

end TexSource
