import TexSource.Proofs.Document.Rows
import TexSource.Proofs.Layout.CodeLines

/-!
# Rows

A line is printed as a row of tokens (`Layout.Line.Printed`): as it is if it is raw, and otherwise
behind its margin, without blanks at its end, and with a comment in its column. The text of the row
is what is written for the line (`Layout.Line.exists_printed`), the row has the same tokens with
other blanks (`Layout.Line.Printed.respaced`), and is cut into them again
(`Layout.Line.Printed.cuts`).
-/

namespace TexSource

namespace Lexer.Reprints

/-- A comment stays a comment at the end. -/
theorem exists_comment {before : List Token} {items : List Layout.Item} {comment : Token}
    (isComment : comment.isComment = true)
    (reprints : Reprints (before ++ [comment]) (items.map Layout.Item.token)) :
    ∃ front last, items = front ++ [last] ∧ pieceOf last.token = pieceOf comment ∧
      last.token.isComment = true ∧ Reprints before (front.map Layout.Item.token) := by
  obtain ⟨front, back, split, earlier, later⟩ := reprints.exists_of_append
  obtain ⟨other, nothing, rfl, same, later⟩ := later.exists_of_cons <|
    isMathShift_eq_false rfl fun doubled kind => by simp [Token.isComment, kind] at isComment
  cases later
  obtain ⟨items, lasts, whole, rfl, single⟩ := List.map_eq_append_iff.mp split
  obtain ⟨last, rfl, rfl⟩ := List.map_eq_singleton_iff.mp single
  refine ⟨items, last, whole, same, ?_, earlier⟩
  rw [Token.isComment, kind_of_pieceOf same]
  exact isComment

end Lexer.Reprints

namespace Layout

open Lexer TexSource.Parser

variable {options : Options} {line : Line}

namespace Line

/-- Whether a line is left out: nothing but blanks that are not verbatim. -/
def isSkipped (line : Line) : Bool :=
  !line.isRaw && line.first?.isNone

/-- What a line is written as, unless it is left out. -/
def output (options : Options) (line : Line) : Text :=
  if line.isRaw then line.rawText
  else if line.isCommentOnly then line.rawText.stripEnd
  else codeLine options.indent line

/-- The major command that the first item of a line belongs to. -/
def key (line : Line) : Option Text :=
  line.first?.bind fun first => first.key <|> first.block

theorem isCode_iff : line.isCode = true ↔
    line.isRaw = false ∧ line.first?.isSome = true ∧ line.isCommentOnly = false := by
  simp [isCode, and_assoc]

end Line

/-- A line with nothing but a comment. -/
theorem Line.exists_comment (commentOnly : line.isCommentOnly = true) :
    ∃ spaces comment, line.items = spaces ++ [comment] ∧ comment.token.isComment = true ∧
      ∀ space ∈ spaces, space.token.isSpace = true := by
  unfold isCommentOnly at commentOnly
  split at commentOnly
  · rename_i comment dropped
    refine ⟨line.items.takeWhile (·.token.isSpace), comment, ?_, commentOnly,
      fun space member => ?_⟩
    · rw [← dropped, List.takeWhile_append_dropWhile]
    · have taken := List.mem_takeWhile_imp member
      exact taken
  · cases commentOnly

/-- A line that ends in a comment, with nothing but spaces before it. -/
theorem Line.isCommentOnly_of_spaces {spaces : List Item} {comment : Item}
    (whole : line.items = spaces ++ [comment]) (isComment : comment.token.isComment = true)
    (blank : ∀ space ∈ spaces, space.token.isSpace = true) : line.isCommentOnly = true := by
  have dropped : line.items.dropWhile (·.token.isSpace) = [comment] := by
    rw [whole, List.dropWhile_append_of_pos blank, List.dropWhile_cons_of_neg]
    simp [Token.isSpace_of_isComment isComment]
  rw [isCommentOnly, dropped]
  exact isComment

/-- What the tokens of a line are printed as, but for the line end. -/
inductive Line.Printed (options : Options) (line : Line) : List Token → List Token → Prop where
  | raw (raw : line.isRaw = true) (tokens : List Token) : Line.Printed options line tokens tokens
  | comment (plain : line.isRaw = false) (commentOnly : line.isCommentOnly = true)
      {spaces : List Token} {comment : Token} (blank : ∀ space ∈ spaces, space.isSpace = true)
      (isComment : comment.isComment = true) :
      Line.Printed options line (spaces ++ [comment]) (spaces ++ [comment.trimmed])
  | code (code : line.isCode = true) {first : Item} (found : line.first? = some first)
      {tokens : List Token} (uncommented : ∀ token ∈ tokens, token.isComment = false) :
      Line.Printed options line tokens (Token.indented (margin options.indent first.depth)
        (Token.trimEnd (tokens.dropWhile Token.isSpace)))
  | commented (code : line.isCode = true) {first : Item} (found : line.first? = some first)
      {before others : List Token} {comment : Token} (isComment : comment.isComment = true)
      (solid : before.all Token.isSpace = false)
      (widened : Token.Widened (before.dropWhile Token.isSpace) others) :
      Line.Printed options line (before ++ [comment])
        (Token.indented (margin options.indent first.depth) (others ++ [comment.trimmed]))

namespace Line.Printed

variable {tokens others : List Token}

/-- **Rows.** A line is printed with the same tokens and other blanks. -/
theorem respaced (printed : line.Printed options tokens others)
    (white : ∀ glyph ∈ options.indent, Catcode.initial glyph = .space)
    {gaps : Option (Gap × Gap)} (fresh : Fresh gaps)
    (sorted : ∀ token ∈ tokens, token.IsGap ∨ token.IsSolid) :
    ∃ ends, Respaced gaps tokens others ends := by
  have ended : ∀ {comment : Token}, comment.isComment = true → comment.IsGap ∨ comment.IsSolid →
      ∀ {gaps}, Level gaps → ∃ ends, Respaced gaps [comment] [comment.trimmed] ends :=
    fun isComment either _ level =>
      ⟨_, .token level (.trimmed (Token.isSolid_of_isComment isComment either) isComment) (.nil _)⟩
  have blank : ∀ depth, ∀ glyph ∈ margin options.indent depth, glyph.isBlank = true :=
    fun depth glyph member => Lexer.IsWhite.isBlank (.inl (white glyph (mem_margin member)))
  cases printed with
  | raw =>
    have whole : ∃ ends, Respaced gaps (tokens ++ []) (tokens ++ []) ends :=
      Respaced.prepend tokens fresh.level sorted fun _ => ⟨_, .nil _⟩
    simpa using whole
  | comment _ _ _ isComment =>
    rw [List.forall_mem_append, List.forall_mem_singleton] at sorted
    exact Respaced.prepend _ fresh.level sorted.1 (ended isComment sorted.2)
  | code =>
    refine Respaced.of_dropSpaces fresh sorted fun fresh =>
      Respaced.indented fresh (blank _) fun fresh => ?_
    exact Respaced.trimEnd fresh.level fun token member =>
      sorted token ((List.dropWhile_sublist _).subset member)
  | @commented _ _ _ before _ comment isComment solid widened =>
    refine Respaced.of_dropSpaces fresh sorted fun fresh =>
      Respaced.indented fresh (blank _) fun fresh => ?_
    rw [List.forall_mem_append, List.forall_mem_singleton] at sorted
    rw [Token.dropSpaces_concat solid]
    exact Respaced.widened widened fresh.level
      (fun token member => sorted.1 token ((List.dropWhile_sublist _).subset member))
      (ended isComment sorted.2)

/-- **Rows are read again.** What is printed is cut into the same tokens. -/
theorem cuts (printed : line.Printed options tokens others)
    (white : ∀ glyph ∈ options.indent, Catcode.initial glyph = .space)
    {table last : Catcode.Table} (plain : Plain table) {next : Option Glyph}
    (cuts : Cuts table tokens next last) (inside : ∀ token ∈ tokens, token.isEndOfLine = false)
    {glyph : Glyph} (ends : Catcode.initial glyph = .endOfLine) :
    Cuts table others (some glyph) last := by
  have blank : ∀ depth, ∀ glyph ∈ margin options.indent depth, Catcode.initial glyph = .space :=
    fun depth glyph member => white glyph (mem_margin member)
  cases printed with
  | raw => exact cuts.ended plain inside ends
  | comment _ _ _ isComment => exact cuts.commented plain isComment ends
  | code =>
    refine Cuts.indented plain (blank _) (cuts.dropSpaces.trimEnd plain (fun token member =>
      inside token ((List.dropWhile_sublist _).subset member)) ends)
      (Token.startsSolid_dropSpaces tokens).trimEnd fun other first => ?_
    cases first
    exact ends
  | @commented _ _ _ before _ comment isComment solid widened =>
    have dropped := cuts.dropSpaces
    rw [Token.dropSpaces_concat solid] at dropped
    obtain ⟨middle, front, back⟩ := dropped.split
    have opens : ∀ glyph ∈ (Token.rawText [comment]).head?.or next,
        Catcode.initial glyph = .comment := by
      cases back with
      | cons sharp =>
        obtain ⟨content, kind⟩ := Token.kind_of_isComment isComment
        have spelled := sharp.spelled
        rw [kind] at spelled
        obtain ⟨glyph, written, category, -⟩ := spelled.of_comment
        rintro other first
        simp only [Token.rawText_cons, written, List.cons_append, List.head?_cons,
          Option.some_or] at first
        cases first
        exact ((front.plain_last plain).comment_iff glyph).mp category
    have code := ((front.widened plain widened opens).append back).commented plain isComment ends
    refine Cuts.indented plain (blank _) code ?_ fun other first => ?_
    · refine ((Token.startsSolid_dropSpaces before).widened widened).append ?_
      exact Token.isSpace_of_isComment ((Token.isComment_trimmed comment).trans isComment)
    · cases first
      exact ends

/-- A line is printed with as much as it has. -/
theorem load_eq (printed : line.Printed options tokens others) :
    Token.load others = Token.load tokens := by
  cases printed with
  | raw => rfl
  | comment => simp [Token.weight_trimmed]
  | code => rw [Token.load_indented, Token.load_trimEnd, Token.load_dropSpaces]
  | commented _ _ _ _ widened =>
    rw [Token.load_indented, Token.load_append, Token.load_append, widened.load_eq,
      Token.load_dropSpaces, Token.load_cons, Token.load_cons, Token.weight_trimmed]

/-- A line is printed as one line. -/
theorem isEndOfLine (printed : line.Printed options tokens others)
    (inside : ∀ token ∈ tokens, token.isEndOfLine = false) :
    ∀ token ∈ others, token.isEndOfLine = false := by
  have trimmed : ∀ {comment : Token}, comment.isComment = true →
      comment.trimmed.isEndOfLine = false := fun isComment =>
    Token.isEndOfLine_of_isComment ((Token.isComment_trimmed _).trans isComment)
  have dropped : ∀ {tokens : List Token}, (∀ token ∈ tokens, token.isEndOfLine = false) →
      ∀ token ∈ tokens.dropWhile Token.isSpace, token.isEndOfLine = false :=
    fun inside token member => inside token ((List.dropWhile_sublist _).subset member)
  have space : decide (Token.Kind.space = .endOfLine) = false := rfl
  cases printed with
  | raw => exact inside
  | comment _ _ _ isComment =>
    rw [List.forall_mem_append, List.forall_mem_singleton] at inside ⊢
    exact ⟨inside.1, trimmed isComment⟩
  | code =>
    exact Token.forall_mem_indented (fun kind => decide (kind = .endOfLine) = false) space
      (Token.forall_mem_trimEnd (fun kind => decide (kind = .endOfLine) = false)
        (dropped inside))
  | commented _ _ isComment _ widened =>
    rw [List.forall_mem_append, List.forall_mem_singleton] at inside
    refine Token.forall_mem_indented (fun kind => decide (kind = .endOfLine) = false)
      space (List.forall_mem_append.mpr ⟨?_, List.forall_mem_singleton.mpr (trimmed isComment)⟩)
    exact widened.forall_mem (fun kind => decide (kind = .endOfLine) = false)
      (dropped inside.1)

end Line.Printed

/-- **Code.** A line of code without a comment is its tokens behind a margin, without the blanks at
their ends. -/
theorem codeLine_plain (indent : Text) {first : Item} (found : line.first? = some first)
    {tokens : List Token} (reprints : Reprints tokens (line.items.map Item.token))
    (uncommented : ∀ token ∈ tokens, token.isComment = false) :
    codeLine indent line = margin indent first.depth ++
      Token.rawText (Token.trimEnd (tokens.dropWhile Token.isSpace)) := by
  obtain ⟨solid, rest, dropped⟩ := Line.exists_dropSpaces found
  obtain ⟨later, trimmed⟩ := exists_trimEnd solid rest
  have text : textOf (first :: later) =
      Token.rawText (Token.trimEnd (tokens.dropWhile Token.isSpace)) := by
    rw [← trimmed, ← dropped, textOf_trimEnd, ← reprints.dropSpaces.rawText_trimEnd,
      List.dropWhile_map]
    rfl
  unfold codeLine
  rw [dropped, trimmed]
  cases later with
  | nil => exact congrArg (margin indent first.depth ++ ·) text
  | cons second others =>
    obtain ⟨last, shown⟩ := Option.isSome_iff_exists.mp
      (List.getLast?_isSome.mpr (List.cons_ne_nil first (second :: others)))
    have listed : last ∈ line.items := by
      have inside := List.mem_of_getLast? shown
      rw [← trimmed, ← dropped] at inside
      exact (List.dropWhile_sublist _).subset
        (List.mem_reverse.mp ((List.dropWhile_sublist _).subset (List.mem_reverse.mp inside)))
    have code := reprints.isComment uncommented last.token (List.mem_map_of_mem listed)
    simp only [shown, code, Bool.false_eq_true, if_false]
    rw [text]

/-- **Code and a comment.** -/
theorem exists_codeLine_commented (indent : Text) {first : Item} (found : line.first? = some first)
    {before : List Token} {comment : Token} (isComment : comment.isComment = true)
    (solid : before.all Token.isSpace = false)
    (reprints : Reprints (before ++ [comment]) (line.items.map Item.token)) :
    ∃ front last, line.items = front ++ [last] ∧ pieceOf last.token = pieceOf comment ∧
      Reprints before (front.map Item.token) ∧
      let code := margin indent first.depth ++
        Token.rawText (Token.trimEnd (before.dropWhile Token.isSpace))
      codeLine indent line = code ++
        (if (before.dropWhile Token.isSpace).getLast?.any Token.endsBlank then
          List.replicate (max (last.token.span.start.column - 1 - code.length) 1) (.char ' ')
        else []) ++ comment.raw.stripEnd := by
  obtain ⟨items, last, whole, same, commented, earlier⟩ := reprints.exists_comment isComment
  refine ⟨items, last, whole, same, earlier, ?_⟩
  have ends : last.token.isSpace = false := Token.isSpace_of_isComment commented
  have kept : items.dropWhile (·.token.isSpace) ≠ [] := by
    have all := earlier.all_isSpace
    rw [solid, List.all_map] at all
    rw [ne_eq, List.dropWhile_eq_nil_iff]
    simpa using all
  obtain ⟨-, rest, dropped⟩ := Line.exists_dropSpaces found
  have code : line.items.dropWhile (·.token.isSpace) =
      items.dropWhile (·.token.isSpace) ++ [last] := by
    rw [whole, List.dropWhile_append, if_neg (by simpa using kept)]
  have trimmed : trimEnd (line.items.dropWhile (·.token.isSpace)) =
      items.dropWhile (·.token.isSpace) ++ [last] := by
    rw [code]
    exact List.rdropWhile_concat_neg _ _ _ (by simp [ends])
  obtain ⟨second, others, starts⟩ := List.exists_cons_of_ne_nil kept
  obtain rfl : first = second := by
    rw [dropped, starts] at code
    exact (List.cons.inj code).1
  have text : textOf (trimEnd (items.dropWhile (·.token.isSpace))) =
      Token.rawText (Token.trimEnd (before.dropWhile Token.isSpace)) := by
    rw [textOf_trimEnd, ← earlier.dropSpaces.rawText_trimEnd, List.dropWhile_map]
    rfl
  have blanks : endsInBlanks (items.dropWhile (·.token.isSpace)) =
      (before.dropWhile Token.isSpace).getLast?.any Token.endsBlank := by
    rw [← earlier.dropSpaces.endsBlank_eq, List.dropWhile_map]
    unfold endsInBlanks
    simp only [List.getLast?_map, Option.any_map, Function.comp_def]
    cases (items.dropWhile (·.token.isSpace)).getLast? <;> rfl
  intro margined
  unfold codeLine
  rw [trimmed]
  have final : (items.dropWhile (·.token.isSpace) ++ [last]).getLast? = some last := by simp
  have initial : (items.dropWhile (·.token.isSpace) ++ [last]).dropLast =
      items.dropWhile (·.token.isSpace) := List.dropLast_concat
  simp only [final, initial]
  have raw : last.token.raw = comment.raw := raw_of_pieceOf same
  generalize items.dropWhile (·.token.isSpace) = items at starts text blanks
  subst starts
  cases others <;>
    simp only [List.cons_append, List.nil_append, commented, if_true, text, commentGap, blanks, raw,
      margined]

theorem stripEnd_comment {table last : Catcode.Table} (plain : Plain table) {before : List Token}
    {comment : Token} (isComment : comment.isComment = true) {next : Option Glyph}
    (cuts : Cuts table (before ++ [comment]) next last) (text : Text) :
    Text.stripEnd (text ++ comment.raw) = text ++ comment.trimmed.raw := by
  obtain ⟨middle, front, back⟩ := cuts.split
  cases back with
  | cons sharp =>
    obtain ⟨content, kind⟩ := Token.kind_of_isComment isComment
    have spelled := sharp.spelled
    rw [kind] at spelled
    obtain ⟨opens, written, category, -⟩ := spelled.of_comment
    have solid := isBlank_of_comment (((front.plain_last plain).comment_iff opens).mp category)
    have stripped : Text.stripEnd (opens :: content) = opens :: content.stripEnd :=
      Text.stripEnd_append_cons [] solid content
    rw [Token.trimmed, written, stripped, Text.stripEnd_append_cons text solid]

/-- **Lines are printed** as the text that is written for them. -/
theorem Line.exists_printed (options : Options) {table last : Catcode.Table} (plain : Plain table)
    {tokens : List Token} {next : Option Glyph} (cuts : Cuts table tokens next last)
    (inside : ∀ token ∈ tokens, token.isEndOfLine = false)
    (reprints : Reprints tokens (line.items.map Item.token)) (kept : line.isSkipped = false) :
    ∃ others, line.Printed options tokens others ∧
      Token.rawText others = line.output options := by
  unfold output
  cases raw : line.isRaw with
  | true =>
    exact ⟨tokens, .raw raw tokens, by rw [if_pos rfl, line.rawText_eq, reprints.rawText_eq]⟩
  | false =>
    obtain ⟨first, found⟩ : ∃ first, line.first? = some first := by
      rw [isSkipped, raw] at kept
      exact Option.isSome_iff_exists.mp (by simpa using kept)
    rw [if_neg Bool.false_ne_true]
    cases commentOnly : line.isCommentOnly with
    | true =>
      obtain ⟨spaces, comment, whole, isComment, blank⟩ := line.exists_comment commentOnly
      rw [whole, List.map_append] at reprints
      obtain ⟨before, token, after, rfl, same, earlier, later⟩ :=
        reprints.exists_of_middle <| isMathShift_eq_false rfl fun doubled kind => by
          simp [Token.isComment, kind] at isComment
      cases later
      rw [if_pos rfl, line.rawText_eq, whole, List.map_append]
      have isComment : token.isComment = true := by
        rw [Token.isComment, ← kind_of_pieceOf same]
        exact isComment
      refine ⟨_, .comment raw commentOnly (List.all_eq_true.mp ?_) isComment, ?_⟩
      · rw [← earlier.all_isSpace, List.all_map]
        exact List.all_eq_true.mpr blank
      · have text := stripEnd_comment plain isComment cuts (Token.rawText before)
        simpa [earlier.rawText_eq, raw_of_pieceOf same] using text.symm
    | false =>
      have code : line.isCode = true := by simp [isCode, raw, found, commentOnly]
      rw [if_neg Bool.false_ne_true]
      rcases cuts.comments plain inside with uncommented | ⟨before, comment, rfl, isComment⟩
      · refine ⟨_, .code code found uncommented, ?_⟩
        rw [Token.rawText_indented, codeLine_plain options.indent found reprints uncommented]
      · have solid : before.all Token.isSpace = false := by
          by_contra spaces
          rw [Bool.not_eq_false] at spaces
          obtain ⟨front, last, whole, -, ends, earlier⟩ := reprints.exists_comment isComment
          rw [← earlier.all_isSpace, List.all_map] at spaces
          rw [line.isCommentOnly_of_spaces whole ends (List.all_eq_true.mp spaces)] at commentOnly
          cases commentOnly
        obtain ⟨_, last, -, -, -, text⟩ :=
          exists_codeLine_commented options.indent found isComment solid reprints
        have dropped := cuts.dropSpaces
        rw [Token.dropSpaces_concat solid] at dropped
        obtain ⟨_, dropped, -⟩ := dropped.split
        obtain ⟨others, widened, written⟩ := dropped.exists_widened plain
          (last.token.span.start.column - 1 - (margin options.indent first.depth ++
            Token.rawText (Token.trimEnd (before.dropWhile Token.isSpace))).length)
        refine ⟨_, .commented code found isComment solid widened, ?_⟩
        rw [text, Token.rawText_indented, Token.rawText_append, written]
        simp [Token.trimmed]

end Layout

end TexSource
