import TexSource.Proofs.Layout.Respacing
import TexSource.Proofs.Layout.Rows

/-!
# Rows that are read again

A row that is read with items that are set alike is written as it is (`Layout.Line.Printed.again`).
A comment stands in the column that tells how much is before it (`Layout.Line.Aligned`), so as many
spaces are written in front of it as stand there.
-/

namespace TexSource

/-- On a line, a glyph stands in the column that tells how many glyphs are before it. -/
theorem Text.column_placeAt {behind line : Text} (rest : Text)
    (starts : behind = [] ∨ behind.getLast? = some (.char '\n'))
    (inside : ∀ glyph ∈ line, Catcode.initial glyph ≠ .endOfLine) :
    (placeAt (behind ++ line ++ rest) (behind ++ line).length).column = 1 + line.length := by
  induction line using List.reverseRecOn generalizing rest with
  | nil =>
    rcases starts with rfl | ends
    · rfl
    · obtain ⟨before, rfl⟩ := List.getLast?_eq_some_iff.mp ends
      have found : (before ++ [Glyph.char '\n'] ++ [] ++ rest)[before.length]? =
          some (.char '\n') := by simp
      have place := placeAt_succ found
      have size : (before ++ [Glyph.char '\n'] ++ []).length = before.length + 1 := by simp
      rw [size, place]
      simp [Position.advance]
  | append_singleton line glyph ih =>
    rw [List.forall_mem_append, List.forall_mem_singleton] at inside
    have place := ih (glyph :: rest) inside.1
    have whole : behind ++ (line ++ [glyph]) ++ rest = behind ++ line ++ glyph :: rest := by simp
    have size : (behind ++ (line ++ [glyph])).length = (behind ++ line).length + 1 := by
      simp [Nat.add_assoc]
    have found : (behind ++ line ++ glyph :: rest)[(behind ++ line).length]? = some glyph := by
      rw [List.getElem?_append_right (Nat.le_refl _)]
      simp
    have noFeed : glyph ≠ .char '\n' := by
      rintro rfl
      exact inside.2 rfl
    have noReturn : glyph ≠ .char '\r' := by
      rintro rfl
      exact inside.2 rfl
    rw [whole, size, placeAt_succ found, Position.advance, if_neg (by simp [noFeed, noReturn])]
    simp only
    rw [place, List.length_append, List.length_singleton, Nat.add_assoc]

namespace Lexer

/-- The comments among some tokens stand where they are in a text, behind a first part of it. -/
def Seated (source behind : Text) (tokens : List Token) : Prop :=
  ∀ before comment after, tokens = before ++ comment :: after → comment.isComment = true →
    comment.span.start = source.placeAt (behind ++ Token.rawText before).length

variable {source behind reached : Text} {content tokens others : List Token}

theorem Seated.append (seated : Seated source behind (tokens ++ others)) :
    Seated source behind tokens ∧ Seated source (behind ++ Token.rawText tokens) others := by
  refine ⟨fun before comment after split isComment => ?_,
    fun before comment after split isComment => ?_⟩
  · exact seated before comment (after ++ others) (by simp [split]) isComment
  · have place := seated (tokens ++ before) comment after (by simp [split]) isComment
    rwa [Token.rawText_append, ← List.append_assoc] at place

theorem Tiles.seated (tiles : Tiles source behind content reached)
    (splits : Parser.Splits content tokens) : Seated source behind tokens := by
  induction splits generalizing behind with
  | nil =>
    intro before comment after split
    simp at split
  | keep token _ ih =>
    cases tiles with
    | cons covers later =>
      intro before comment after split isComment
      cases before with
      | nil =>
        cases split
        simpa using covers.start
      | cons first before =>
        obtain ⟨rfl, rest⟩ := List.cons.inj split
        have place := ih later before comment after rest isComment
        rwa [List.append_assoc, ← Token.rawText_cons] at place
  | @split token doubled _ _ _ ih =>
    cases tiles with
    | cons covers later =>
      intro before comment after split isComment
      match before with
      | [] =>
        cases split
        cases isComment
      | [first] =>
        cases split
        cases isComment
      | first :: second :: before =>
        simp only [List.cons_append, List.cons.injEq] at split
        obtain ⟨rfl, rfl, rest⟩ := split
        have place := ih later before comment after rest isComment
        rw [Token.rawText_cons, Token.rawText_cons, ← List.append_assoc (Token.raw _),
          Parser.raw_splitShift, ← List.append_assoc]
        exact place

end Lexer

namespace Layout

open Lexer

variable {options : Options} {line other : Line}

namespace Line

/-- A comment at the end of a line stands in the column that tells how much is before it. -/
def Aligned (line : Line) : Prop :=
  ∀ front last, line.items = front ++ [last] → last.token.isComment = true →
    last.token.span.start.column = 1 + (Token.rawText (front.map Item.token)).length

theorem aligned_of_seated {source behind : Text} (rest : Text)
    (seated : Seated source behind (line.items.map Item.token))
    (whole : source = behind ++ line.rawText ++ rest)
    (starts : behind = [] ∨ behind.getLast? = some (.char '\n'))
    (inside : ∀ glyph ∈ line.rawText, Catcode.initial glyph ≠ .endOfLine) : line.Aligned := by
  intro front last split isComment
  rw [line.rawText_eq, split, List.map_append, Token.rawText_append] at whole inside
  rw [← List.append_assoc, List.append_assoc] at whole
  rw [List.forall_mem_append] at inside
  have place := seated (front.map Item.token) last.token [] (by simp [split]) isComment
  rw [place, whole]
  exact Text.column_placeAt _ starts inside.1

/-- A line that is not a comment alone has something else before the comment. -/
theorem isCommentOnly_of_solid {front : List Item} {last : Item}
    (whole : line.items = front ++ [last])
    (solid : (front.map Item.token).all Token.isSpace = false) : line.isCommentOnly = false := by
  have code : ¬(front.dropWhile (·.token.isSpace)).isEmpty = true := by
    simpa [List.all_map] using solid
  unfold isCommentOnly
  rw [whole, List.dropWhile_append, if_neg code]
  cases dropped : front.dropWhile (·.token.isSpace) with
  | nil => simp [dropped] at code
  | cons first rest => cases rest <;> rfl

end Line

theorem stripEnd_stripEnd (text : Text) : text.stripEnd.stripEnd = text.stripEnd :=
  List.rdropWhile_idempotent Glyph.isBlank text

/-- A row with nothing but a comment is one again. -/
theorem isCommentOnly_again {spaces : List Token} {comment : Token}
    (blank : ∀ space ∈ spaces, space.isSpace = true) (isComment : comment.isComment = true)
    (reread : Reprints (spaces ++ [comment.trimmed]) (line.items.map Item.token)) :
    line.isCommentOnly = true := by
  obtain ⟨front, last, split, -, ends, earlier⟩ :=
    reread.exists_comment ((Token.isComment_trimmed comment).trans isComment)
  have spaces := earlier.all_isSpace.trans (List.all_eq_true.mpr blank)
  rw [List.all_map] at spaces
  exact Line.isCommentOnly_of_spaces split ends (List.all_eq_true.mp spaces)

/-- A row of code is written as it is. -/
theorem codeLine_again (indent : Text) {margined : Text} {tokens : List Token}
    (uncommented : ∀ token ∈ tokens, token.isComment = false)
    (reread : Reprints (Token.indented margined
      (Token.trimEnd (tokens.dropWhile Token.isSpace))) (line.items.map Item.token)) :
    line.isCommentOnly = false ∧ ∀ first, line.first? = some first →
      codeLine indent line = margin indent first.depth ++
        Token.rawText (Token.trimEnd (tokens.dropWhile Token.isSpace)) := by
  have none : ∀ token ∈ Token.indented margined
      (Token.trimEnd (tokens.dropWhile Token.isSpace)), token.isComment = false := by
    simp only [Token.isComment_eq_false_iff] at uncommented ⊢
    exact Token.forall_mem_indented (fun kind => ∀ content, kind ≠ .comment content) nofun
      (Token.forall_mem_trimEnd (fun kind => ∀ content, kind ≠ .comment content)
        fun token member => uncommented token ((List.dropWhile_sublist _).subset member))
  refine ⟨?_, fun first found => ?_⟩
  · by_contra only
    obtain ⟨spaces, comment, split, isComment, -⟩ :=
      line.exists_comment (Bool.not_eq_false _ ▸ only)
    rw [reread.isComment none comment.token (by simp [split])] at isComment
    cases isComment
  · rw [codeLine_plain indent found reread none,
      (Token.startsSolid_dropSpaces _).trimEnd.dropSpaces_indented, Token.trimEnd_trimEnd]

/-- A row of code with a comment is written as it is. -/
theorem codeLine_commented_again (indent : Text) {margined : Text} {before others : List Token}
    {comment : Token} (isComment : comment.isComment = true)
    (solid : before.all Token.isSpace = false)
    (widened : Token.Widened (before.dropWhile Token.isSpace) others)
    (reread : Reprints (Token.indented margined (others ++ [comment.trimmed]))
      (line.items.map Item.token)) (aligned : line.Aligned) :
    line.isCommentOnly = false ∧ ∀ first, line.first? = some first →
      margin indent first.depth = margined →
        codeLine indent line = margined ++ Token.rawText (others ++ [comment.trimmed]) := by
  have isComment := (Token.isComment_trimmed comment).trans isComment
  have present : before.dropWhile Token.isSpace ≠ [] := by
    rw [ne_eq, List.dropWhile_eq_nil_iff]
    simpa using solid
  have dropped :=
    ((Token.startsSolid_dropSpaces before).widened widened).dropSpaces_indented margined
  have solid : (Token.indented margined others).all Token.isSpace = false := by
    by_contra spaces
    rw [Bool.not_eq_false, List.all_eq_true, ← List.dropWhile_eq_nil_iff, dropped] at spaces
    exact widened.ne_nil present spaces
  rw [Token.indented_append] at reread
  refine ⟨?_, fun first found same => ?_⟩
  · obtain ⟨front, last, split, -, -, earlier⟩ := reread.exists_comment isComment
    exact Line.isCommentOnly_of_solid split (earlier.all_isSpace.trans solid)
  · obtain ⟨front, last, split, sameComment, earlier, written⟩ :=
      exists_codeLine_commented indent found isComment solid reread
    have column : last.token.span.start.column = 1 + (margined ++ Token.rawText others).length := by
      rw [aligned front last split, earlier.rawText_eq, Token.rawText_indented]
      rw [Token.isComment, kind_of_pieceOf sameComment]
      exact isComment
    have trimmed : comment.trimmed.raw.stripEnd = comment.trimmed.raw := stripEnd_stripEnd _
    rw [written, dropped, same, widened.rawText_trimEnd, column, trimmed, Token.rawText_append]
    rcases widened.rawText_eq with ⟨tight, bare⟩ | ⟨count, wide, spaced⟩
    · simp [tight, bare]
    · -- so many spaces stand before the comment as are called for
      have width : max (1 + (margined ++ Token.rawText others).length - 1 -
          (margined ++ Token.rawText (Token.trimEnd (before.dropWhile Token.isSpace))).length) 1 =
            count + 1 := by
        simp only [spaced, List.length_append, List.length_replicate]
        omega
      rw [width, wide, if_pos rfl, spaced]
      simp

/-- A line that is written like another one. -/
structure Line.Again (options : Options) (line other : Line) : Prop where
  isRaw : other.isRaw = line.isRaw
  isCode : other.isCode = line.isCode
  isCommentOnly : line.isRaw = false → other.isCommentOnly = line.isCommentOnly
  key : other.key = line.key
  output : other.output options = line.output options
  isSkipped : other.isSkipped = false

theorem Line.isRaw_again (first : Option.Rel Item.Alike line.first? other.first?)
    (kept : line.isSkipped = false)
    (blank : line.first? = none → line.isRaw = true → other.lineEnd.any Item.verbatim = true) :
    other.isRaw = line.isRaw := by
  cases none : line.first? with
  | some found =>
    unfold isRaw
    rw [none] at first ⊢
    cases again : other.first? with
    | none =>
      rw [again] at first
      cases first
    | some =>
      rw [again] at first
      cases first with
      | some same => exact same.verbatim
  | none =>
    have raw : line.isRaw = true := by simpa [isSkipped, none] using kept
    rw [none] at first
    rw [raw, isRaw]
    cases again : other.first? with
    | none => simp [blank none raw]
    | some =>
      rw [again] at first
      cases first

/-- **Rows again.** A row that is read with items that are set alike is written as it is. -/
theorem Line.Printed.again {tokens row : List Token} {first middle : Option Bool}
    (rowed : line.Printed options tokens row)
    (reprints : Reprints tokens (line.items.map Item.token))
    (inside : ∀ token ∈ tokens, token.isEndOfLine = false)
    (text : Token.rawText row = line.output options) (kept : line.isSkipped = false)
    (reread : Reprints row (other.items.map Item.token))
    (alike : Alike first line.items other.items middle)
    (blank : line.first? = none → line.isRaw = true → other.lineEnd.any Item.verbatim = true)
    (aligned : other.Aligned) : line.Again options other := by
  have first : Option.Rel Item.Alike line.first? other.first? :=
    alike.first? (List.forall_mem_map.mp (reprints.isEndOfLine_iff.mpr inside))
      (List.forall_mem_map.mp (reread.isEndOfLine_iff.mpr (rowed.isEndOfLine inside)))
  have isRaw := Line.isRaw_again first kept blank
  have isSome : other.first?.isSome = line.first?.isSome := by
    generalize line.first? = found at first
    generalize other.first? = again at first
    cases first <;> rfl
  have key : other.key = line.key := by
    unfold Line.key
    generalize line.first? = found at first
    generalize other.first? = again at first
    cases first with
    | some same => simp [same.key, same.block]
    | none => rfl
  have isSkipped : other.isSkipped = false := by
    rw [← kept, Line.isSkipped, Line.isSkipped, isRaw, ← Option.not_isSome, ← Option.not_isSome,
      isSome]
  suffices only : (line.isRaw = false → other.isCommentOnly = line.isCommentOnly) ∧
      other.output options = Token.rawText row by
    refine ⟨isRaw, ?_, only.1, key, only.2.trans text, isSkipped⟩
    rw [Line.isCode, Line.isCode, isRaw, isSome]
    cases raw : line.isRaw with
    | true => rfl
    | false => rw [only.1 raw]
  have margins : ∀ {found again : Item}, line.first? = some found → other.first? = some again →
      margin options.indent again.depth = margin options.indent found.depth := by
    intro found again shown shownAgain
    rw [shown, shownAgain] at first
    cases first with
    | some same => rw [same.depth]
  have codes : ∀ {found : Item}, line.isCode = true → line.first? = some found →
      other.isCommentOnly = false → ∃ again, other.first? = some again ∧
        other.output options = codeLine options.indent other := by
    intro found code shown only
    rw [shown] at isSome
    obtain ⟨again, shownAgain⟩ := Option.isSome_iff_exists.mp isSome
    refine ⟨again, shownAgain, ?_⟩
    rw [Line.output, if_neg (by simp [isRaw, (Line.isCode_iff.mp code).1]), if_neg (by simp [only])]
  cases rowed with
  | raw raw =>
    refine ⟨fun plain => by simp [raw] at plain, ?_⟩
    rw [Line.output, if_pos (isRaw.trans raw), Line.rawText_eq, reread.rawText_eq]
  | comment plain commentOnly blank isComment =>
    have only := isCommentOnly_again blank isComment reread
    refine ⟨fun _ => only.trans commentOnly.symm, ?_⟩
    rw [Line.output, if_neg (by simp [isRaw, plain]), if_pos only, Line.rawText_eq,
      reread.rawText_eq, text, Line.output, if_neg (by simp [plain]), if_pos commentOnly,
      stripEnd_stripEnd]
  | code code found uncommented =>
    obtain ⟨only, written⟩ := codeLine_again options.indent uncommented reread
    refine ⟨fun _ => only.trans (Line.isCode_iff.mp code).2.2.symm, ?_⟩
    obtain ⟨again, shown, output⟩ := codes code found only
    rw [output, written again shown, margins found shown, Token.rawText_indented]
  | commented code found isComment solid widened =>
    obtain ⟨only, written⟩ := codeLine_commented_again options.indent isComment solid
      widened reread aligned
    refine ⟨fun _ => only.trans (Line.isCode_iff.mp code).2.2.symm, ?_⟩
    obtain ⟨again, shown, output⟩ := codes code found only
    rw [output, written again shown (margins found shown), Token.rawText_indented]

end Layout

end TexSource
