import Mathlib.Data.List.DropRight
import TexSource.Proofs.Lexer.Printing

/-!
# Blanks at the ends of lines

Where a line ends, neither the spaces at its end nor the blanks behind a control word there nor
the white space at the end of a comment matter to what the line means (`Lexer.Legible.trimEnd`,
`Lexer.significant_comment`).
-/

namespace TexSource

/-- White space is removed from the end of a text only up to a glyph that is none. -/
theorem Text.stripEnd_append_cons (before : Text) {glyph : Glyph} (code : glyph.isBlank = false)
    (after : Text) :
    Text.stripEnd (before ++ glyph :: after) = before ++ glyph :: Text.stripEnd after := by
  induction after using List.reverseRecOn with
  | nil => exact List.rdropWhile_concat_neg Glyph.isBlank before glyph (by simp [code])
  | append_singleton after last ih =>
    have split : before ++ glyph :: (after ++ [last]) = before ++ glyph :: after ++ [last] := by
      simp
    rw [split]
    change List.rdropWhile Glyph.isBlank _ = _ ++ _ :: List.rdropWhile Glyph.isBlank _
    rw [List.rdropWhile_concat, List.rdropWhile_concat]
    split_ifs with blank
    · exact ih
    · exact split.symm

namespace Token

/-- The kind of a token, without the white space at the end of a comment. -/
def Kind.trimmed : Kind → Kind
  | comment content => comment content.stripEnd
  | kind => kind

/-- What tokens mean up to white space: their kinds without blanks and without the end of the
input, and comments without white space at their ends. -/
def significant (tokens : List Token) : List Kind :=
  (content tokens).map Kind.trimmed

/-- A sequence of tokens without the blanks at its end. -/
def trimEnd : List Token → List Token
  | [] => []
  | token :: rest =>
    if rest.all isSpace then
      if token.isSpace then [] else [{ token with raw := token.controlText }]
    else token :: trimEnd rest

theorem kind_of_isComment {token : Token} (isComment : token.isComment = true) :
    ∃ content, token.kind = .comment content := by
  unfold Token.isComment at isComment
  split at isComment
  · exact ⟨_, ‹_›⟩
  · cases isComment

end Token

namespace Lexer

variable {table last : Catcode.Table}

/-- What a text means up to white space. -/
def significant (table : Catcode.Table) (text : Text) : List Token.Kind :=
  (reads table text).map Token.Kind.trimmed

theorem significant_blanks (plain : Plain table) {blanks : Text}
    (white : ∀ glyph ∈ blanks, IsWhite glyph) (rest : Text) :
    significant table (blanks ++ rest) = significant table rest := by
  rw [significant, reads_blanks plain white, significant]

theorem Legible.significant {tokens : List Token} {next : Option Glyph} {kinds : List Token.Kind}
    (plain : Plain table) (legible : Legible table tokens next kinds last) {rest : Text}
    (ahead : rest.head? = next) :
    Lexer.significant table (Token.rawText tokens ++ rest) =
      kinds.map Token.Kind.trimmed ++ Lexer.significant last rest := by
  rw [Lexer.significant, legible.reads plain ahead, List.map_append, Lexer.significant]

/-- Trimming comments leaves control words as they are. -/
theorem mem_significant_word {text name : Text} :
    .controlWord name ∈ significant table text ↔ .controlWord name ∈ reads table text := by
  have word : ∀ kind : Token.Kind, kind.trimmed = .controlWord name ↔ kind = .controlWord name := by
    intro kind
    cases kind <;> simp [Token.Kind.trimmed]
  simp [significant, word]

/-- What a glyph behind trimmed tokens may be, if one may be behind them as they were: a line
end, or a space unless only a line end or nothing was there. -/
def Bounds (next : Option Glyph) (glyph : Glyph) : Prop :=
  Catcode.initial glyph = .endOfLine ∨
    (Catcode.initial glyph = .space ∧ ∃ other ∈ next, Catcode.initial other ≠ .endOfLine)

namespace Legible

variable {tokens : List Token} {next : Option Glyph} {kinds : List Token.Kind}

/-- The text of spaces, or what is behind them, starts with no line end if what is behind them
does not. -/
theorem exists_head_of_spaces (legible : Legible table tokens next kinds last)
    (plain : Plain table) (spaces : ∀ token ∈ tokens, token.isSpace = true)
    (inside : ∃ other ∈ next, Catcode.initial other ≠ .endOfLine) :
    ∃ other ∈ (Token.rawText tokens).head?.or next, Catcode.initial other ≠ .endOfLine := by
  cases legible with
  | nil => exact inside
  | @cons _ _ token tokens _ kinds spelled closes later =>
    have kind : token.kind = .space := of_decide_eq_true (spaces token List.mem_cons_self)
    obtain ⟨glyph, rest, written⟩ := List.exists_cons_of_ne_nil spelled.ne_nil
    rw [kind, written] at spelled
    refine ⟨glyph, by simp [written], ?_⟩
    have space := spelled.of_space glyph List.mem_cons_self
    rw [plain.space_iff] at space
    rw [space]
    decide
  | halves kind _ _ _ _ _ =>
    have space := spaces _ List.mem_cons_self
    simp [Token.isSpace, kind] at space

/-- The text of trimmed tokens starts as that of the tokens, unless they are spaces. -/
theorem head?_trimEnd (legible : Legible table tokens next kinds last)
    (code : tokens.all Token.isSpace = false) :
    (Token.rawText (Token.trimEnd tokens)).head? = (Token.rawText tokens).head? := by
  cases legible with
  | nil => cases code
  | @cons _ _ token tokens _ kinds spelled closes later =>
    rw [Token.trimEnd]
    split
    · rename_i spaces
      have noSpace : token.isSpace = false := by simpa [spaces] using code
      rw [if_neg (by simp [noSpace])]
      obtain ⟨glyph, rest, written⟩ := List.exists_cons_of_ne_nil spelled.ne_nil
      simp [spelled.head?_controlText, written]
    · obtain ⟨glyph, rest, written⟩ := List.exists_cons_of_ne_nil spelled.ne_nil
      simp [written]
  | @halves _ _ first second tokens _ kinds kind same spelled written also later =>
    obtain ⟨glyph, rest, text⟩ := List.exists_cons_of_ne_nil written
    have apart : (second :: tokens).all Token.isSpace = false := by
      simp [Token.isSpace, same]
    rw [Token.trimEnd, apart]
    simp [text]

/-- Trimming keeps a sequence legible, in front of what bounds it. -/
theorem trimEnd (legible : Legible table tokens next kinds last) (plain : Plain table)
    {behind : Option Glyph} (bounds : ∀ glyph ∈ behind, Bounds next glyph) :
    Legible table (Token.trimEnd tokens) behind kinds last := by
  induction legible with
  | nil => exact .nil _ _
  | @cons table last token tokens next kinds spelled closes later ih =>
    have ih := ih (plain.behind _) bounds
    rw [Token.trimEnd]
    split
    · rename_i spaces
      rw [List.all_eq_true] at spaces
      obtain ⟨rfl, rfl⟩ := later.eq_of_spaces spaces
      split
      · rename_i space
        have kind : token.kind = .space := of_decide_eq_true space
        rw [kind]
        exact .nil _ _
      · refine .cons spelled.controlText (fun glyph ahead => ?_) (.nil _ _)
        rw [Token.rawText_nil, List.head?_nil, Option.none_or] at ahead
        rcases bounds glyph ahead with ends | ⟨space, inside⟩
        · exact closes_lineEnd ((plain.lineEnd_iff _).mpr ends) _ _
        · obtain ⟨other, first, inside⟩ :=
            later.exists_head_of_spaces (plain.behind _) spaces inside
          refine (closes other first).space ?_ ?_
          · rwa [ne_eq, plain.lineEnd_iff]
          · rwa [plain.space_iff]
    · rename_i code
      rw [Bool.not_eq_true] at code
      refine .cons spelled (fun glyph ahead => closes glyph ?_) ih
      rw [later.head?_trimEnd code] at ahead
      -- The text of the rest is not empty, so what is behind it does not matter here.
      cases written : Token.rawText tokens with
      | nil =>
        cases later with
        | nil => cases code
        | cons spelled _ _ =>
          rw [Token.rawText_cons] at written
          exact absurd (List.append_eq_nil_iff.mp written).1 spelled.ne_nil
        | halves _ _ _ nonempty _ _ =>
          rw [Token.rawText_cons] at written
          exact absurd (List.append_eq_nil_iff.mp written).1 nonempty
      | cons head rest =>
        rw [written] at ahead
        exact ahead
  | @halves table last first second tokens next kinds kind same spelled written also later ih =>
    have ih := ih plain bounds
    have apart : (second :: tokens).all Token.isSpace = false := by
      simp [Token.isSpace, same]
    rw [Token.trimEnd, apart, if_neg (by decide), Token.trimEnd]
    split
    · rename_i spaces
      rw [List.all_eq_true] at spaces
      obtain ⟨rfl, rfl⟩ := later.eq_of_spaces spaces
      rw [if_neg (by simp [Token.isSpace, same])]
      have bare : second.controlText = second.raw := by simp [Token.controlText, same]
      rw [bare]
      exact .halves kind same spelled written also (.nil _ _)
    · exact .halves kind same spelled written also ih

/-- Sequences stay legible without the spaces at their ends. -/
theorem withoutSpaces {spaces : List Token}
    (legible : Legible table (tokens ++ spaces) next kinds last)
    (blank : ∀ token ∈ spaces, token.isSpace = true) :
    Legible table tokens ((Token.rawText spaces).head?.or next) kinds last := by
  obtain ⟨middle, before, after, rfl, earlier, later⟩ := legible.split fun token first => by
    have space : token.kind = .space :=
      of_decide_eq_true (blank token (List.mem_of_mem_head? first))
    simp [Token.isMathShift, space]
  obtain ⟨rfl, rfl⟩ := later.eq_of_spaces blank
  rwa [List.append_nil]

end Legible

/-- A comment starts with no white space. -/
theorem isBlank_of_comment {glyph : Glyph} (opens : Catcode.initial glyph = .comment) :
    glyph.isBlank = false := by
  unfold Catcode.initial at opens
  split at opens
  · cases opens
  · split at opens
    all_goals first | cases opens | skip
    · decide
    · split at opens <;> cases opens

/-- **Comments at the end.** What stands before a comment is legible in front of it, and the
comment is spelled behind. -/
theorem Legible.splitComment (plain : Plain table) {before : List Token} {comment : Token}
    (isComment : comment.isComment = true) {next : Option Glyph} {kinds : List Token.Kind}
    (legible : Legible table (before ++ [comment]) next kinds last) :
    ∃ (glyph : Glyph) (content : Text) (others : List Token.Kind),
      comment.raw = glyph :: content ∧ Catcode.initial glyph = .comment ∧
        kinds = others ++ [.comment content] ∧ Legible table before (some glyph) others last ∧
          Spelled last (.comment content) (glyph :: content) := by
  obtain ⟨content, kind⟩ := Token.kind_of_isComment isComment
  obtain ⟨middle, others, after, rfl, earlier, later⟩ := legible.split fun token front => by
    cases front
    simp [Token.isMathShift, kind]
  have plainMiddle := earlier.plain_last plain
  cases later with
  | @cons _ _ _ _ _ _ spelled closes later =>
    cases later
    rw [kind] at spelled ⊢
    obtain ⟨glyph, written, opens, _⟩ := spelled.of_comment
    rw [written] at spelled
    refine ⟨glyph, content, others, written, (plainMiddle.comment_iff _).mp opens, rfl, ?_, spelled⟩
    rw [Token.rawText_cons, written] at earlier
    exact earlier

/-- A comment without white space at its end means the same. -/
theorem significant_comment (plain : Plain table) {glyph : Glyph} {content : Text}
    (spelled : Spelled table (.comment content) (glyph :: content)) {rest : Text}
    (ahead : ∀ glyph ∈ rest.head?, Catcode.initial glyph = .endOfLine) :
    significant table (glyph :: content.stripEnd ++ rest) =
      (Token.Kind.comment content).trimmed :: significant table rest := by
  obtain ⟨_, written, opens, inside⟩ := spelled.of_comment
  cases written
  have short : Spelled table (.comment content.stripEnd) (glyph :: content.stripEnd) :=
    .comment opens fun other member =>
      inside other ((List.rdropWhile_prefix Glyph.isBlank content).subset member)
  have closed : ∀ next ∈ rest.head?,
      Closes table (.comment content.stripEnd) (glyph :: content.stripEnd) next :=
    fun next first => (plain.lineEnd_iff _).mpr (ahead next first)
  have again : content.stripEnd.stripEnd = content.stripEnd :=
    List.rdropWhile_idempotent Glyph.isBlank content
  rw [significant, reads_append plain short closed]
  simp [Token.Kind.trimmed, Token.Kind.isBlank, again, significant, behind]

/-- A token has a text. One that is no line end has none within, and one that is no blank starts
with none. -/
structure Neat (token : Token) : Prop where
  written : token.raw ≠ []
  within : token.isEndOfLine = false → ∀ glyph ∈ token.raw, Catcode.initial glyph ≠ .endOfLine
  starts : token.isBlank = false →
    ∃ glyph rest, token.controlText = glyph :: rest ∧ ¬IsWhite glyph
  comment : token.isComment = true → ∃ glyph rest, token.raw = glyph :: rest ∧
    glyph.isBlank = false ∧ ¬IsWhite glyph

namespace Spelled

variable {kind : Token.Kind} {raw : Text}

theorem within (spelled : Spelled table kind raw) (other : kind ≠ .endOfLine) :
    ∀ glyph ∈ raw, table.classify glyph ≠ .endOfLine := by
  cases spelled with
  | word escapes _ letters spaces =>
    simp only [List.cons_append, List.forall_mem_cons, List.forall_mem_append]
    exact ⟨by simp [escapes], fun glyph member => by simp [letters glyph member],
      fun glyph member => by simp [spaces glyph member]⟩
  | symbol escapes _ noLineEnd => simp [escapes, noLineEnd]
  | lone escapes => simp [escapes]
  | shift shifts => simp [shifts]
  | doubled shifts again => simp [shifts, again]
  | comment opens inside => exact List.forall_mem_cons.mpr ⟨by simp [opens], inside⟩
  | space _ spaces => exact fun glyph member => by simp [spaces glyph member]
  | lineEnd => exact absurd rfl other
  | alone alone =>
    rintro glyph member ends
    obtain rfl := List.mem_singleton.mp member
    rw [ends] at alone
    cases alone

theorem starts (spelled : Spelled table kind raw) (seen : kind.isBlank = false) :
    ∃ glyph rest, raw = glyph :: rest ∧ table.classify glyph ≠ .space ∧
      table.classify glyph ≠ .endOfLine := by
  cases spelled with
  | word escapes => exact ⟨_, _, rfl, by simp [escapes], by simp [escapes]⟩
  | symbol escapes => exact ⟨_, _, rfl, by simp [escapes], by simp [escapes]⟩
  | lone escapes => exact ⟨_, _, rfl, by simp [escapes], by simp [escapes]⟩
  | shift shifts => exact ⟨_, _, rfl, by simp [shifts], by simp [shifts]⟩
  | doubled shifts => exact ⟨_, _, rfl, by simp [shifts], by simp [shifts]⟩
  | comment opens => exact ⟨_, _, rfl, by simp [opens], by simp [opens]⟩
  | space => cases seen
  | lineEnd => cases seen
  | alone alone =>
    refine ⟨_, _, rfl, fun space => ?_, fun ends => ?_⟩
    · rw [space] at alone
      cases alone
    · rw [ends] at alone
      cases alone

end Spelled

variable (plain : Plain table)

include plain

theorem not_isWhite_of_classify {glyph : Glyph} (noSpace : table.classify glyph ≠ .space)
    (noLineEnd : table.classify glyph ≠ .endOfLine) : ¬IsWhite glyph
  | .inl space => noSpace ((plain.space_iff glyph).mpr space)
  | .inr ends => noLineEnd ((plain.lineEnd_iff glyph).mpr ends)

theorem Spelled.neat {token : Token} (spelled : Spelled table token.kind token.raw) :
    Neat token where
  written := spelled.ne_nil
  within other glyph member ends :=
    spelled.within (by simpa [Token.isEndOfLine] using other) glyph member
      ((plain.lineEnd_iff glyph).mpr ends)
  starts seen := by
    obtain ⟨glyph, rest, written, noSpace, noLineEnd⟩ := spelled.controlText.starts seen
    exact ⟨glyph, rest, written, not_isWhite_of_classify plain noSpace noLineEnd⟩
  comment isComment := by
    unfold Token.isComment at isComment
    split at isComment
    · rename_i kind
      rw [kind] at spelled
      obtain ⟨glyph, written, opens, -⟩ := spelled.of_comment
      exact ⟨glyph, _, written, isBlank_of_comment ((plain.comment_iff glyph).mp opens),
        not_isWhite_of_classify plain (by simp [opens]) (by simp [opens])⟩
    · cases isComment

/-- A half of a doubled math shift. -/
theorem neat_half {half : Token} {glyph : Glyph} (kind : half.kind = .mathShift false)
    (raw : half.raw = [glyph]) (shifts : table.classify glyph = .mathShift) : Neat half := by
  apply Spelled.neat plain
  rw [kind, raw]
  exact .shift shifts

theorem Legible.neat {tokens : List Token} {next : Option Glyph} {kinds : List Token.Kind}
    (legible : Legible table tokens next kinds last) : ∀ token ∈ tokens, Neat token := by
  induction legible with
  | nil => exact List.forall_mem_nil _
  | cons spelled _ _ ih =>
    exact List.forall_mem_cons.mpr ⟨spelled.neat plain, ih (plain.behind _)⟩
  | @halves table _ one other _ _ _ kind same spelled written also _ ih =>
    obtain ⟨glyph, second, raw, shifts, again⟩ := spelled.of_doubled
    obtain ⟨front, rest, first⟩ := List.exists_cons_of_ne_nil written
    obtain ⟨back, last, behind⟩ := List.exists_cons_of_ne_nil also
    rw [first, behind] at raw
    have parts : rest = [] ∧ last = [] ∧ front = glyph ∧ back = second := by
      cases rest with
      | nil =>
        simp only [List.cons_append, List.nil_append, List.cons.injEq] at raw
        exact ⟨rfl, raw.2.2, raw.1, raw.2.1⟩
      | cons => simp at raw
    obtain ⟨rfl, rfl, rfl, rfl⟩ := parts
    exact List.forall_mem_cons.mpr ⟨neat_half plain kind first shifts,
      List.forall_mem_cons.mpr ⟨neat_half plain same behind again, ih plain⟩⟩

end Lexer

end TexSource
