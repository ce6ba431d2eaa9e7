import TexSource.Proofs.Document.Respacing
import TexSource.Proofs.Lexer.Cutting

/-!
# Tokens with blanks left out

Tokens stay the same where blanks are left out: without those that belong to them, without the white
space at the end of a comment (`Token.Same.trimmed`), and in a sequence without the blanks at its
end (`Parser.Respaced.trimEnd`) or the spaces at the start of a line
(`Parser.Respaced.of_dropSpaces`). Each token of a text is a blank or is none
(`Lexer.Cuts.sorted`).
-/

namespace TexSource

namespace Token

variable {token : Token}

theorem core_of_isComment (isComment : token.isComment = true) :
    token.core = token.raw.stripEnd := by
  cases kind : token.kind <;> simp_all [core, Token.isComment]

theorem core_of_code (code : token.isComment = false) : token.core = token.controlText := by
  cases kind : token.kind <;> simp_all [core, isComment]

theorem controlText_of_isComment (isComment : token.isComment = true) :
    token.controlText = token.raw := by
  cases kind : token.kind <;> simp_all [controlText, Token.isComment]

theorem controlText_of_isEndGroup (closes : token.isEndGroup = true) :
    token.controlText = token.raw := by
  cases kind : token.kind <;> simp_all [controlText, isEndGroup]

/-- A token with other blanks behind it: spaces are replaced, and so are those that belong to a
control word. -/
def widened (token : Token) (blanks : Text) : Token :=
  { token with raw := (if token.isSpace then [] else token.controlText) ++ blanks }

/-- Only control words have blanks. -/
theorem exists_word (owned : token.raw ≠ token.controlText) :
    ∃ name, token.kind = .controlWord name ∧ token.controlText.length = 1 + name.length := by
  unfold controlText at owned ⊢
  split
  · rename_i name kind
    refine ⟨name, kind, ?_⟩
    rw [kind] at owned
    rw [List.length_take, Nat.min_eq_left]
    by_contra short
    exact owned (List.take_of_length_le (by omega)).symm
  · rename_i other
    refine absurd rfl (?_ : ¬token.raw = token.raw)
    split at owned
    · exact absurd ‹_› (other _)
    · exact owned

namespace Same

/-- A token that is no blank. -/
theorem refl (solid : token.IsSolid) : token.Same token :=
  ⟨solid, solid, rfl, rfl⟩

/-- A token without the blanks that belong to it. -/
theorem controlText (solid : token.IsSolid) :
    token.Same { token with raw := token.controlText } := by
  have core : ({ token with raw := token.controlText } : Token).core = token.core := by
    cases kind : token.kind <;>
      simp only [Token.core, Token.controlText, kind, List.take_take, Nat.min_self]
  refine ⟨solid, ⟨solid.solid, ?_, fun closes => ?_⟩, rfl, core⟩
  · rw [core]
    cases code : token.isComment with
    | true =>
      rw [controlText_of_isComment code]
      exact solid.edged
    | false =>
      rw [core_of_code code]
      exact ⟨[], by simp⟩
  · have closes : token.isEndGroup = true := closes
    rw [controlText_of_isEndGroup closes]
    exact solid.closes closes

/-- A comment without white space at its end. -/
theorem trimmed (solid : token.IsSolid) (isComment : token.isComment = true) :
    token.Same token.trimmed := by
  have still : token.trimmed.isComment = true := by
    cases kind : token.kind <;> simp_all [Token.isComment, Token.trimmed, Kind.trimmed]
  have twice : token.raw.stripEnd.stripEnd = token.raw.stripEnd :=
    List.rdropWhile_idempotent Glyph.isBlank token.raw
  have kind : token.trimmed.kind.trimmed = token.kind.trimmed := by
    unfold Token.isComment at isComment
    split at isComment
    · rename_i content kind
      have again : content.stripEnd.stripEnd = content.stripEnd :=
        List.rdropWhile_idempotent Glyph.isBlank content
      simp [Token.trimmed, Kind.trimmed, kind, again]
    · cases isComment
  have core : token.trimmed.core = token.core := by
    rw [core_of_isComment still, core_of_isComment isComment]
    exact twice
  refine ⟨solid, ⟨?_, ⟨[], ?_⟩, fun closes => ?_⟩, kind, core⟩
  · cases kind : token.kind <;>
      simp_all [Token.isComment, Token.trimmed, Kind.trimmed, Token.isBlank, Kind.isBlank]
  · rw [core_of_isComment still]
    exact ⟨by rw [List.append_nil]; exact twice.symm, List.forall_mem_nil _⟩
  · cases kind : token.trimmed.kind <;> simp_all [Token.isComment, Token.isEndGroup]

/-- A control word with other blanks. -/
theorem widened (solid : token.IsSolid) (owned : token.raw ≠ token.controlText) {blanks : Text}
    (white : ∀ glyph ∈ blanks, glyph.isBlank = true) : token.Same (token.widened blanks) := by
  obtain ⟨name, kind, long⟩ := exists_word owned
  have raw : (token.widened blanks).raw = token.controlText ++ blanks := by
    simp [Token.widened, isSpace, kind]
  have core : (token.widened blanks).core = token.controlText := by
    have same : (token.widened blanks).kind = .controlWord name := kind
    rw [Token.core, same]
    simp only [Token.controlText, same, raw]
    rw [← long]
    simp [Token.controlText, kind]
  refine ⟨solid, ⟨solid.solid, ⟨blanks, ?_, white⟩, fun closes => ?_⟩, rfl, ?_⟩
  · rw [core, raw]
  · have closes : token.isEndGroup = true := closes
    simp [isEndGroup, kind] at closes
  · rw [core, Token.core, kind]

end Same

end Token

namespace Parser

variable {gaps : Option (Gap × Gap)} {tokens others : List Token}

/-- What stands before the first tokens of two sequences is of one kind. -/
def Level (gaps : Option (Gap × Gap)) : Prop :=
  ∀ pair ∈ gaps, pair.1 = pair.2

theorem level_pair {gap other : Gap} (same : gap = other) : Level (some (gap, other)) := by
  rintro _ ⟨⟩
  exact same

/-- What stands before the first tokens of two lines. -/
def Fresh (gaps : Option (Gap × Gap)) : Prop :=
  gaps = none ∨ gaps = some (.lineEnd, .lineEnd)

theorem Fresh.level (fresh : Fresh gaps) : Level gaps := by
  rcases fresh with rfl | rfl
  · exact fun _ absent => absurd absent (Option.not_mem_none _)
  · rintro _ ⟨⟩
    rfl

theorem Level.past (level : Level gaps) {blank other : Token}
    (same : other.isEndOfLine = blank.isEndOfLine) :
    Level (gaps.map fun pair => (pair.1.past blank, pair.2.past other)) := by
  intro pair present
  obtain ⟨before, found, rfl⟩ := Option.map_eq_some_iff.mp present
  simp only [Gap.past, same, level before found]

theorem fresh_past (gaps : Option (Gap × Gap)) {blank other : Token}
    (ends : blank.isEndOfLine = true) (also : other.isEndOfLine = true) :
    Fresh (gaps.map fun pair => (pair.1.past blank, pair.2.past other)) := by
  cases gaps with
  | none => exact .inl rfl
  | some pair => exact .inr (by simp [Gap.past, ends, also])

/-- More blanks at the start of a line. -/
theorem Fresh.left (fresh : Fresh gaps) (blank : Token) :
    Fresh (gaps.map fun pair => (pair.1.past blank, pair.2)) := by
  rcases fresh with rfl | rfl
  · exact .inl rfl
  · exact .inr (by simp [Gap.past])

theorem Fresh.right (fresh : Fresh gaps) (blank : Token) :
    Fresh (gaps.map fun pair => (pair.1, pair.2.past blank)) := by
  rcases fresh with rfl | rfl
  · exact .inl rfl
  · exact .inr (by simp [Gap.past])

namespace Respaced

/-- Two blanks. -/
theorem blanks {ends : Option (Gap × Gap)} {blank other : Token} (gap : blank.IsGap)
    (also : other.IsGap)
    (later : Respaced (gaps.map fun pair => (pair.1.past blank, pair.2.past other)) tokens others
      ends) : Respaced gaps (blank :: tokens) (other :: others) ends :=
  .left gap (.right also (by simpa [Function.comp_def] using later))

/-- Tokens as they are, and more behind them. -/
theorem prepend (front : List Token) (level : Level gaps)
    (sorted : ∀ token ∈ front, token.IsGap ∨ token.IsSolid)
    (later : ∀ {gaps}, Level gaps → ∃ ends, Respaced gaps tokens others ends) :
    ∃ ends, Respaced gaps (front ++ tokens) (front ++ others) ends := by
  induction front generalizing gaps with
  | nil => exact later level
  | cons token rest ih =>
    rw [List.forall_mem_cons] at sorted
    rcases sorted.1 with gap | solid
    · obtain ⟨ends, respaced⟩ :=
        ih (level.past (rfl : token.isEndOfLine = token.isEndOfLine)) sorted.2
      exact ⟨ends, .blanks gap gap respaced⟩
    · obtain ⟨ends, respaced⟩ := ih (level_pair (rfl : Gap.behind token = _)) sorted.2
      exact ⟨ends, .token level (.refl solid) respaced⟩

/-- Blanks on the left. -/
theorem lefts (blanks : List Token) (gap : ∀ blank ∈ blanks, blank.IsGap) :
    ∃ ends, Respaced gaps blanks [] ends := by
  induction blanks generalizing gaps with
  | nil => exact ⟨_, .nil _⟩
  | cons blank rest ih =>
    rw [List.forall_mem_cons] at gap
    obtain ⟨ends, respaced⟩ := ih gap.2
    exact ⟨ends, .left gap.1 respaced⟩

/-- Tokens without the blanks at their end. -/
theorem trimEnd (level : Level gaps) (sorted : ∀ token ∈ tokens, token.IsGap ∨ token.IsSolid) :
    ∃ ends, Respaced gaps tokens (Token.trimEnd tokens) ends := by
  induction tokens generalizing gaps with
  | nil => exact ⟨_, .nil _⟩
  | cons token rest ih =>
    rw [List.forall_mem_cons] at sorted
    rw [Token.trimEnd]
    split
    · rename_i spaces
      have blank : ∀ other ∈ rest, other.IsGap := fun other member =>
        .of_isBlank (sorted.2 other member)
          (Token.isBlank_iff.mpr (.inl (List.all_eq_true.mp spaces other member)))
      obtain gap | solid := sorted.1
      · split
        · exact lefts (token :: rest) (List.forall_mem_cons.mpr ⟨gap, blank⟩)
        · obtain ⟨ends, respaced⟩ := lefts rest blank
          have bare : token.controlText = token.raw := by
            have blank := gap.blank
            cases kind : token.kind <;>
              simp_all [Token.isBlank, Token.Kind.isBlank, Token.controlText]
          refine ⟨ends, .blanks gap ?_ respaced⟩
          rw [bare]
          exact gap
      · rw [if_neg (by simp [Token.isSpace_of_solid solid.solid])]
        obtain ⟨ends, respaced⟩ := lefts rest blank
        exact ⟨ends, .token level (.controlText solid) respaced⟩
    · obtain gap | solid := sorted.1
      · obtain ⟨ends, respaced⟩ :=
          ih (level.past (rfl : token.isEndOfLine = token.isEndOfLine)) sorted.2
        exact ⟨ends, .blanks gap gap respaced⟩
      · obtain ⟨ends, respaced⟩ := ih (level_pair (rfl : Gap.behind token = _)) sorted.2
        exact ⟨ends, .token level (.refl solid) respaced⟩

/-- Blanks in front of a line. -/
theorem lefts_append (blanks : List Token) (gap : ∀ blank ∈ blanks, blank.IsGap)
    (fresh : Fresh gaps) (later : ∀ {gaps}, Fresh gaps → ∃ ends, Respaced gaps tokens others ends) :
    ∃ ends, Respaced gaps (blanks ++ tokens) others ends := by
  induction blanks generalizing gaps with
  | nil => exact later fresh
  | cons blank rest ih =>
    rw [List.forall_mem_cons] at gap
    obtain ⟨ends, respaced⟩ := ih gap.2 (fresh.left blank)
    exact ⟨ends, .left gap.1 respaced⟩

/-- Without the spaces at the start of a line. -/
theorem of_dropSpaces (fresh : Fresh gaps)
    (sorted : ∀ token ∈ tokens, token.IsGap ∨ token.IsSolid)
    (later : ∀ {gaps}, Fresh gaps →
      ∃ ends, Respaced gaps (tokens.dropWhile Token.isSpace) others ends) :
    ∃ ends, Respaced gaps tokens others ends := by
  rw [← List.takeWhile_append_dropWhile (p := Token.isSpace) (l := tokens)]
  refine lefts_append _ (fun blank member => ?_) fresh later
  have space := List.mem_takeWhile_imp member
  exact .of_isBlank (sorted blank ((List.takeWhile_sublist _).subset member))
    (Token.isBlank_iff.mpr (.inl space))

end Respaced

end Parser

namespace Lexer

variable {table last : Catcode.Table} {tokens : List Token} {next : Option Glyph}

/-- What the lexer takes for white space is white space. -/
theorem IsWhite.isBlank {glyph : Glyph} (white : IsWhite glyph) : glyph.isBlank = true := by
  cases glyph with
  | byte offset => rcases white with space | ends <;> simp [Catcode.initial] at *
  | char character =>
    have listed : character = '\n' ∨ character = '\r' ∨ character = ' ' ∨ character = '\t' := by
      unfold IsWhite Catcode.initial at white
      split at white
      · simp_all
      · split at white <;> simp_all
        split at white <;> simp_all
    rcases listed with rfl | rfl | rfl | rfl <;> decide

/-- The end of a group starts with no white space. -/
theorem isBlank_of_endGroup {glyph : Glyph} (ends : Catcode.initial glyph = .endGroup) :
    glyph.isBlank = false := by
  unfold Catcode.initial at ends
  split at ends
  · cases ends
  · split at ends
    all_goals first | cases ends | skip
    · decide
    · split at ends <;> cases ends

theorem Sharp.isGap (plain : Plain table) {token : Token}
    (sharp : Sharp table token.kind token.raw) (blank : token.isBlank = true) : token.IsGap where
  blank := blank
  written := sharp.spelled.ne_nil
  white glyph member := by
    have spelled := sharp.spelled
    rcases Token.isBlank_iff.mp blank with space | ends
    · rw [of_decide_eq_true space] at spelled
      exact IsWhite.isBlank (.inl ((plain.space_iff glyph).mp (spelled.of_space glyph member)))
    · rw [of_decide_eq_true ends] at spelled
      generalize token.raw = raw at spelled member
      cases spelled with
      | lineEnd _ ends =>
        exact IsWhite.isBlank (.inr ((plain.lineEnd_iff glyph).mp (ends glyph member)))
      | alone alone => cases isAlone_of_aloneKind? alone

theorem Sharp.isSolid (plain : Plain table) {token : Token}
    (sharp : Sharp table token.kind token.raw) (solid : token.isBlank = false) : token.IsSolid where
  solid := solid
  edged := by
    cases code : token.isComment with
    | true =>
      rw [Token.core_of_isComment code]
      exact Text.exists_stripEnd token.raw
    | false =>
      rw [Token.core_of_code code]
      by_cases bare : token.raw = token.controlText
      · exact ⟨[], by rw [← bare, List.append_nil], List.forall_mem_nil _⟩
      · obtain ⟨name, kind, -⟩ := Token.exists_word bare
        have spelled := sharp.spelled
        rw [kind] at spelled
        generalize written : token.raw = raw at spelled
        cases spelled with
        | @word escape _ blanks escapes named letters spaces =>
          refine ⟨blanks, ?_, fun glyph member =>
            IsWhite.isBlank (.inl ((plain.space_iff glyph).mp (spaces glyph member)))⟩
          rw [Token.controlText, kind, written]
          simp only
          rw [Nat.add_comm, List.cons_append, List.take_succ_cons, List.take_left]
          rfl
        | alone alone => cases isAlone_of_aloneKind? alone
  closes ends := by
    have spelled := sharp.spelled
    obtain ⟨glyph, kind⟩ : ∃ glyph, token.kind = .endGroup glyph := by
      unfold Token.isEndGroup at ends
      split at ends
      · exact ⟨_, ‹_›⟩
      · cases ends
    rw [kind] at spelled
    generalize token.raw = raw at spelled
    cases spelled with
    | @alone glyph _ alone =>
      refine ⟨glyph, [], rfl, ?_⟩
      have category : table.classify glyph = .endGroup := by
        cases category : table.classify glyph <;> rw [category] at alone <;> cases alone
      exact isBlank_of_endGroup ((plain.classify_eq_iff (by decide) (by decide) glyph).mp category)

theorem Cuts.sorted (plain : Plain table) (cuts : Cuts table tokens next last) :
    ∀ token ∈ tokens, token.IsGap ∨ token.IsSolid := by
  induction cuts with
  | nil => exact List.forall_mem_nil _
  | @cons table _ token _ _ sharp _ _ ih =>
    refine List.forall_mem_cons.mpr ⟨?_, ih (plain.behind _)⟩
    cases blank : token.isBlank with
    | true => exact .inl (sharp.isGap plain blank)
    | false => exact .inr (sharp.isSolid plain blank)

end Lexer

end TexSource
