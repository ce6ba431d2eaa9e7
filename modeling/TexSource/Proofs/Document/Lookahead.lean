import TexSource.Document.Construct

/-!
# What is seen of the tokens ahead

Of the tokens ahead the parser looks at their kinds, and at the text of the name behind `\end`. So a
change that keeps both makes no difference to what is counted of them.
-/

namespace TexSource

/-- A change to tokens that keeps what they are and how they are written. -/
structure Token.KeepsText (change : Token → Token) : Prop where
  kind : ∀ token, (change token).kind = token.kind
  raw : ∀ token, (change token).raw = token.raw

namespace Token.KeepsText

variable {change : Token → Token} (keeps : KeepsText change) (token : Token)

include keeps

theorem isSpace : (change token).isSpace = token.isSpace := by
  rw [Token.isSpace, keeps.kind, Token.isSpace]

theorem isEndOfLine : (change token).isEndOfLine = token.isEndOfLine := by
  rw [Token.isEndOfLine, keeps.kind, Token.isEndOfLine]

theorem isComment : (change token).isComment = token.isComment := by
  rw [Token.isComment, keeps.kind, Token.isComment]

theorem isBeginGroup : (change token).isBeginGroup = token.isBeginGroup := by
  rw [Token.isBeginGroup, keeps.kind, Token.isBeginGroup]

theorem isEndGroup : (change token).isEndGroup = token.isEndGroup := by
  rw [Token.isEndGroup, keeps.kind, Token.isEndGroup]

theorem isControlWord (word : Text) :
    (change token).isControlWord word = token.isControlWord word := by
  rw [Token.isControlWord, keeps.kind, Token.isControlWord]

theorem rawText (tokens : List Token) :
    Token.rawText (tokens.map change) = Token.rawText tokens := by
  simp [Token.rawText, List.flatMap_map, keeps.raw]

end Token.KeepsText

namespace Parser

section

variable {change : Token → Token} (keeps : Token.KeepsText change)

include keeps

theorem spacesAhead_map (tokens : List Token) :
    spacesAhead (tokens.map change) = spacesAhead tokens := by
  simp [spacesAhead, List.takeWhile_map, Function.comp_def, keeps.isSpace]

theorem gapAhead_map (lineEndSeen : Bool) (tokens : List Token) :
    gapAhead lineEndSeen (tokens.map change) = gapAhead lineEndSeen tokens := by
  fun_induction gapAhead lineEndSeen tokens <;> rw [gapAhead.eq_def] <;>
    simp_all [keeps.isSpace, keeps.isComment, keeps.isEndOfLine]

theorem flatLength_map (depth : Nat) (tokens : List Token) :
    flatLength depth (tokens.map change) = flatLength depth tokens := by
  fun_induction flatLength depth tokens <;>
    simp_all [flatLength, keeps.isEndGroup, keeps.isBeginGroup]

theorem startsWithEnd_map (name : Text) (tokens : List Token) :
    startsWithEnd name (tokens.map change) = startsWithEnd name tokens := by
  cases tokens with
  | nil => rfl
  | cons token rest =>
    rw [List.map_cons, startsWithEnd, startsWithEnd, List.dropWhile_map]
    simp only [Function.comp_def, keeps.isSpace, keeps.isControlWord]
    cases rest.dropWhile Token.isSpace with
    | nil => rfl
    | cons brace inner =>
      simp [List.takeWhile_map, Function.comp_def, keeps.isBeginGroup, keeps.isEndGroup,
        keeps.rawText]

theorem verbatimLength_map (name : Text) (tokens : List Token) :
    verbatimLength name (tokens.map change) = verbatimLength name tokens := by
  induction tokens with
  | nil => rfl
  | cons token rest ih =>
    rw [List.map_cons, verbatimLength, verbatimLength, ← List.map_cons, startsWithEnd_map keeps, ih]

end

/-- Whether an `\end` stands ahead is settled by the tokens up to the next closing brace. -/
theorem startsWithEnd_append {closer : Token} (closes : closer.isEndGroup = true) (name : Text)
    (tokens behind : List Token) :
    startsWithEnd name (tokens ++ closer :: behind) = startsWithEnd name (tokens ++ [closer]) := by
  obtain ⟨glyph, kind⟩ : ∃ glyph, closer.kind = .endGroup glyph := by
    unfold Token.isEndGroup at closes
    split at closes
    · exact ⟨_, ‹_›⟩
    · cases closes
  have noSpace : closer.isSpace = false := by simp [Token.isSpace, kind]
  cases tokens with
  | nil => simp [startsWithEnd, Token.isControlWord, kind]
  | cons token rest =>
    rw [List.cons_append, List.cons_append, startsWithEnd, startsWithEnd, List.dropWhile_append,
      List.dropWhile_append]
    cases rest.dropWhile Token.isSpace with
    | nil => simp [noSpace, Token.isBeginGroup, kind]
    | cons brace inner => simp [List.takeWhile_append, closes]

/-- A verbatim body that ends before a closing brace has the same length whatever stands behind. -/
theorem verbatimLength_append {closer : Token} (closes : closer.isEndGroup = true) (name : Text)
    {tokens : List Token} (inside : verbatimLength name (tokens ++ [closer]) ≤ tokens.length)
    (behind : List Token) :
    verbatimLength name (tokens ++ closer :: behind) =
      verbatimLength name (tokens ++ [closer]) := by
  induction tokens with
  | nil =>
    have noEnd : startsWithEnd name [closer] = false := by
      cases closer with
      | mk kind => cases kind <;> first | rfl | cases closes
    simp [verbatimLength, noEnd] at inside
  | cons token tokens ih =>
    have same := startsWithEnd_append closes name (token :: tokens) behind
    rw [List.cons_append, List.cons_append, verbatimLength, verbatimLength] at *
    rw [same]
    split
    · rfl
    · rename_i goesOn
      rw [if_neg goesOn] at inside
      rw [ih (Nat.le_of_succ_le_succ inside)]

end Parser

end TexSource
