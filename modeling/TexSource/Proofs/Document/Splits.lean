import TexSource.Document.Construct

/-!
# Splitting doubled math shifts

The only change that reading a document makes to its tokens is that doubled math shifts
are split into two single ones (`Parser.Splits`). The text stays the same
(`Parser.Splits.rawText_eq`).
-/

namespace TexSource

namespace Parser

/-- Tokens in which some doubled math shifts are replaced by their halves. -/
inductive Splits : List Token → List Token → Prop where
  | nil : Splits [] []
  | keep (token : Token) {tokens others : List Token} (later : Splits tokens others) :
      Splits (token :: tokens) (token :: others)
  | split {token : Token} (doubled : token.kind = .mathShift true) {tokens others : List Token}
      (later : Splits tokens others) :
      Splits (token :: tokens) ((splitShift token).1 :: (splitShift token).2 :: others)

theorem raw_splitShift (token : Token) :
    (splitShift token).1.raw ++ (splitShift token).2.raw = token.raw :=
  List.take_append_drop 1 token.raw

/-- A test does not tell a doubled math shift from its first half. -/
def Blind (test : Token → Bool) : Prop :=
  ∀ token, token.kind = .mathShift true → test (splitShift token).1 = test token

theorem blind_isBeginGroup : Blind Token.isBeginGroup := by
  intro token doubled
  simp [Token.isBeginGroup, splitShift, doubled]

theorem blind_isCharacter (character : Char) : Blind (Token.isCharacter · character) := by
  intro token doubled
  simp [Token.isCharacter, splitShift, doubled]

theorem blind_isControlWord (name : Text) : Blind (Token.isControlWord · name) := by
  intro token doubled
  simp [Token.isControlWord, splitShift, doubled]

theorem blind_cannotStartArgument : Blind cannotStartArgument := by
  intro token doubled
  simp [cannotStartArgument, Token.isMathShift, splitShift, doubled]

namespace Splits

variable {tokens others finer : List Token}

theorem refl (tokens : List Token) : Splits tokens tokens := by
  induction tokens with
  | nil => exact .nil
  | cons token rest ih => exact .keep token ih

theorem append {rest later : List Token} (first : Splits tokens others)
    (second : Splits rest later) :
    Splits (tokens ++ rest) (others ++ later) := by
  induction first with
  | nil => exact second
  | keep token _ ih => exact .keep token ih
  | split doubled _ ih => exact .split doubled ih

/-- Single math shifts are not split again. -/
theorem trans (first : Splits tokens others) (second : Splits others finer) :
    Splits tokens finer := by
  induction first generalizing finer with
  | nil => exact second
  | keep token _ ih =>
    cases second with
    | keep _ later => exact .keep token (ih later)
    | split doubled later => exact .split doubled (ih later)
  | split doubled _ ih =>
    cases second with
    | split again => cases again
    | keep _ second =>
      cases second with
      | split again => cases again
      | keep _ later => exact .split doubled (ih later)

theorem rawText_eq (splits : Splits tokens others) :
    Token.rawText others = Token.rawText tokens := by
  induction splits with
  | nil => rfl
  | keep token _ ih => simp [ih]
  | @split token _ _ _ _ ih =>
    rw [Token.rawText_cons, Token.rawText_cons, ih, ← List.append_assoc, raw_splitShift]
    rfl

/-- What holds of all tokens, and of the halves of those of which it holds, holds of all
tokens after splitting. -/
theorem forall_mem {property : Token → Prop} (splits : Splits tokens others)
    (halves : ∀ token, token.kind = .mathShift true → property token →
      property (splitShift token).1 ∧ property (splitShift token).2)
    (holds : ∀ token ∈ tokens, property token) : ∀ token ∈ others, property token := by
  induction splits with
  | nil => exact nofun
  | keep token _ ih =>
    rw [List.forall_mem_cons] at holds ⊢
    exact ⟨holds.1, ih holds.2⟩
  | @split token doubled _ _ _ ih =>
    rw [List.forall_mem_cons] at holds
    rw [List.forall_mem_cons, List.forall_mem_cons]
    obtain ⟨first, second⟩ := halves token doubled holds.1
    exact ⟨first, second, ih holds.2⟩

/-- Splitting the front does not change the text. -/
theorem splitFront (tokens : List Token) : Splits tokens (splitFront tokens) := by
  cases tokens with
  | nil => exact .nil
  | cons token rest =>
    simp only [Parser.splitFront]
    split
    · rename_i doubled
      exact .split doubled (.refl rest)
    · exact .refl _

/-- Nothing but nothing comes from splitting nothing. -/
theorem eq_nil (splits : Splits [] others) : others = [] := by
  cases splits
  rfl

/-- A token that is no doubled math shift stays in its place. -/
theorem cons_inv {token : Token} (single : token.kind ≠ .mathShift true)
    (splits : Splits (token :: tokens) others) :
    ∃ later, others = token :: later ∧ Splits tokens later := by
  cases splits with
  | keep _ later => exact ⟨_, rfl, later⟩
  | split doubled _ => contradiction

/-- Splitting after the first tokens. -/
theorem after_take {count : Nat} {left : List Token} (splits : Splits (tokens.drop count) left) :
    Splits tokens (tokens.take count ++ left) := by
  have whole := (refl (tokens.take count)).append splits
  rwa [List.take_append_drop] at whole

variable {test : Token → Bool}

/-- A blind test gives the same behind equally many tokens. -/
theorem test_getD (distance : Nat) (splits : Splits (tokens.drop distance) (others.drop distance))
    {test : Token → Bool} (blind : Blind test) (last : Token) :
    test (others.getD distance last) = test (tokens.getD distance last) := by
  simp only [List.getD_eq_getElem?_getD, ← List.head?_drop]
  generalize tokens.drop distance = first at splits ⊢
  generalize others.drop distance = second at splits ⊢
  cases splits with
  | nil => rfl
  | keep token later => rfl
  | split doubled later => exact blind _ doubled

/-- What a test skips at the front stays the same, if it does not skip math shifts. -/
theorem takeWhile_eq (splits : Splits tokens others)
    (stops : ∀ token, token.isMathShift = true → test token = false) :
    others.takeWhile test = tokens.takeWhile test := by
  induction splits with
  | nil => rfl
  | keep token later ih => simp only [List.takeWhile_cons, ih]
  | @split token doubled _ _ later ih =>
    rw [List.takeWhile_cons_of_neg, List.takeWhile_cons_of_neg]
    · simp [stops token (by simp [Token.isMathShift, doubled])]
    · simp [stops (splitShift token).1 rfl]

theorem dropWhile (splits : Splits tokens others)
    (stops : ∀ token, token.isMathShift = true → test token = false) :
    Splits (tokens.dropWhile test) (others.dropWhile test) := by
  induction splits with
  | nil => exact .nil
  | keep token later ih =>
    cases passes : test token with
    | true => simpa [passes] using ih
    | false => simpa [passes] using .keep token later
  | @split token doubled _ _ later ih =>
    have whole := stops token (by simp [Token.isMathShift, doubled])
    have half := stops (splitShift token).1 rfl
    simpa [whole, half] using .split doubled later

/-- What a test that takes math shifts takes at the front is split as well. -/
theorem takeWhile (splits : Splits tokens others)
    (takes : ∀ token, token.isMathShift = true → test token = true) :
    Splits (tokens.takeWhile test) (others.takeWhile test) := by
  induction splits with
  | nil => exact .nil
  | keep token later ih =>
    cases passes : test token with
    | true => simpa [passes] using .keep token ih
    | false => simpa [passes] using .nil
  | @split token doubled _ _ later ih =>
    have whole := takes token (by simp [Token.isMathShift, doubled])
    have first := takes (splitShift token).1 rfl
    have second := takes (splitShift token).2 rfl
    simpa [whole, first, second] using .split doubled ih

end Splits

theorem kind_of_isMathShift {token : Token} (shift : token.isMathShift = true) :
    ∃ doubled, token.kind = .mathShift doubled := by
  unfold Token.isMathShift at shift
  split at shift
  · exact ⟨_, ‹_›⟩
  · cases shift

theorem isSpace_of_isMathShift (token : Token) (shift : token.isMathShift = true) :
    token.isSpace = false := by
  obtain ⟨doubled, kind⟩ := kind_of_isMathShift shift
  simp [Token.isSpace, kind]

theorem isEndGroup_of_isMathShift (token : Token) (shift : token.isMathShift = true) :
    token.isEndGroup = false := by
  obtain ⟨doubled, kind⟩ := kind_of_isMathShift shift
  simp [Token.isEndGroup, kind]

namespace Splits

variable {tokens others : List Token}

theorem spacesAhead_eq (splits : Splits tokens others) : spacesAhead others = spacesAhead tokens :=
  congrArg List.length (splits.takeWhile_eq isSpace_of_isMathShift)

theorem drop_spacesAhead (splits : Splits tokens others) :
    Splits (tokens.drop (spacesAhead tokens)) (others.drop (spacesAhead tokens)) := by
  have behind : ∀ list : List Token,
      list.drop (spacesAhead list) = list.dropWhile Token.isSpace := by
    intro list
    conv => enter [1, 2]; rw [← List.takeWhile_append_dropWhile (p := Token.isSpace) (l := list)]
    exact List.drop_left
  have dropped := splits.dropWhile isSpace_of_isMathShift
  rwa [← behind, ← behind, splits.spacesAhead_eq] at dropped

/-- A blind test gives the same behind spaces. -/
theorem test_behindSpaces (splits : Splits tokens others) {test : Token → Bool}
    (blind : Blind test) (last : Token) :
    test (others.getD (spacesAhead others) last) =
      test (tokens.getD (spacesAhead tokens) last) := by
  rw [splits.spacesAhead_eq]
  exact test_getD _ splits.drop_spacesAhead blind last

/-- Whether an environment ends here does not depend on how its text is split. -/
theorem startsWithEnd_eq (name : Text) (splits : Splits tokens others) :
    startsWithEnd name others = startsWithEnd name tokens := by
  cases splits with
  | nil => rfl
  | keep token later =>
    have behind := later.dropWhile isSpace_of_isMathShift
    unfold startsWithEnd
    dsimp only
    congr 1
    generalize List.dropWhile Token.isSpace _ = first at behind ⊢
    generalize List.dropWhile Token.isSpace _ = second at behind ⊢
    cases behind with
    | nil => rfl
    | keep brace inner =>
      have takes : ∀ token : Token, token.isMathShift = true → (!token.isEndGroup) = true :=
        fun token shift => by simp [isEndGroup_of_isMathShift token shift]
      simp only [(inner.takeWhile takes).rawText_eq]
    | split doubled _ => simp [Token.isBeginGroup, splitShift, doubled]
  | split doubled later => simp [startsWithEnd, Token.isControlWord, splitShift, doubled]

/-- What is skipped before an argument has no math shift. -/
theorem gapAhead_eq (splits : Splits tokens others) (lineEndSeen : Bool) :
    gapAhead lineEndSeen others = gapAhead lineEndSeen tokens ∧
      Splits (tokens.drop (gapAhead lineEndSeen tokens))
        (others.drop (gapAhead lineEndSeen tokens)) := by
  fun_induction gapAhead lineEndSeen tokens generalizing others with
  | case1 =>
    cases splits
    exact ⟨rfl, .nil⟩
  | case2 lineEndSeen token rest space ih =>
    obtain ⟨later, rfl, below⟩ :=
      splits.cons_inv (by rintro kind; simp [Token.isSpace, kind] at space)
    obtain ⟨same, behind⟩ := ih below
    exact ⟨by rw [gapAhead.eq_def]; simp [space, same], behind⟩
  | case3 lineEndSeen token noSpace comment =>
    obtain ⟨later, rfl, below⟩ :=
      splits.cons_inv (by rintro kind; simp [Token.isComment, kind] at comment)
    rw [below.eq_nil]
    exact ⟨by rw [gapAhead.eq_def]; simp [noSpace, comment], .nil⟩
  | case4 lineEndSeen token noSpace comment next later lineEnd ih =>
    obtain ⟨behind, rfl, below⟩ :=
      splits.cons_inv (by rintro kind; simp [Token.isComment, kind] at comment)
    obtain ⟨last, rfl, lowest⟩ :=
      below.cons_inv (by rintro kind; simp [Token.isEndOfLine, kind] at lineEnd)
    obtain ⟨same, behind⟩ := ih lowest
    exact ⟨by rw [gapAhead.eq_def]; simp [noSpace, comment, lineEnd, same], behind⟩
  | case5 lineEndSeen token noSpace comment next later noLineEnd ih =>
    obtain ⟨behind, rfl, below⟩ :=
      splits.cons_inv (by rintro kind; simp [Token.isComment, kind] at comment)
    obtain ⟨same, dropped⟩ := ih below
    refine ⟨?_, dropped⟩
    rw [gapAhead.eq_def]
    cases below with
    | keep _ _ => simp [noSpace, comment, noLineEnd, same]
    | split doubled _ =>
      have noLineEnd : (splitShift next).1.isEndOfLine = false := rfl
      simp [noSpace, comment, noLineEnd, same]
  | case6 lineEndSeen token rest noSpace noComment lineEnd ih =>
    obtain ⟨later, rfl, below⟩ :=
      splits.cons_inv (by rintro kind; simp [Token.isEndOfLine, kind] at lineEnd)
    obtain ⟨same, behind⟩ := ih below
    exact ⟨by rw [gapAhead.eq_def]; simp_all, behind⟩
  | case7 lineEndSeen token rest noSpace noComment noLineEnd =>
    refine ⟨?_, splits⟩
    rw [gapAhead.eq_def]
    cases splits with
    | keep _ _ => simp_all
    | split doubled _ => simp [splitShift, Token.isSpace, Token.isComment, Token.isEndOfLine]

end Splits

/-- A count of tokens to be taken as they are does not change when those behind them are
split. -/
def Stable (count : List Token → Nat) : Prop :=
  ∀ tokens left, Splits (tokens.drop (count tokens)) left →
    count (tokens.take (count tokens) ++ left) = count tokens

theorem stable_flatLength (depth : Nat) : Stable (flatLength depth) := by
  intro tokens left splits
  fun_induction flatLength depth tokens with
  | case1 =>
    cases splits
    rfl
  | case2 token rest ends =>
    obtain ⟨later, rfl, _⟩ := splits.cons_inv
      (by rintro kind; simp [Token.isEndGroup, kind] at ends)
    simp [flatLength, ends]
  | case3 token rest ends outer ih => simpa [flatLength, ends] using ih splits
  | case4 depth token rest ends begins ih => simpa [flatLength, ends, begins] using ih splits
  | case5 depth token rest ends begins ih => simpa [flatLength, ends, begins] using ih splits

theorem stable_verbatimLength (name : Text) : Stable (verbatimLength name) := by
  intro tokens left splits
  induction tokens with
  | nil =>
    cases splits
    rfl
  | cons token rest ih =>
    by_cases ends : startsWithEnd name (token :: rest) = true
    · rw [verbatimLength, if_pos ends] at splits ⊢
      have same := splits.startsWithEnd_eq name
      rw [List.drop_zero, ends] at same
      cases left with
      | nil => rfl
      | cons first later => simp [verbatimLength, same]
    · rw [verbatimLength, if_neg ends] at splits ⊢
      have same := splits.after_take.startsWithEnd_eq name
      have later := ih splits
      simp only [List.take_succ_cons, List.cons_append] at same ⊢
      rw [verbatimLength, same, if_neg ends, later]

end Parser

end TexSource
