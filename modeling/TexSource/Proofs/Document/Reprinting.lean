import TexSource.Proofs.Document.Borders
import TexSource.Proofs.Lexer.Trimming

/-!
# Tokens that were printed the same

Tokens of the same kinds and texts are printed the same, wherever they stand and whatever doubled
math shifts among them are split (`Lexer.Reprints`). So they consist of the same blanks and the same
text, also without the blanks at their ends.
-/

namespace TexSource

namespace Token

/-- How many tokens a token counts for, of those that are no blanks. A doubled math shift counts as
its halves. -/
def weight (token : Token) : Nat :=
  match token.kind with
  | .mathShift true => 2
  | kind => if kind.isBlank then 0 else 1

/-- The weight of all of some tokens. -/
def load (tokens : List Token) : Nat :=
  tokens.foldr (fun token rest => token.weight + rest) 0

@[simp] theorem load_nil : load [] = 0 := rfl

@[simp] theorem load_cons (token : Token) (tokens : List Token) :
    load (token :: tokens) = token.weight + load tokens := rfl

/-- Loads add up. -/
@[simp] theorem load_append (tokens others : List Token) :
    load (tokens ++ others) = load tokens + load others := by
  induction tokens with
  | nil => rw [List.nil_append, load_nil, Nat.zero_add]
  | cons token rest ih => rw [List.cons_append, load_cons, load_cons, ih, Nat.add_assoc]

/-- A blank has no weight. -/
theorem weight_of_isBlank {token : Token} (blank : token.isBlank = true) : token.weight = 0 := by
  unfold isBlank at blank
  unfold weight
  split
  · rename_i doubled
    rw [doubled] at blank
    cases blank
  · rw [if_pos blank]

/-- A token that is no blank has some weight. -/
theorem weight_pos {token : Token} (solid : token.isBlank = false) : 0 < token.weight := by
  unfold isBlank at solid
  unfold weight
  split
  · decide
  · rw [solid]
    decide

/-- Only blanks have no load. -/
theorem load_eq_zero {tokens : List Token} :
    load tokens = 0 ↔ ∀ token ∈ tokens, token.isBlank = true := by
  induction tokens with
  | nil => simp
  | cons token rest ih =>
    rw [load_cons, Nat.add_eq_zero_iff, ih, List.forall_mem_cons]
    refine and_congr_left fun _ => ⟨fun light => ?_, weight_of_isBlank⟩
    by_contra solid
    exact absurd light (Nat.pos_iff_ne_zero.mp (weight_pos (by simpa using solid)))

end Token

namespace Lexer

/-- Tokens with the kinds and the texts of others, in which some doubled math shifts are split. -/
inductive Reprints : List Token → List Token → Prop where
  | nil : Reprints [] []
  | keep {token other : Token} (same : pieceOf other = pieceOf token) {tokens others : List Token}
      (later : Reprints tokens others) : Reprints (token :: tokens) (other :: others)
  | halves {token first second : Token} (doubled : token.kind = .mathShift true)
      (one : first.kind = .mathShift false) (two : second.kind = .mathShift false)
      (raw : first.raw ++ second.raw = token.raw) {tokens others : List Token}
      (later : Reprints tokens others) : Reprints (token :: tokens) (first :: second :: others)

theorem isMathShift_eq_false {token : Token} {kind : Token.Kind} (same : token.kind = kind)
    (single : ∀ doubled, kind ≠ .mathShift doubled) : token.isMathShift = false := by
  subst same
  by_contra shift
  obtain ⟨doubled, kind⟩ := Parser.kind_of_isMathShift (Bool.not_eq_false _ ▸ shift)
  exact single doubled kind

section

variable {token other : Token} (same : pieceOf other = pieceOf token)

include same

/-- Tokens of one piece have one kind. -/
theorem kind_of_pieceOf : other.kind = token.kind :=
  congrArg Piece.kind same

/-- Tokens of one piece have one text. -/
theorem raw_of_pieceOf : other.raw = token.raw :=
  congrArg Piece.raw same

theorem controlText_of_pieceOf : other.controlText = token.controlText := by
  rw [Token.controlText, Token.controlText, kind_of_pieceOf same, raw_of_pieceOf same]

end

namespace Reprints

variable {tokens others : List Token}

/-- Tokens that are the same pieces, with some of them split. -/
theorem of_splits {finer : List Token} (same : others.map pieceOf = tokens.map pieceOf)
    (splits : Parser.Splits others finer) : Reprints tokens finer := by
  induction splits generalizing tokens with
  | nil =>
    rw [List.map_eq_nil_iff.mp same.symm]
    exact .nil
  | keep token _ ih =>
    cases tokens with
    | nil => cases same
    | cons first tokens =>
      obtain ⟨front, rest⟩ := List.cons.inj same
      exact .keep front (ih rest)
  | @split token doubled _ _ _ ih =>
    cases tokens with
    | nil => cases same
    | cons first tokens =>
      obtain ⟨front, rest⟩ := List.cons.inj same
      refine .halves ((kind_of_pieceOf front).symm.trans doubled) rfl rfl ?_ (ih rest)
      rw [Parser.raw_splitShift, raw_of_pieceOf front]

/-- Reprinting keeps the text. -/
theorem rawText_eq (reprints : Reprints tokens others) :
    Token.rawText others = Token.rawText tokens := by
  induction reprints with
  | nil => rfl
  | keep same _ ih => rw [Token.rawText_cons, Token.rawText_cons, ih, raw_of_pieceOf same]
  | halves _ _ _ raw _ ih =>
    rw [Token.rawText_cons, Token.rawText_cons, Token.rawText_cons, ih, ← raw, List.append_assoc]

/-- Reprinting keeps the load. -/
theorem load_eq (reprints : Reprints tokens others) : Token.load others = Token.load tokens := by
  induction reprints with
  | nil => rfl
  | keep same _ ih =>
    rw [Token.load_cons, Token.load_cons, ih, Token.weight, Token.weight, kind_of_pieceOf same]
  | halves doubled one two _ _ ih =>
    simp only [Token.load_cons, ih, Token.weight, doubled, one, two, Token.Kind.isBlank,
      Bool.false_eq_true, ↓reduceIte]
    omega

/-- Where tokens are parted, so are those that are printed the same. -/
theorem exists_of_append {rest : List Token} (reprints : Reprints (tokens ++ rest) others) :
    ∃ front back, others = front ++ back ∧ Reprints tokens front ∧ Reprints rest back := by
  induction tokens generalizing others with
  | nil => exact ⟨[], others, rfl, .nil, reprints⟩
  | cons token tokens ih =>
    cases reprints with
    | keep same later =>
      obtain ⟨front, back, rfl, first, second⟩ := ih later
      exact ⟨_ :: front, back, rfl, .keep same first, second⟩
    | halves doubled one two raw later =>
      obtain ⟨front, back, rfl, first, second⟩ := ih later
      exact ⟨_ :: _ :: front, back, rfl, .halves doubled one two raw first, second⟩

/-- A token that is no math shift stays a token. -/
theorem exists_of_cons {token : Token} (reprints : Reprints (token :: tokens) others)
    (single : token.isMathShift = false) :
    ∃ other rest, others = other :: rest ∧ pieceOf other = pieceOf token ∧
      Reprints tokens rest := by
  cases reprints with
  | keep same later => exact ⟨_, _, rfl, same, later⟩
  | halves doubled => simp [Token.isMathShift, doubled] at single

/-- Where a token that is no math shift is printed, it was one. -/
theorem exists_of_middle {front back : List Token} {other : Token}
    (reprints : Reprints tokens (front ++ other :: back)) (single : other.isMathShift = false) :
    ∃ before token after, tokens = before ++ token :: after ∧ pieceOf other = pieceOf token ∧
      Reprints before front ∧ Reprints after back := by
  generalize whole : front ++ other :: back = all at reprints
  induction reprints generalizing front with
  | nil => simp at whole
  | keep same later ih =>
    cases front with
    | nil =>
      cases whole
      exact ⟨[], _, _, rfl, same, .nil, later⟩
    | cons first front =>
      obtain ⟨rfl, rest⟩ := List.cons.inj whole
      obtain ⟨before, token, after, rfl, also, earlier, last⟩ := ih rest
      exact ⟨_ :: before, token, after, rfl, also, .keep same earlier, last⟩
  | halves doubled one two raw _ ih =>
    cases front with
    | nil =>
      cases whole
      simp [Token.isMathShift, one] at single
    | cons first front =>
      cases front with
      | nil =>
        cases whole
        simp [Token.isMathShift, two] at single
      | cons second front =>
        cases whole
        obtain ⟨before, token, after, rfl, also, earlier, last⟩ := ih rfl
        exact ⟨_ :: before, token, after, rfl, also, .halves doubled one two raw earlier, last⟩

section

variable {test : Token → Bool}
  (kinds : ∀ token other : Token, other.kind = token.kind → test other = test token)

include kinds

/-- A test of kinds that does not tell math shifts apart passes for all of the tokens, or for
neither those nor the ones they are printed as. -/
theorem all_eq (reprints : Reprints tokens others) {value : Bool}
    (shifts : ∀ token, token.isMathShift = true → test token = value) :
    others.all test = tokens.all test := by
  induction reprints with
  | nil => rfl
  | keep same _ ih => rw [List.all_cons, List.all_cons, ih, kinds _ _ (kind_of_pieceOf same)]
  | @halves token first second doubled one two _ _ _ _ ih =>
    rw [List.all_cons, List.all_cons, List.all_cons, ih,
      shifts token (by simp [Token.isMathShift, doubled]),
      shifts first (by simp [Token.isMathShift, one]),
      shifts second (by simp [Token.isMathShift, two]), ← Bool.and_assoc, Bool.and_self]

/-- What a test takes off does not matter, if no shift passes it. -/
theorem dropWhile (reprints : Reprints tokens others)
    (stops : ∀ token, token.isMathShift = true → test token = false) :
    Reprints (tokens.dropWhile test) (others.dropWhile test) := by
  induction reprints with
  | nil => exact .nil
  | @keep token other same _ _ later ih =>
    rw [List.dropWhile_cons, List.dropWhile_cons, kinds token other (kind_of_pieceOf same)]
    split
    · exact ih
    · exact .keep same later
  | @halves token first second doubled one two raw _ _ later ih =>
    have whole := stops token (by simp [Token.isMathShift, doubled])
    have half := stops first (by simp [Token.isMathShift, one])
    rw [List.dropWhile_cons_of_neg (by simp [whole]), List.dropWhile_cons_of_neg (by simp [half])]
    exact .halves doubled one two raw later

end

theorem isSpace_eq {token other : Token} (kind : other.kind = token.kind) :
    other.isSpace = token.isSpace := by
  rw [Token.isSpace, Token.isSpace, kind]

/-- Reprinted tokens are blank as before. -/
theorem all_isSpace (reprints : Reprints tokens others) :
    others.all Token.isSpace = tokens.all Token.isSpace :=
  all_eq (fun _ _ => isSpace_eq) reprints Parser.isSpace_of_isMathShift

theorem dropSpaces (reprints : Reprints tokens others) :
    Reprints (tokens.dropWhile Token.isSpace) (others.dropWhile Token.isSpace) :=
  dropWhile (fun _ _ => isSpace_eq) reprints Parser.isSpace_of_isMathShift

/-- Reprinted tokens end no other lines. -/
theorem isEndOfLine_iff (reprints : Reprints tokens others) :
    (∀ other ∈ others, other.isEndOfLine = false) ↔
      ∀ token ∈ tokens, token.isEndOfLine = false := by
  have kinds (token other : Token) (kind : other.kind = token.kind) :
      (!other.isEndOfLine) = !token.isEndOfLine := by
    rw [Token.isEndOfLine, Token.isEndOfLine, kind]
  have shifts (token : Token) (shift : token.isMathShift = true) : (!token.isEndOfLine) = true := by
    obtain ⟨doubled, kind⟩ := Parser.kind_of_isMathShift shift
    simp [Token.isEndOfLine, kind]
  simpa using Bool.eq_iff_iff.mp (all_eq kinds reprints shifts)

/-- Reprinting keeps the text without the blanks at the end. -/
theorem rawText_trimEnd (reprints : Reprints tokens others) :
    Token.rawText (Token.trimEnd others) = Token.rawText (Token.trimEnd tokens) := by
  induction reprints with
  | nil => rfl
  | @keep token other same _ _ later ih =>
    have space : other.isSpace = token.isSpace := isSpace_eq (kind_of_pieceOf same)
    rw [Token.trimEnd, Token.trimEnd, later.all_isSpace, space]
    split
    · split
      · rfl
      · simp [controlText_of_pieceOf same]
    · rw [Token.rawText_cons, Token.rawText_cons, ih, raw_of_pieceOf same]
  | @halves token first second doubled one two raw _ others later ih =>
    have plain : ∀ {token : Token} {doubled : Bool}, token.kind = .mathShift doubled →
        token.isSpace = false ∧ token.controlText = token.raw := fun kind =>
      ⟨by simp [Token.isSpace, kind], by simp [Token.controlText, kind]⟩
    have apart : (second :: others).all Token.isSpace = false := by simp [(plain two).1]
    rw [Token.trimEnd, apart, if_neg (by decide), Token.trimEnd, Token.trimEnd, later.all_isSpace]
    split
    · simp [(plain doubled).1, (plain doubled).2, (plain two).1, (plain two).2, raw]
    · rw [Token.rawText_cons, Token.rawText_cons, Token.rawText_cons, ih, ← List.append_assoc, raw]

end Reprints

end Lexer

end TexSource
