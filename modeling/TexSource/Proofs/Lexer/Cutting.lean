import TexSource.Proofs.Lexer.Trimming

/-!
# Cutting what was put together

A text that is put together from tokens is cut into the same tokens again, if no token runs together
with the glyph behind it (`Lexer.pieces_append`). The tokens of a text are of this sort
(`Lexer.Cuts.of_pieces`), and stay so in other lines: in front of another line end, without the
blanks at the end of a line, and with other blanks in front of a comment.
-/

namespace TexSource

/-- A comment without the white space at its end. -/
def Token.trimmed (token : Token) : Token :=
  { token with kind := token.kind.trimmed, raw := token.raw.stripEnd }

namespace Lexer

variable {table last : Catcode.Table} {kind : Token.Kind} {raw : Text}

/-- A text spells a token, and is one line end if the token is. -/
structure Sharp (table : Catcode.Table) (kind : Token.Kind) (raw : Text) : Prop where
  spelled : Spelled table kind raw
  lineEnd : kind = .endOfLine → raw = [.char '\r', .char '\n'] ∨ ∃ glyph, raw = [glyph]

/-- A token ends in front of a glyph. -/
structure EndsAt (table : Catcode.Table) (kind : Token.Kind) (raw : Text) (next : Glyph) :
    Prop where
  closes : Closes table kind raw next
  space : kind = .space → table.classify next ≠ .space
  word : ∀ name, kind = .controlWord name → table.classify next ≠ .space
  lineEnd : kind = .endOfLine → raw = [.char '\r'] → next ≠ .char '\n'

theorem cut_word {escape : Glyph} {name blanks rest : Text}
    (escapes : table.classify escape = .escape) (named : name ≠ [])
    (letters : ∀ glyph ∈ name, table.classify glyph = .letter)
    (spaces : ∀ glyph ∈ blanks, table.classify glyph = .space)
    (closes : blanks = [] → ∀ next ∈ rest.head?, table.classify next ≠ .letter)
    (stops : ∀ next ∈ rest.head?, table.classify next ≠ .space) :
    cut table escape (name ++ blanks ++ rest) =
      (⟨.controlWord name, escape :: name ++ blanks⟩, rest) := by
  obtain ⟨letter, name, rfl⟩ := List.exists_cons_of_ne_nil named
  rw [List.forall_mem_cons] at letters
  have ends : ∀ next ∈ (blanks ++ rest).head?,
      decide (table.classify next = .letter) = false := by
    intro next first
    cases blanks with
    | nil => exact decide_eq_false (closes rfl next first)
    | cons blank more =>
      cases first
      exact decide_eq_false (by rw [spaces _ List.mem_cons_self]; decide)
  obtain ⟨taken, left⟩ := takeWhile_append
    (fun glyph member => decide_eq_true (letters.2 glyph member)) ends
  obtain ⟨gap, behind⟩ := takeWhile_append
    (fun glyph member => decide_eq_true (spaces glyph member))
    fun next first => decide_eq_false (stops next first)
  simp only [cut, escapes, List.cons_append, List.append_assoc, cutSequence, letters.1, cutWord,
    taken, left, gap, behind]

/-- **Cutting a token.** In front of a text where it ends, a token is cut off. -/
theorem cut_eq (sharp : Sharp table kind raw) {rest : Text}
    (stops : ∀ next ∈ rest.head?, EndsAt table kind raw next) :
    ∃ glyph more, raw = glyph :: more ∧ cut table glyph (more ++ rest) = (⟨kind, raw⟩, rest) := by
  have first := fun next ahead => (stops next ahead).closes
  cases sharp.spelled with
  | @word escape name blanks escapes named letters spaces =>
    refine ⟨_, _, rfl, cut_word escapes named letters spaces (fun none next ahead => ?_)
      fun next ahead => (stops next ahead).word name rfl⟩
    exact first next ahead (by simp [none])
  | @symbol escape glyph escapes noLetter noLineEnd =>
    refine ⟨_, _, rfl, ?_⟩
    cases category : table.classify glyph with
    | letter => exact absurd category noLetter
    | endOfLine => exact absurd category noLineEnd
    | _ => simp only [cut, escapes, List.cons_append, List.nil_append, cutSequence, category]
  | lone escapes =>
    refine ⟨_, _, rfl, ?_⟩
    cases rest with
    | nil => simp only [cut, escapes, List.nil_append, cutSequence, single]
    | cons next later =>
      have ends : table.classify next = .endOfLine := first next rfl
      simp only [cut, escapes, List.nil_append, cutSequence, ends, single]
  | shift shifts =>
    refine ⟨_, _, rfl, ?_⟩
    cases rest with
    | nil => simp only [cut, shifts, List.nil_append, cutShift, single]
    | cons next later =>
      have apart : table.classify next ≠ .mathShift := first next rfl
      simp only [cut, shifts, List.nil_append, cutShift, apart, ↓reduceIte, single]
  | doubled shifts again =>
    refine ⟨_, _, rfl, ?_⟩
    simp only [cut, shifts, List.cons_append, List.nil_append, cutShift, again, ↓reduceIte]
  | comment opens inside =>
    refine ⟨_, _, rfl, ?_⟩
    obtain ⟨taken, left⟩ := @takeWhile_append
      (fun glyph => table.classify glyph ≠ .endOfLine) _ _
      (fun glyph member => decide_eq_true (inside glyph member)) fun next ahead => by
        have ends : table.classify next = .endOfLine := first next ahead
        simp [ends]
    simp only [cut, opens, run, taken, left]
  | space nonempty spaces =>
    obtain ⟨glyph, more, rfl⟩ := List.exists_cons_of_ne_nil nonempty
    rw [List.forall_mem_cons] at spaces
    obtain ⟨taken, left⟩ := @takeWhile_append (fun glyph => table.classify glyph = .space) _ _
      (fun glyph member => decide_eq_true (spaces.2 glyph member))
      fun next ahead => decide_eq_false ((stops next ahead).space rfl)
    exact ⟨_, _, rfl, by simp only [cut, spaces.1, run, taken, left]⟩
  | lineEnd nonempty ends =>
    rcases sharp.lineEnd rfl with rfl | ⟨glyph, rfl⟩
    · exact ⟨_, _, rfl, by simp [cut, ends _ List.mem_cons_self, cutLineEnd]⟩
    · refine ⟨_, _, rfl, ?_⟩
      simp only [cut, ends _ List.mem_cons_self, List.nil_append]
      refine cutLineEnd.eq_2 glyph rest fun later lone pair => ?_
      subst lone pair
      exact (stops _ rfl).lineEnd rfl rfl rfl
  | @alone glyph _ alone =>
    refine ⟨_, _, rfl, ?_⟩
    cases category : table.classify glyph with
    | escape | mathShift | endOfLine | space | comment =>
      rw [category] at alone
      cases alone
    | _ =>
      rw [category] at alone
      cases alone
      simp only [cut, category, single, List.nil_append]

theorem pieces_append (sharp : Sharp table kind raw) {rest : Text}
    (stops : ∀ next ∈ rest.head?, EndsAt table kind raw next) :
    pieces table (raw ++ rest) = ⟨kind, raw⟩ :: pieces (behind table kind) rest := by
  obtain ⟨glyph, more, rfl, front⟩ := cut_eq sharp stops
  rw [List.cons_append, pieces, front]

/-- Where a glyph other than those of a run stands behind it, the run ends. -/
theorem stops_cut (plain : Plain table) (glyph : Glyph) (rest : Text) :
    Sharp table (cut table glyph rest).1.kind (cut table glyph rest).1.raw ∧
      ∀ next ∈ (cut table glyph rest).2.head?,
        EndsAt table (cut table glyph rest).1.kind (cut table glyph rest).1.raw next := by
  have severed := severed_cut plain glyph rest
  suffices exactly : ((cut table glyph rest).1.kind = .endOfLine →
        (cut table glyph rest).1.raw = [.char '\r', .char '\n'] ∨
          ∃ one, (cut table glyph rest).1.raw = [one]) ∧
      ∀ next ∈ (cut table glyph rest).2.head?,
        ((cut table glyph rest).1.kind = .space → table.classify next ≠ .space) ∧
        (∀ name, (cut table glyph rest).1.kind = .controlWord name →
          table.classify next ≠ .space) ∧
        ((cut table glyph rest).1.kind = .endOfLine →
          (cut table glyph rest).1.raw = [.char '\r'] → next ≠ .char '\n') by
    exact ⟨⟨severed.spelled, exactly.1⟩, fun next ahead => ⟨severed.closes next ahead,
      (exactly.2 next ahead).1, (exactly.2 next ahead).2.1, (exactly.2 next ahead).2.2⟩⟩
  clear severed
  unfold cut
  cases table.classify glyph with
  | escape =>
    cases rest with
    | nil => exact ⟨nofun, nofun⟩
    | cons letter later =>
      dsimp only [cutSequence]
      cases table.classify letter with
      | endOfLine => exact ⟨nofun, fun _ _ => ⟨nofun, nofun, nofun⟩⟩
      | letter =>
        refine ⟨nofun, fun next ahead => ⟨nofun, fun _ _ => ?_, nofun⟩⟩
        exact of_decide_eq_false (stops_dropWhile _ _ next ahead)
      | _ => exact ⟨nofun, fun _ _ => ⟨nofun, nofun, nofun⟩⟩
  | mathShift =>
    cases rest with
    | nil => exact ⟨nofun, nofun⟩
    | cons next later =>
      dsimp only [cutShift]
      split <;> exact ⟨nofun, fun _ _ => ⟨nofun, nofun, nofun⟩⟩
  | endOfLine =>
    dsimp only [cutLineEnd]
    split
    · exact ⟨fun _ => .inl rfl, fun _ _ => ⟨nofun, nofun, fun _ => nofun⟩⟩
    · rename_i apart
      refine ⟨fun _ => .inr ⟨glyph, rfl⟩, fun next ahead => ⟨nofun, nofun, fun _ lone pair => ?_⟩⟩
      obtain rfl := List.singleton_inj.mp lone
      cases rest with
      | nil => cases ahead
      | cons second later =>
        cases ahead
        exact apart later rfl (congrArg (· :: later) pair)
  | space =>
    refine ⟨nofun, fun next ahead => ⟨fun _ => ?_, nofun, nofun⟩⟩
    exact of_decide_eq_false (stops_dropWhile _ rest next ahead)
  | _ => exact ⟨nofun, fun _ _ => ⟨nofun, nofun, nofun⟩⟩

/-- From a first table to a last one tokens are cut off one after the other, in front of a next
glyph if there is one. -/
inductive Cuts : (table : Catcode.Table) → List Token → (next : Option Glyph) →
    (last : Catcode.Table) → Prop where
  | nil (table : Catcode.Table) (next : Option Glyph) : Cuts table [] next table
  | cons {table last : Catcode.Table} {token : Token} {tokens : List Token} {next : Option Glyph}
      (sharp : Sharp table token.kind token.raw)
      (stops : ∀ glyph ∈ (Token.rawText tokens).head?.or next,
        EndsAt table token.kind token.raw glyph)
      (later : Cuts (behind table token.kind) tokens next last) :
      Cuts table (token :: tokens) next last

namespace Cuts

variable {tokens others : List Token} {next : Option Glyph}

/-- The text of such tokens is cut into them. -/
theorem pieces_eq (cuts : Cuts table tokens next last) {rest : Text} (ahead : rest.head? = next) :
    pieces table (Token.rawText tokens ++ rest) = tokens.map pieceOf ++ pieces last rest := by
  induction cuts with
  | nil => rfl
  | cons sharp stops later ih =>
    rw [Token.rawText_cons, List.append_assoc, pieces_append sharp, ih ahead]
    · rfl
    · intro glyph first
      apply stops glyph
      rwa [List.head?_append, ahead] at first

theorem plain_last (plain : Plain table) (cuts : Cuts table tokens next last) : Plain last := by
  induction cuts with
  | nil => exact plain
  | cons _ _ _ ih => exact ih (plain.behind _)

/-- The tokens of a text. -/
theorem of_pieces (plain : Plain table) {text : Text}
    (same : tokens.map pieceOf = pieces table text) : ∃ last, Cuts table tokens none last := by
  fun_induction pieces table text generalizing tokens with
  | case1 table =>
    rw [List.map_eq_nil_iff.mp same]
    exact ⟨table, .nil _ _⟩
  | case2 table glyph rest ih =>
    cases tokens with
    | nil => cases same
    | cons token tokens =>
      obtain ⟨first, later⟩ := List.cons.inj same
      obtain ⟨last, cuts⟩ := ih (plain.behind _) later
      obtain ⟨sharp, stops⟩ := stops_cut plain glyph rest
      have text : Token.rawText tokens = (cut table glyph rest).2 := by
        rw [← flatMap_raw_pieces (plain.behind _) (cut table glyph rest).2, ← later,
          List.flatMap_map]
        rfl
      have kind : (cut table glyph rest).1.kind = token.kind := congrArg Piece.kind first.symm
      have raw : (cut table glyph rest).1.raw = token.raw := congrArg Piece.raw first.symm
      rw [kind, raw] at sharp stops
      rw [kind] at cuts
      refine ⟨last, .cons sharp ?_ cuts⟩
      rwa [text, Option.or_none]

theorem append {middle : Catcode.Table}
    (first : Cuts table tokens ((Token.rawText others).head?.or next) middle)
    (second : Cuts middle others next last) : Cuts table (tokens ++ others) next last := by
  generalize ahead : (Token.rawText others).head?.or next = between at first
  induction first with
  | nil => exact second
  | cons sharp stops later ih =>
    subst ahead
    rw [List.cons_append]
    refine .cons sharp ?_ (ih second rfl)
    rwa [Token.rawText_append, List.head?_append, Option.or_assoc]

theorem split (cuts : Cuts table (tokens ++ others) next last) :
    ∃ middle, Cuts table tokens ((Token.rawText others).head?.or next) middle ∧
      Cuts middle others next last := by
  induction tokens generalizing table with
  | nil => exact ⟨table, .nil _ _, cuts⟩
  | cons token tokens ih =>
    cases cuts with
    | cons sharp stops later =>
      obtain ⟨middle, first, second⟩ := ih later
      refine ⟨middle, .cons sharp ?_ first, second⟩
      rwa [← Option.or_assoc, ← List.head?_append, ← Token.rawText_append]

end Cuts

theorem EndsAt.of_lineEnd (plain : Plain table) {kind : Token.Kind} {raw : Text} {next : Glyph}
    (ends : Catcode.initial next = .endOfLine) (inside : kind ≠ .endOfLine) :
    EndsAt table kind raw next where
  closes := closes_lineEnd ((plain.lineEnd_iff _).mpr ends) kind raw
  space _ := by
    rw [(plain.lineEnd_iff next).mpr ends]
    decide
  word _ _ := by
    rw [(plain.lineEnd_iff next).mpr ends]
    decide
  lineEnd isLineEnd := absurd isLineEnd inside

/-- Where a control word ends without blanks, it is cut off without them. -/
theorem Sharp.controlText {token : Token} (sharp : Sharp table token.kind token.raw) :
    Sharp table token.kind token.controlText where
  spelled := sharp.spelled.controlText
  lineEnd kind := by
    rw [Token.controlText, kind]
    exact sharp.lineEnd kind

/-- Spaces are one token. -/
theorem sharp_space (plain : Plain table) {blanks : Text} (present : blanks ≠ [])
    (white : ∀ glyph ∈ blanks, Catcode.initial glyph = .space) : Sharp table .space blanks where
  spelled := .space present fun glyph member => (plain.space_iff glyph).mpr (white glyph member)
  lineEnd := nofun

/-- Blanks may stand behind a control word. -/
theorem Sharp.word_append (plain : Plain table) {token : Token} {name blanks : Text}
    (sharp : Sharp table token.kind token.raw) (word : token.kind = .controlWord name)
    (white : ∀ glyph ∈ blanks, Catcode.initial glyph = .space) :
    Sharp table token.kind (token.controlText ++ blanks) where
  spelled := by
    have spelled := sharp.spelled
    rw [word] at spelled ⊢
    obtain ⟨escape, others, written, escapes, named, letters⟩ := spelled.of_word
    have text : token.controlText = escape :: name := by
      rw [Token.controlText, word, written]
      dsimp only
      rw [Nat.add_comm, List.cons_append, List.take_succ_cons, List.take_left]
    rw [text]
    exact .word escapes named letters fun glyph member =>
      (plain.space_iff glyph).mpr (white glyph member)
  lineEnd kind := nomatch word.symm.trans kind

/-- A comment without white space at its end. -/
theorem Sharp.trimmed (plain : Plain table) {token : Token} (isComment : token.isComment = true)
    (sharp : Sharp table token.kind token.raw) :
    Sharp table token.trimmed.kind token.trimmed.raw := by
  obtain ⟨content, kind⟩ := Token.kind_of_isComment isComment
  have spelled := sharp.spelled
  rw [kind] at spelled
  obtain ⟨glyph, written, opens, inside⟩ := spelled.of_comment
  have solid := isBlank_of_comment ((plain.comment_iff glyph).mp opens)
  have stripped : token.raw.stripEnd = glyph :: content.stripEnd := by
    rw [written]
    exact Text.stripEnd_append_cons [] solid content
  rw [Token.trimmed, kind, stripped]
  exact ⟨.comment opens fun other member =>
    inside other ((List.rdropWhile_prefix Glyph.isBlank content).subset member), nofun⟩

namespace Cuts

variable {tokens others : List Token} {next : Option Glyph}

/-- A table is not changed by spaces. -/
theorem eq_of_spaces (cuts : Cuts table tokens next last)
    (spaces : ∀ token ∈ tokens, token.isSpace = true) : last = table := by
  induction cuts with
  | nil => rfl
  | cons _ _ _ ih =>
    rw [List.forall_mem_cons] at spaces
    have kind := of_decide_eq_true spaces.1
    rw [ih spaces.2, kind]
    rfl

/-- In front of another line end. -/
theorem ended (plain : Plain table) (cuts : Cuts table tokens next last)
    (inside : ∀ token ∈ tokens, token.isEndOfLine = false) {glyph : Glyph}
    (ends : Catcode.initial glyph = .endOfLine) : Cuts table tokens (some glyph) last := by
  induction cuts with
  | nil => exact .nil _ _
  | @cons table last token tokens next sharp stops later ih =>
    rw [List.forall_mem_cons] at inside
    refine .cons sharp (fun other first => ?_) (ih (plain.behind _) inside.2)
    cases written : Token.rawText tokens with
    | nil =>
      rw [written] at first
      cases first
      exact .of_lineEnd plain ends (of_decide_eq_false inside.1)
    | cons head rest =>
      rw [written] at first stops
      exact stops other first

theorem dropSpaces (cuts : Cuts table tokens next last) :
    Cuts table (tokens.dropWhile Token.isSpace) next last := by
  induction cuts with
  | nil => exact .nil _ _
  | @cons table last token tokens next sharp stops later ih =>
    cases space : token.isSpace with
    | true =>
      rw [List.dropWhile_cons_of_pos space]
      rw [of_decide_eq_true space] at ih
      exact ih
    | false =>
      rw [List.dropWhile_cons_of_neg (by simp [space])]
      exact .cons sharp stops later

/-- Behind spaces, where none stand yet. -/
theorem margin (plain : Plain table) {blanks : Text}
    (white : ∀ glyph ∈ blanks, Catcode.initial glyph = .space) (space : Token)
    (kind : space.kind = .space) (cuts : Cuts table tokens next last)
    (solid : ∀ glyph ∈ (Token.rawText tokens).head?.or next, Catcode.initial glyph ≠ .space) :
    Cuts table (if blanks = [] then tokens else { space with raw := blanks } :: tokens) next
      last := by
  split
  · exact cuts
  · rename_i present
    refine .cons ?_ (fun glyph first => ?_) ?_
    · rw [kind]
      exact sharp_space plain present white
    · have other := mt (plain.space_iff glyph).mp (solid glyph first)
      rw [kind]
      exact ⟨trivial, fun _ => other, nofun, nofun⟩
    · rw [kind]
      exact cuts

/-- What is not all spaces starts as before without the blanks at its end. -/
theorem exists_head_trimEnd (cuts : Cuts table tokens next last)
    (code : tokens.all Token.isSpace = false) :
    ∃ glyph, (Token.rawText tokens).head? = some glyph ∧
      (Token.rawText (Token.trimEnd tokens)).head? = some glyph := by
  cases cuts with
  | nil => cases code
  | @cons _ _ token tokens _ sharp stops later =>
    obtain ⟨glyph, rest, written⟩ := List.exists_cons_of_ne_nil sharp.spelled.ne_nil
    refine ⟨glyph, by simp [written], ?_⟩
    rw [Token.trimEnd]
    split
    · rename_i spaces
      have noSpace : token.isSpace = false := by simpa [spaces] using code
      rw [if_neg (by simp [noSpace])]
      simp [sharp.spelled.head?_controlText, written]
    · simp [written]

/-- Tokens without the blanks at their end. -/
theorem trimEnd (plain : Plain table) (cuts : Cuts table tokens next last)
    (inside : ∀ token ∈ tokens, token.isEndOfLine = false) {glyph : Glyph}
    (ends : Catcode.initial glyph = .endOfLine) :
    Cuts table (Token.trimEnd tokens) (some glyph) last := by
  induction cuts with
  | nil => exact .nil _ _
  | @cons table last token tokens next sharp stops later ih =>
    rw [List.forall_mem_cons] at inside
    have ih := ih (plain.behind _) inside.2
    rw [Token.trimEnd]
    split
    · rename_i spaces
      rw [List.all_eq_true] at spaces
      obtain rfl := later.eq_of_spaces spaces
      split
      · rename_i space
        rw [of_decide_eq_true space]
        exact .nil _ _
      · refine .cons sharp.controlText (fun other first => ?_) (.nil _ _)
        cases first
        exact .of_lineEnd plain ends (of_decide_eq_false inside.1)
    · rename_i code
      rw [Bool.not_eq_true] at code
      obtain ⟨front, before, after⟩ := later.exists_head_trimEnd code
      refine .cons sharp (fun other first => stops other ?_) ih
      rw [after] at first
      rw [before]
      exact first

end Cuts

end Lexer

end TexSource
