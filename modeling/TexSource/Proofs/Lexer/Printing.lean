import TexSource.Proofs.Document.Splits
import TexSource.Proofs.Lexer.Reading

/-!
# Reading what was printed

A token is spelled by a text if the lexer reads such a text as the token, in front of any text
whose first glyph does not run together with it (`Lexer.reads_append`). Blanks between tokens
do not matter (`Lexer.reads_blanks`). This is so for the tables that a text without assignments
by number can lead to, in which nothing but `@` is assigned a category code (`Lexer.Plain`).
-/

namespace TexSource

/-- The kinds of tokens, without blanks and without the end of the input. -/
def Token.content (tokens : List Token) : List Token.Kind :=
  (tokens.map Token.kind).filter fun kind => !kind.isBlank && kind ≠ .endOfInput

namespace Lexer

/-- A table in which nothing is assigned, except that `@` is a letter or is none. -/
def Plain (table : Catcode.Table) : Prop :=
  ∀ layer ∈ table.layers, ∀ binding ∈ layer,
    binding.1 = Glyph.code (.char '@') ∧ (binding.2 = .letter ∨ binding.2 = .other)

variable {table : Catcode.Table}

/-- The standard table is plain. -/
theorem plain_standard : Plain .standard := by
  intro layer member binding bound
  rw [List.mem_singleton.mp member] at bound
  cases bound

namespace Plain

/-- A group keeps tables plain. -/
theorem push (plain : Plain table) : Plain table.push := by
  intro layer member
  rcases List.mem_cons.mp member with rfl | member
  · exact fun _ bound => nomatch bound
  · exact plain layer member

theorem pop (plain : Plain table) : Plain table.pop := by
  intro layer member
  apply plain layer
  rcases List.mem_append.mp member with inner | bottom
  · exact List.mem_append_left _ (List.mem_of_mem_tail inner)
  · exact List.mem_append_right _ bottom

/-- An assignment to `@` keeps them plain, if it is a letter or other. -/
theorem assign (plain : Plain table) {catcode : Catcode}
    (harmless : catcode = .letter ∨ catcode = .other) :
    Plain (table.assignLocally (Glyph.code (.char '@')) catcode) := by
  have inserted : ∀ layer : Bindings Nat Catcode, layer ∈ table.layers →
      ∀ binding ∈ layer.insert (Glyph.code (.char '@')) catcode,
        binding.1 = Glyph.code (.char '@') ∧ (binding.2 = .letter ∨ binding.2 = .other) := by
    intro layer member binding bound
    rcases List.mem_cons.mp bound with rfl | bound
    · exact ⟨rfl, harmless⟩
    · exact plain layer member binding (List.mem_of_mem_filter bound)
  unfold Layered.assignLocally
  split
  · rename_i nothing
    intro layer member
    simp only [Layered.layers, nothing, List.nil_append, List.mem_singleton] at member
    rw [member]
    exact inserted _ (List.mem_append_right _ List.mem_cons_self)
  · rename_i innermost outer layers
    intro layer member
    have inner : ∀ other ∈ innermost :: outer, other ∈ table.layers := by
      intro other among
      rw [← layers] at among
      exact List.mem_append_left _ among
    rcases List.mem_append.mp member with among | bottom
    · rcases List.mem_cons.mp among with rfl | among
      · exact inserted _ (inner _ List.mem_cons_self)
      · exact plain layer (inner _ (List.mem_cons_of_mem _ among))
    · exact plain layer (List.mem_append_right _ bottom)

/-- Reading on from a plain table leads to plain tables. -/
theorem behind (plain : Plain table) (kind : Token.Kind) : Plain (behind table kind) := by
  unfold Lexer.behind
  split
  · unfold behindWord
    split
    · exact plain.assign (.inl rfl)
    · split
      · exact plain.assign (.inr rfl)
      · exact plain
  · exact plain.push
  · exact plain.pop
  · exact plain

/-- Only `@` can have another category than the initial one, and only as a letter. -/
theorem classify (plain : Plain table) (glyph : Glyph) :
    table.classify glyph = Catcode.initial glyph ∨
      (glyph = .char '@' ∧ (table.classify glyph = .letter ∨ table.classify glyph = .other)) := by
  unfold Catcode.Table.classify
  cases found : table.lookup glyph.code with
  | none => exact .inl rfl
  | some catcode =>
    obtain ⟨layer, member, bound⟩ := List.exists_of_findSome?_eq_some found
    obtain ⟨binding, inLayer, rfl⟩ := Option.map_eq_some_iff.mp bound
    obtain ⟨at', harmless⟩ := plain layer member binding (List.mem_of_find?_eq_some inLayer)
    have same : binding.1 = glyph.code := by simpa using List.find?_some inLayer
    refine .inr ⟨?_, harmless⟩
    rw [same] at at'
    cases glyph with
    | byte offset => simp [Glyph.code] at at'; omega
    | char character =>
      have : character = '@' := by
        apply Char.ext
        exact UInt32.toNat_inj.mp at'
      rw [this]

/-- The categories other than those of letters and of others are the initial ones. -/
theorem classify_eq_iff (plain : Plain table) {catcode : Catcode} (noLetter : catcode ≠ .letter)
    (noOther : catcode ≠ .other) (glyph : Glyph) :
    table.classify glyph = catcode ↔ Catcode.initial glyph = catcode := by
  rcases plain.classify glyph with same | ⟨rfl, letter | other⟩
  · rw [same]
  · rw [letter]
    exact iff_of_false (Ne.symm noLetter) (Ne.symm noOther)
  · rw [other]
    exact iff_of_false (Ne.symm noOther) (Ne.symm noOther)

/-- In a plain table line ends are what they are at first. -/
theorem lineEnd_iff (plain : Plain table) (glyph : Glyph) :
    table.classify glyph = .endOfLine ↔ Catcode.initial glyph = .endOfLine :=
  plain.classify_eq_iff (by decide) (by decide) glyph

/-- In a plain table spaces are what they are at first. -/
theorem space_iff (plain : Plain table) (glyph : Glyph) :
    table.classify glyph = .space ↔ Catcode.initial glyph = .space :=
  plain.classify_eq_iff (by decide) (by decide) glyph

/-- In a plain table comment characters are what they are at first. -/
theorem comment_iff (plain : Plain table) (glyph : Glyph) :
    table.classify glyph = .comment ↔ Catcode.initial glyph = .comment :=
  plain.classify_eq_iff (by decide) (by decide) glyph

end Plain

/-- The kinds of the pieces that a text is read as, without blanks. -/
def reads (table : Catcode.Table) (text : Text) : List Token.Kind :=
  ((pieces table text).map Piece.kind).filter (!·.isBlank)

@[simp] theorem reads_nil (table : Catcode.Table) : reads table [] = [] := by
  rw [reads, pieces]
  rfl

/-- A text is read one token after another. -/
theorem reads_cons (table : Catcode.Table) (glyph : Glyph) (rest : Text) :
    reads table (glyph :: rest) =
      [(cut table glyph rest).1.kind].filter (!·.isBlank) ++
        reads (behind table (cut table glyph rest).1.kind) (cut table glyph rest).2 := by
  rw [reads, pieces, List.map_cons, ← List.singleton_append, List.filter_append]
  rfl

/-- Spaces at the front of a text are not read. -/
theorem reads_dropSpaces (table : Catcode.Table) (text : Text) :
    reads table (text.dropWhile fun glyph => table.classify glyph = .space) =
      reads table text := by
  cases text with
  | nil => rfl
  | cons glyph rest =>
    by_cases space : table.classify glyph = .space
    · rw [List.dropWhile_cons_of_pos (by simpa using space), reads_cons]
      simp only [cut, space, run]
      rfl
    · rw [List.dropWhile_cons_of_neg (by simpa using space)]

/-- Whether a glyph is white space to the lexer: a space or a line end. -/
def IsWhite (glyph : Glyph) : Prop :=
  Catcode.initial glyph = .space ∨ Catcode.initial glyph = .endOfLine

/-- White space at the start adds no kind. -/
theorem reads_cons_white (plain : Plain table) {glyph : Glyph} (white : IsWhite glyph)
    (rest : Text) : reads table (glyph :: rest) = reads table rest := by
  rcases white with space | lineEnd
  · have space : table.classify glyph = .space := (plain.space_iff glyph).mpr space
    rw [← reads_dropSpaces, List.dropWhile_cons_of_pos (by simpa using space), reads_dropSpaces]
  · have lineEnd : table.classify glyph = .endOfLine := (plain.lineEnd_iff glyph).mpr lineEnd
    rw [reads_cons]
    simp only [cut, lineEnd]
    unfold cutLineEnd
    split
    · rename_i later
      have second : table.classify (.char '\n') = .endOfLine := (plain.lineEnd_iff _).mpr rfl
      rw [reads_cons]
      simp only [cut, second]
      rfl
    · rfl

/-- **Blanks do not matter.** -/
theorem reads_blanks (plain : Plain table) {blanks : Text} (white : ∀ glyph ∈ blanks, IsWhite glyph)
    (rest : Text) : reads table (blanks ++ rest) = reads table rest := by
  induction blanks with
  | nil => rfl
  | cons glyph blanks ih =>
    rw [List.forall_mem_cons] at white
    rw [List.cons_append, reads_cons_white plain white.1, ih white.2]

/-- The kind of a glyph that is a token of its own, whatever follows it. -/
def aloneKind? (glyph : Glyph) : Catcode → Option Token.Kind
  | .beginGroup => some (.beginGroup glyph)
  | .endGroup => some (.endGroup glyph)
  | .parameter => some (.parameter glyph)
  | .superscript => some (.superscript glyph)
  | .subscript => some (.subscript glyph)
  | .escape => none
  | .mathShift => none
  | .endOfLine => none
  | .space => none
  | .comment => none
  | catcode => some (.character glyph catcode)

/-- A text spells a token of a kind. -/
inductive Spelled (table : Catcode.Table) : Token.Kind → Text → Prop where
  | word {escape : Glyph} {name blanks : Text} (escapes : table.classify escape = .escape)
      (named : name ≠ []) (letters : ∀ glyph ∈ name, table.classify glyph = .letter)
      (spaces : ∀ glyph ∈ blanks, table.classify glyph = .space) :
      Spelled table (.controlWord name) (escape :: name ++ blanks)
  | symbol {escape glyph : Glyph} (escapes : table.classify escape = .escape)
      (noLetter : table.classify glyph ≠ .letter)
      (noLineEnd : table.classify glyph ≠ .endOfLine) :
      Spelled table (.controlSymbol (some glyph)) [escape, glyph]
  | lone {escape : Glyph} (escapes : table.classify escape = .escape) :
      Spelled table (.controlSymbol none) [escape]
  | shift {glyph : Glyph} (shifts : table.classify glyph = .mathShift) :
      Spelled table (.mathShift false) [glyph]
  | doubled {glyph next : Glyph} (shifts : table.classify glyph = .mathShift)
      (again : table.classify next = .mathShift) :
      Spelled table (.mathShift true) [glyph, next]
  | comment {glyph : Glyph} {content : Text} (opens : table.classify glyph = .comment)
      (inside : ∀ glyph ∈ content, table.classify glyph ≠ .endOfLine) :
      Spelled table (.comment content) (glyph :: content)
  | space {raw : Text} (nonempty : raw ≠ [])
      (spaces : ∀ glyph ∈ raw, table.classify glyph = .space) : Spelled table .space raw
  | lineEnd {raw : Text} (nonempty : raw ≠ [])
      (ends : ∀ glyph ∈ raw, table.classify glyph = .endOfLine) : Spelled table .endOfLine raw
  | alone {glyph : Glyph} {kind : Token.Kind}
      (alone : aloneKind? glyph (table.classify glyph) = some kind) : Spelled table kind [glyph]

/-- Whether a token does not run together with a glyph behind it. -/
def Closes (table : Catcode.Table) (kind : Token.Kind) (raw : Text) (next : Glyph) : Prop :=
  match kind with
  | .controlWord name => raw.length = name.length + 1 → table.classify next ≠ .letter
  | .controlSymbol none => table.classify next = .endOfLine
  | .comment _ => table.classify next = .endOfLine
  | .mathShift false => table.classify next ≠ .mathShift
  | _ => True

/-- A line end closes every token. -/
theorem closes_lineEnd {next : Glyph} (ends : table.classify next = .endOfLine)
    (kind : Token.Kind) (raw : Text) : Closes table kind raw next := by
  unfold Closes
  split
  · exact fun _ => by rw [ends]; decide
  · exact ends
  · exact ends
  · rw [ends]
    decide
  · trivial

/-- A token that closes before a glyph other than a line end also closes before a space. -/
theorem Closes.space {kind : Token.Kind} {raw other : Text} {next space : Glyph}
    (closes : Closes table kind raw next) (inside : table.classify next ≠ .endOfLine)
    (spaces : table.classify space = .space) : Closes table kind other space := by
  unfold Closes at closes ⊢
  split at closes
  · exact fun _ => by rw [spaces]; decide
  · exact absurd closes inside
  · exact absurd closes inside
  · rw [spaces]
    decide
  · trivial

/-- Whether tokens of a kind are single glyphs, whatever follows them. -/
def isAlone : Token.Kind → Bool
  | .beginGroup _ => true
  | .endGroup _ => true
  | .parameter _ => true
  | .superscript _ => true
  | .subscript _ => true
  | .character _ _ => true
  | _ => false

/-- Glyphs with a token of their own stand alone. -/
theorem isAlone_of_aloneKind? {glyph : Glyph} {catcode : Catcode} {kind : Token.Kind}
    (alone : aloneKind? glyph catcode = some kind) : isAlone kind = true := by
  cases catcode <;> cases alone <;> rfl

namespace Spelled

variable {raw : Text}

/-- What is spelled is not empty. -/
theorem ne_nil {kind : Token.Kind} (spelled : Spelled table kind raw) : raw ≠ [] := by
  cases spelled with
  | space nonempty _ => exact nonempty
  | lineEnd nonempty _ => exact nonempty
  | _ => exact List.cons_ne_nil _ _

/-- A control word is spelled with its letters and blanks behind them. -/
theorem of_word {name : Text} (spelled : Spelled table (.controlWord name) raw) :
    ∃ escape blanks, raw = escape :: name ++ blanks ∧ table.classify escape = .escape ∧
      name ≠ [] ∧ ∀ glyph ∈ name, table.classify glyph = .letter := by
  cases spelled with
  | word escapes named letters _ => exact ⟨_, _, rfl, escapes, named, letters⟩
  | alone alone => cases isAlone_of_aloneKind? alone

/-- A single shift is spelled by one glyph. -/
theorem of_shift (spelled : Spelled table (.mathShift false) raw) :
    ∃ glyph, raw = [glyph] ∧ table.classify glyph = .mathShift := by
  cases spelled with
  | shift shifts => exact ⟨_, rfl, shifts⟩
  | alone alone => cases isAlone_of_aloneKind? alone

/-- A double shift is spelled by two. -/
theorem of_doubled (spelled : Spelled table (.mathShift true) raw) :
    ∃ glyph next, raw = [glyph, next] ∧ table.classify glyph = .mathShift ∧
      table.classify next = .mathShift := by
  cases spelled with
  | doubled shifts again => exact ⟨_, _, rfl, shifts, again⟩
  | alone alone => cases isAlone_of_aloneKind? alone

/-- A comment is spelled with its content, within its line. -/
theorem of_comment {content : Text} (spelled : Spelled table (.comment content) raw) :
    ∃ glyph, raw = glyph :: content ∧ table.classify glyph = .comment ∧
      ∀ glyph ∈ content, table.classify glyph ≠ .endOfLine := by
  cases spelled with
  | comment opens inside => exact ⟨_, rfl, opens, inside⟩
  | alone alone => cases isAlone_of_aloneKind? alone

/-- A space is spelled by spaces. -/
theorem of_space (spelled : Spelled table .space raw) :
    ∀ glyph ∈ raw, table.classify glyph = .space := by
  cases spelled with
  | space _ spaces => exact spaces
  | alone alone => cases isAlone_of_aloneKind? alone

/-- Nothing spells the end of the input. -/
theorem ne_endOfInput {kind : Token.Kind} (spelled : Spelled table kind raw) :
    kind ≠ .endOfInput := by
  rintro rfl
  cases spelled with
  | alone alone => cases isAlone_of_aloneKind? alone

/-- Without the blanks that belong to it, a control word is spelled as well. -/
theorem controlText {token : Token} (spelled : Spelled table token.kind token.raw) :
    Spelled table token.kind token.controlText := by
  unfold Token.controlText
  split
  · rename_i name kind
    rw [kind] at spelled ⊢
    obtain ⟨escape, blanks, written, escapes, named, letters⟩ := spelled.of_word
    have bare : Spelled table (.controlWord name) (escape :: name ++ []) :=
      .word escapes named letters fun _ member => nomatch member
    rw [List.append_nil] at bare
    rwa [written, Nat.add_comm, List.cons_append, List.take_succ_cons, List.take_left]
  · exact spelled

/-- What is printed starts as the token did. -/
theorem head?_controlText {token : Token} (spelled : Spelled table token.kind token.raw) :
    token.controlText.head? = token.raw.head? := by
  unfold Token.controlText
  split
  · obtain ⟨glyph, rest, written⟩ := List.exists_cons_of_ne_nil spelled.ne_nil
    rw [written, Nat.add_comm, List.take_succ_cons]
    rfl
  · rfl

end Spelled

/-- A test takes a run of glyphs up to one that fails it, and leaves the rest. -/
theorem takeWhile_append {test : Glyph → Bool} {run rest : Text}
    (all : ∀ glyph ∈ run, test glyph = true) (stops : ∀ next ∈ rest.head?, test next = false) :
    (run ++ rest).takeWhile test = run ∧ (run ++ rest).dropWhile test = rest := by
  rw [List.takeWhile_append_of_pos all, List.dropWhile_append_of_pos all]
  cases rest with
  | nil => simp
  | cons next later =>
    have stop : test next = false := stops next rfl
    simp [stop]

/-- Plain tables agree on what a space is. -/
theorem reads_dropSpaces_of_plain {other : Catcode.Table} (plain : Plain table)
    (plainOther : Plain other) (rest : Text) :
    reads other (rest.dropWhile fun glyph => table.classify glyph = .space) =
      reads other rest := by
  have same : (fun glyph => decide (table.classify glyph = .space)) =
      fun glyph => decide (other.classify glyph = .space) := by
    funext glyph
    rw [decide_eq_decide, plain.space_iff, plainOther.space_iff]
  rw [same, reads_dropSpaces]

/-- A word is read as such before a glyph that is no letter. -/
theorem reads_word (plain : Plain table) {escape : Glyph} {name blanks rest : Text}
    (escapes : table.classify escape = .escape) (named : name ≠ [])
    (letters : ∀ glyph ∈ name, table.classify glyph = .letter)
    (spaces : ∀ glyph ∈ blanks, table.classify glyph = .space)
    (closes : blanks = [] → ∀ next ∈ rest.head?, table.classify next ≠ .letter) :
    reads table (escape :: name ++ blanks ++ rest) =
      .controlWord name :: reads (behindWord table name) rest := by
  obtain ⟨letter, name, rfl⟩ := List.exists_cons_of_ne_nil named
  rw [List.forall_mem_cons] at letters
  have stops : ∀ next ∈ (blanks ++ rest).head?,
      decide (table.classify next = .letter) = false := by
    intro next first
    cases blanks with
    | nil => exact decide_eq_false (closes rfl next first)
    | cons blank more =>
      cases first
      exact decide_eq_false (by rw [spaces _ List.mem_cons_self]; decide)
  obtain ⟨taken, left⟩ := takeWhile_append
    (fun glyph member => decide_eq_true (letters.2 glyph member)) stops
  have gap : (blanks ++ rest).dropWhile (fun glyph => decide (table.classify glyph = .space)) =
      rest.dropWhile fun glyph => decide (table.classify glyph = .space) :=
    List.dropWhile_append_of_pos fun glyph member => decide_eq_true (spaces glyph member)
  have front : (cut table escape (letter :: name ++ blanks ++ rest)) =
      (⟨.controlWord (letter :: name), escape :: (letter :: name) ++
          (blanks ++ rest).takeWhile fun glyph => table.classify glyph = .space⟩,
        rest.dropWhile fun glyph => table.classify glyph = .space) := by
    simp only [cut, escapes, List.cons_append, List.append_assoc, cutSequence, letters.1, cutWord,
      taken, left, gap]
  have read := reads_cons table escape (letter :: name ++ blanks ++ rest)
  rw [front] at read
  rw [List.cons_append, List.cons_append, read]
  exact congrArg (.controlWord (letter :: name) :: ·)
    (reads_dropSpaces_of_plain plain (plain.behind (.controlWord (letter :: name))) rest)

/-- **Reading a token that is spelled.** In front of a text that does not run together with it,
a token is read as what it is. -/
theorem reads_append (plain : Plain table) {kind : Token.Kind} {raw : Text}
    (spelled : Spelled table kind raw) {rest : Text}
    (closes : ∀ next ∈ rest.head?, Closes table kind raw next) :
    reads table (raw ++ rest) = [kind].filter (!·.isBlank) ++ reads (behind table kind) rest := by
  cases spelled with
  | @word escape name blanks escapes named letters spaces =>
    refine reads_word plain escapes named letters spaces ?_
    intro none next first
    exact closes next first (by simp [none])
  | @symbol escape glyph escapes noLetter noLineEnd =>
    rw [List.cons_append, reads_cons]
    cases category : table.classify glyph with
    | letter => exact absurd category noLetter
    | endOfLine => exact absurd category noLineEnd
    | _ =>
      simp only [cut, escapes, List.cons_append, List.nil_append, cutSequence, category]
  | @lone escape escapes =>
    rw [List.singleton_append, reads_cons]
    cases rest with
    | nil => simp only [cut, escapes, cutSequence, single]
    | cons next later =>
      have ends : table.classify next = .endOfLine := closes next rfl
      simp only [cut, escapes, cutSequence, ends, single]
  | @shift glyph shifts =>
    rw [List.singleton_append, reads_cons]
    cases rest with
    | nil => simp only [cut, shifts, cutShift, single]
    | cons next later =>
      have apart : table.classify next ≠ .mathShift := closes next rfl
      simp only [cut, shifts, cutShift, apart, ↓reduceIte, single]
  | @doubled glyph next shifts again =>
    rw [List.cons_append, reads_cons]
    simp only [cut, shifts, List.cons_append, List.nil_append, cutShift, again, ↓reduceIte]
  | @comment glyph content opens inside =>
    have stops : ∀ next ∈ rest.head?,
        decide (table.classify next ≠ .endOfLine) = false := by
      intro next first
      have ends : table.classify next = .endOfLine := closes next first
      simp [ends]
    obtain ⟨taken, left⟩ := takeWhile_append
      (fun glyph member => decide_eq_true (inside glyph member)) stops
    rw [List.cons_append, reads_cons]
    simp only [cut, opens, run, taken, left]
  | space nonempty spaces =>
    exact reads_blanks plain
      (fun glyph member => .inl ((plain.space_iff glyph).mp (spaces glyph member))) rest
  | lineEnd nonempty ends =>
    exact reads_blanks plain
      (fun glyph member => .inr ((plain.lineEnd_iff glyph).mp (ends glyph member))) rest
  | @alone glyph _ alone =>
    rw [List.singleton_append, reads_cons]
    cases category : table.classify glyph with
    | escape | mathShift | endOfLine | space | comment =>
      rw [category] at alone
      cases alone
    | _ =>
      rw [category] at alone
      cases alone
      simp only [cut, category, single]

/-- In front of a text that runs together with it, a token is not read as what it is. -/
theorem reads_append_of_not_closes {kind : Token.Kind} {raw : Text}
    (spelled : Spelled table kind raw) {next : Glyph} (joins : ¬ Closes table kind raw next)
    (rest : Text) (kinds : List Token.Kind) :
    reads table (raw ++ next :: rest) ≠ [kind].filter (!·.isBlank) ++ kinds := by
  -- A run of glyphs that goes on behind the token is longer than the run of the token.
  have longer : ∀ {test : Glyph → Bool} {run : Text}, (∀ glyph ∈ run, test glyph = true) →
      test next = true → (run ++ next :: rest).takeWhile test ≠ run := by
    intro test run all goesOn same
    rw [List.takeWhile_append_of_pos all, List.takeWhile_cons_of_pos goesOn] at same
    simp at same
  intro read
  cases spelled with
  | @word escape name blanks escapes named letters spaces =>
    simp only [Closes, Classical.not_imp, not_not] at joins
    obtain ⟨short, isLetter⟩ := joins
    have noBlanks : blanks = [] := by
      rw [← List.length_eq_zero_iff]
      simp only [List.cons_append, List.length_cons, List.length_append] at short
      omega
    obtain ⟨letter, name, rfl⟩ := List.exists_cons_of_ne_nil named
    rw [List.forall_mem_cons] at letters
    rw [noBlanks, List.append_nil, List.cons_append, reads_cons] at read
    simp only [cut, escapes, List.cons_append, cutSequence, letters.1, cutWord] at read
    have first := Token.Kind.controlWord.inj (List.head_eq_of_cons_eq read)
    exact longer (fun glyph member => decide_eq_true (letters.2 glyph member))
      (decide_eq_true isLetter) (List.tail_eq_of_cons_eq first)
  | @lone escape escapes =>
    have inside : table.classify next ≠ .endOfLine := joins
    rw [List.singleton_append, reads_cons] at read
    cases category : table.classify next with
    | endOfLine => exact inside category
    | _ =>
      simp only [cut, escapes, cutSequence, category] at read
      cases List.head_eq_of_cons_eq read
  | @shift glyph shifts =>
    have again : table.classify next = .mathShift := not_not.mp joins
    rw [List.singleton_append, reads_cons] at read
    simp only [cut, shifts, cutShift, again, ↓reduceIte] at read
    cases List.head_eq_of_cons_eq read
  | @comment glyph content opens inside =>
    have goesOn : table.classify next ≠ .endOfLine := joins
    rw [List.cons_append, reads_cons] at read
    simp only [cut, opens, run] at read
    exact longer (fun glyph member => decide_eq_true (inside glyph member))
      (decide_eq_true goesOn) (Token.Kind.comment.inj (List.head_eq_of_cons_eq read))
  | alone alone =>
    have single := isAlone_of_aloneKind? alone
    apply joins
    unfold Closes
    split <;> first | cases single | trivial
  | _ => exact joins trivial

/-- What is cut from a text is spelled there, and does not run together with what is behind. -/
structure Severed (table : Catcode.Table) (text : Text) (front : Piece × Text) : Prop where
  split : front.1.raw ++ front.2 = text
  spelled : Spelled table front.1.kind front.1.raw
  closes : ∀ next ∈ front.2.head?, Closes table front.1.kind front.1.raw next

theorem stops_dropWhile (test : Glyph → Bool) (text : Text) :
    ∀ next ∈ (text.dropWhile test).head?, test next = false := by
  intro next first
  have stops := List.head?_dropWhile_not test text
  rw [Option.mem_def.mp first] at stops
  exact stops

/-- A run of glyphs is severed from what is behind it. -/
theorem severed_run {wanted : Catcode → Bool} {kind : Text → Token.Kind} {glyph : Glyph}
    {rest : Text}
    (spelled : ∀ taken : Text, (∀ glyph ∈ taken, wanted (table.classify glyph) = true) →
      Spelled table (kind taken) (glyph :: taken))
    (closes : ∀ taken raw next, wanted (table.classify next) = false →
      Closes table (kind taken) raw next) :
    Severed table (glyph :: rest) (run table wanted kind glyph rest) where
  split := congrArg (glyph :: ·) List.takeWhile_append_dropWhile
  spelled := by
    apply spelled
    intro glyph member
    have taken := List.mem_takeWhile_imp member
    exact taken
  closes next first := closes _ _ next (stops_dropWhile _ rest next first)

/-- A control word is severed from what is behind it. -/
theorem severed_cutWord {escape letter : Glyph} (rest : Text)
    (escapes : table.classify escape = .escape) (first : table.classify letter = .letter) :
    Severed table (escape :: letter :: rest) (cutWord table escape letter rest) where
  split := by
    simp [cutWord, List.takeWhile_append_dropWhile]
  spelled := by
    refine .word escapes (List.cons_ne_nil _ _) ?_ ?_
    · rw [List.forall_mem_cons]
      refine ⟨first, fun glyph member => ?_⟩
      have taken := List.mem_takeWhile_imp member
      exact of_decide_eq_true taken
    · intro glyph member
      have taken := List.mem_takeWhile_imp member
      exact of_decide_eq_true taken
  closes next ahead short := by
    -- Without blanks taken, what is behind the word is what stopped its name.
    have noBlanks : ((rest.dropWhile fun glyph => table.classify glyph = .letter).takeWhile
        fun glyph => table.classify glyph = .space) = [] := by
      rw [← List.length_eq_zero_iff]
      simp only [cutWord, List.cons_append, List.length_cons, List.length_append] at short
      omega
    have behindName :
        next ∈ (rest.dropWhile fun glyph => table.classify glyph = .letter).head? := by
      have whole := List.takeWhile_append_dropWhile (p := fun glyph =>
        decide (table.classify glyph = .space))
        (l := rest.dropWhile fun glyph => table.classify glyph = .letter)
      rw [noBlanks, List.nil_append] at whole
      rw [← whole]
      exact ahead
    exact of_decide_eq_false (stops_dropWhile _ rest next behindName)

/-- A control sequence is severed from what is behind it. -/
theorem severed_cutSequence {escape : Glyph} (rest : Text)
    (escapes : table.classify escape = .escape) :
    Severed table (escape :: rest) (cutSequence table escape rest) := by
  cases rest with
  | nil => exact ⟨rfl, .lone escapes, nofun⟩
  | cons glyph later =>
    dsimp only [cutSequence]
    cases category : table.classify glyph with
    | endOfLine =>
      refine ⟨rfl, .lone escapes, fun next first => ?_⟩
      cases first
      exact category
    | letter => exact severed_cutWord later escapes category
    | _ =>
      exact ⟨rfl, .symbol escapes (by rw [category]; decide) (by rw [category]; decide),
        fun _ _ => trivial⟩

/-- A math shift is severed from what is behind it. -/
theorem severed_cutShift {glyph : Glyph} (rest : Text)
    (shifts : table.classify glyph = .mathShift) :
    Severed table (glyph :: rest) (cutShift table glyph rest) := by
  cases rest with
  | nil => exact ⟨rfl, .shift shifts, nofun⟩
  | cons next later =>
    dsimp only [cutShift]
    by_cases again : table.classify next = .mathShift
    · rw [if_pos again]
      exact ⟨rfl, .doubled shifts again, fun _ _ => trivial⟩
    · rw [if_neg again]
      refine ⟨rfl, .shift shifts, fun other first => ?_⟩
      cases first
      exact again

/-- A line end is severed, with its blanks, from what is behind it. -/
theorem severed_cutLineEnd (plain : Plain table) {glyph : Glyph} (rest : Text)
    (ends : table.classify glyph = .endOfLine) :
    Severed table (glyph :: rest) (cutLineEnd glyph rest) := by
  unfold cutLineEnd
  split
  · have second : table.classify (.char '\n') = .endOfLine := (plain.lineEnd_iff _).mpr rfl
    refine ⟨rfl, .lineEnd (List.cons_ne_nil _ _) ?_, fun _ _ => trivial⟩
    rw [List.forall_mem_cons, List.forall_mem_singleton]
    exact ⟨ends, second⟩
  · exact ⟨rfl, .lineEnd (List.cons_ne_nil _ _) (List.forall_mem_singleton.mpr ends),
      fun _ _ => trivial⟩

/-- **What is cut is spelled.** -/
theorem severed_cut (plain : Plain table) (glyph : Glyph) (rest : Text) :
    Severed table (glyph :: rest) (cut table glyph rest) := by
  unfold cut
  cases category : table.classify glyph with
  | escape => exact severed_cutSequence rest category
  | mathShift => exact severed_cutShift rest category
  | endOfLine => exact severed_cutLineEnd plain rest category
  | space =>
    refine severed_run (fun taken spaces => .space (List.cons_ne_nil _ _) ?_) fun _ _ _ _ => trivial
    rw [List.forall_mem_cons]
    exact ⟨category, fun glyph member => of_decide_eq_true (spaces glyph member)⟩
  | comment =>
    refine severed_run (fun taken inside => .comment category ?_) fun _ _ next stops => ?_
    · exact fun glyph member => of_decide_eq_true (inside glyph member)
    · have ends : table.classify next = .endOfLine := by simpa using stops
      exact ends
  | _ => exact ⟨rfl, .alone (by rw [category]; rfl), fun _ _ => by trivial⟩

/-- Tokens of the given kinds can be read one after the other from a first table to a last one,
in front of a next glyph if there is one. Two math shifts may stand for a doubled one. -/
inductive Legible : (table : Catcode.Table) → List Token → (next : Option Glyph) →
    List Token.Kind → (last : Catcode.Table) → Prop where
  | nil (table : Catcode.Table) (next : Option Glyph) : Legible table [] next [] table
  | cons {table last : Catcode.Table} {token : Token} {tokens : List Token} {next : Option Glyph}
      {kinds : List Token.Kind} (spelled : Spelled table token.kind token.raw)
      (closes : ∀ glyph ∈ (Token.rawText tokens).head?.or next,
        Closes table token.kind token.raw glyph)
      (later : Legible (behind table token.kind) tokens next kinds last) :
      Legible table (token :: tokens) next ([token.kind].filter (!·.isBlank) ++ kinds) last
  | halves {table last : Catcode.Table} {first second : Token} {tokens : List Token}
      {next : Option Glyph} {kinds : List Token.Kind} (kind : first.kind = .mathShift false)
      (same : second.kind = .mathShift false)
      (spelled : Spelled table (.mathShift true) (first.raw ++ second.raw))
      (written : first.raw ≠ []) (also : second.raw ≠ [])
      (later : Legible table tokens next kinds last) :
      Legible table (first :: second :: tokens) next (.mathShift true :: kinds) last

namespace Legible

variable {last : Catcode.Table} {tokens : List Token} {next : Option Glyph}
  {kinds : List Token.Kind}

/-- A legible sequence is read as its kinds. -/
theorem reads (plain : Plain table) (legible : Legible table tokens next kinds last)
    {rest : Text} (ahead : rest.head? = next) :
    Lexer.reads table (Token.rawText tokens ++ rest) = kinds ++ Lexer.reads last rest := by
  induction legible with
  | nil => rfl
  | @cons table last token tokens next kinds spelled closes later ih =>
    rw [Token.rawText_cons, List.append_assoc, reads_append plain spelled,
      ih (plain.behind _) ahead, List.append_assoc]
    intro glyph first
    apply closes glyph
    rwa [List.head?_append, ahead] at first
  | @halves table last first second tokens next kinds kind same spelled written also later ih =>
    have whole : Lexer.reads table (first.raw ++ second.raw ++ (Token.rawText tokens ++ rest)) =
        .mathShift true :: Lexer.reads table (Token.rawText tokens ++ rest) :=
      reads_append plain spelled fun _ _ => trivial
    rw [Token.rawText_cons, Token.rawText_cons, ← List.append_assoc, List.append_assoc, whole,
      ih plain ahead, List.cons_append]

/-- Reading a legible sequence leads from plain tables to plain ones. -/
theorem plain_last (plain : Plain table) (legible : Legible table tokens next kinds last) :
    Plain last := by
  induction legible with
  | nil => exact plain
  | cons _ _ _ ih => exact ih (plain.behind _)
  | halves _ _ _ _ _ _ ih => exact ih plain

/-- The parts of a legible sequence are legible, if no two halves are parted. -/
theorem split {first second : List Token}
    (legible : Legible table (first ++ second) next kinds last)
    (whole : ∀ token ∈ second.head?, token.isMathShift = false) :
    ∃ middle before after, kinds = before ++ after ∧
      Legible table first ((Token.rawText second).head?.or next) before middle ∧
      Legible middle second next after last := by
  generalize joined : first ++ second = all at legible
  induction legible generalizing first with
  | nil table next =>
    obtain ⟨rfl, rfl⟩ := List.append_eq_nil_iff.mp joined
    exact ⟨table, [], [], rfl, .nil _ _, .nil _ _⟩
  | @cons table last token tokens next kinds spelled closes later ih =>
    cases first with
    | nil =>
      rw [List.nil_append] at joined
      subst joined
      exact ⟨table, [], _, rfl, .nil _ _, .cons spelled closes later⟩
    | cons head first =>
      obtain ⟨rfl, rfl⟩ := List.cons.inj joined
      obtain ⟨middle, before, after, rfl, earlier, behind⟩ := ih rfl
      refine ⟨middle, _, after, (List.append_assoc ..).symm, .cons spelled ?_ earlier, behind⟩
      rwa [← Option.or_assoc, ← List.head?_append, ← Token.rawText_append]
  | @halves table last one other tokens next kinds kind same spelled written also later ih =>
    match first with
    | [] =>
      rw [List.nil_append] at joined
      subst joined
      exact ⟨table, [], _, rfl, .nil _ _, .halves kind same spelled written also later⟩
    | [head] =>
      obtain ⟨rfl, rfl⟩ := List.cons.inj joined
      have apart := whole other rfl
      simp [Token.isMathShift, same] at apart
    | head :: neck :: first =>
      simp only [List.cons_append, List.cons.injEq] at joined
      obtain ⟨rfl, rfl, rfl⟩ := joined
      obtain ⟨middle, before, after, rfl, earlier, behind⟩ := ih rfl
      exact ⟨middle, _, after, rfl, .halves kind same spelled written also earlier, behind⟩

/-- A sequence is legible in front of a line end if it is in front of anything. -/
theorem ended (plain : Plain table) (legible : Legible table tokens next kinds last)
    {glyph : Glyph} (ends : Catcode.initial glyph = .endOfLine) :
    Legible table tokens (some glyph) kinds last := by
  induction legible with
  | nil => exact .nil _ _
  | @cons table last token tokens next kinds spelled closes later ih =>
    refine .cons spelled (fun other first => ?_) (ih (plain.behind _))
    cases written : Token.rawText tokens with
    | nil =>
      rw [written] at first
      cases first
      exact closes_lineEnd ((plain.lineEnd_iff _).mpr ends) _ _
    | cons head rest =>
      rw [written] at first closes
      exact closes other first
  | halves kind same spelled written also later ih =>
    exact .halves kind same spelled written also (ih plain)

/-- Spaces in front of a sequence do not matter. -/
theorem dropSpaces (legible : Legible table tokens next kinds last) :
    Legible table (tokens.dropWhile Token.isSpace) next kinds last := by
  induction legible with
  | nil => exact .nil _ _
  | @cons table last token tokens next kinds spelled closes later ih =>
    cases space : token.isSpace with
    | true =>
      have kind : token.kind = .space := of_decide_eq_true space
      rw [kind] at ih ⊢
      rw [List.dropWhile_cons_of_pos space]
      exact ih
    | false =>
      rw [List.dropWhile_cons_of_neg (by simp [space])]
      exact .cons spelled closes later
  | halves kind same spelled written also later ih =>
    rw [List.dropWhile_cons_of_neg (by simp [Token.isSpace, kind])]
    exact .halves kind same spelled written also later

/-- Spaces alone are read as nothing. -/
theorem eq_of_spaces (legible : Legible table tokens next kinds last)
    (spaces : ∀ token ∈ tokens, token.isSpace = true) : kinds = [] ∧ last = table := by
  have nothing := legible.dropSpaces
  rw [List.dropWhile_eq_nil_iff.mpr spaces] at nothing
  cases nothing
  exact ⟨rfl, rfl⟩

/-- Splitting doubled math shifts keeps a sequence legible. -/
theorem splits {others : List Token} (legible : Legible table tokens next kinds last)
    (splits : Parser.Splits tokens others) : Legible table others next kinds last := by
  induction legible generalizing others with
  | nil =>
    rw [splits.eq_nil]
    exact .nil _ _
  | @cons table last token tokens next kinds spelled closes later ih =>
    cases splits with
    | keep _ rest => exact .cons spelled (by rwa [rest.rawText_eq]) (ih rest)
    | split doubled rest =>
      rw [doubled] at spelled later ih ⊢
      obtain ⟨glyph, second, raw, shifts, again⟩ := spelled.of_doubled
      refine .halves rfl rfl ?_ ?_ ?_ (ih rest)
      · rw [Parser.raw_splitShift]
        exact spelled
      · simp [Parser.splitShift, raw]
      · simp [Parser.splitShift, raw]
  | @halves table last one other tokens next kinds kind same spelled written also later ih =>
    obtain ⟨_, rfl, behind⟩ := splits.cons_inv (by rw [kind]; decide)
    obtain ⟨_, rfl, rest⟩ := behind.cons_inv (by rw [same]; decide)
    exact .halves kind same spelled written also (ih rest)

end Legible

/-- Pieces make up the text that they are cut from. -/
theorem flatMap_raw_pieces (plain : Plain table) (text : Text) :
    (pieces table text).flatMap Piece.raw = text := by
  fun_induction pieces table text with
  | case1 => rfl
  | case2 table glyph rest ih =>
    rw [List.flatMap_cons, ih (plain.behind _)]
    exact (severed_cut plain glyph rest).split

/-- No piece is the end of the input. -/
theorem ne_endOfInput_of_mem_pieces (plain : Plain table) (text : Text) :
    ∀ piece ∈ pieces table text, piece.kind ≠ .endOfInput := by
  fun_induction pieces table text with
  | case1 => exact List.forall_mem_nil _
  | case2 table glyph rest ih =>
    rw [List.forall_mem_cons]
    exact ⟨(severed_cut plain glyph rest).spelled.ne_endOfInput, ih (plain.behind _)⟩

/-- The tokens of a text are legible. -/
theorem legible_of_pieces (plain : Plain table) {text : Text} {tokens : List Token}
    (same : tokens.map pieceOf = pieces table text) :
    ∃ last, Legible table tokens none ((tokens.map Token.kind).filter (!·.isBlank)) last := by
  fun_induction pieces table text generalizing tokens with
  | case1 table =>
    rw [List.map_eq_nil_iff.mp same]
    exact ⟨table, .nil _ _⟩
  | case2 table glyph rest ih =>
    cases tokens with
    | nil => cases same
    | cons token tokens =>
      obtain ⟨first, later⟩ := List.cons.inj same
      obtain ⟨last, legible⟩ := ih (plain.behind _) later
      have severed := severed_cut plain glyph rest
      have text : Token.rawText tokens = (cut table glyph rest).2 := by
        rw [← flatMap_raw_pieces (plain.behind _) (cut table glyph rest).2, ← later,
          List.flatMap_map]
        rfl
      have kind : (cut table glyph rest).1.kind = token.kind :=
        congrArg Piece.kind first.symm
      have raw : (cut table glyph rest).1.raw = token.raw := congrArg Piece.raw first.symm
      rw [kind] at legible
      refine ⟨last, ?_⟩
      rw [List.map_cons, ← List.singleton_append (l := tokens.map Token.kind), List.filter_append]
      refine .cons ?_ ?_ legible
      · rw [← kind, ← raw]
        exact severed.spelled
      · rw [text, Option.or_none, ← kind, ← raw]
        exact severed.closes

/-- A control word is read in a text if a piece of the text is that word. -/
theorem mem_reads_word {text name : Text} :
    .controlWord name ∈ reads table text ↔
      ∃ piece ∈ pieces table text, piece.kind = .controlWord name := by
  simp only [reads, List.mem_filter, List.mem_map]
  constructor
  · rintro ⟨⟨piece, member, same⟩, _⟩
    exact ⟨piece, member, same⟩
  · rintro ⟨piece, member, same⟩
    exact ⟨⟨piece, member, same⟩, rfl⟩

/-- No piece of a text assigns category codes by number if the word for it is not read there. -/
theorem noCatcode_iff {text : Text} :
    (∀ piece ∈ pieces table text, isCatcode piece.kind = false) ↔
      .controlWord "catcode" ∉ reads table text := by
  simp [mem_reads_word, isCatcode]

/-- Pieces that are those of tokens have their kinds. -/
theorem kinds_of_pieces {text : Text} {tokens : List Token}
    (same : tokens.map pieceOf = pieces table text) :
    (pieces table text).map Piece.kind = tokens.map Token.kind := by
  rw [← same, List.map_map]
  rfl

/-- The content of the tokens of a text is what the text is read as. -/
theorem content_of_pieces (plain : Plain table) {text : Text} {tokens : List Token} {last : Token}
    (same : tokens.map pieceOf = pieces table text) (ends : last.isEndOfInput = true) :
    Token.content (tokens ++ [last]) = reads table text := by
  have kinds := kinds_of_pieces same
  have ended : last.kind = .endOfInput := of_decide_eq_true ends
  have kept : Token.content tokens = (tokens.map Token.kind).filter (!·.isBlank) := by
    apply List.filter_congr
    intro kind member
    rw [← kinds] at member
    obtain ⟨piece, among, rfl⟩ := List.mem_map.mp member
    simp [ne_endOfInput_of_mem_pieces plain text piece among]
  rw [reads, kinds, ← kept, Token.content, List.map_append, List.filter_append]
  simp [ended, Token.content]

/-- **Whole texts.** A text in which no category codes are assigned by number is lexed to tokens
with the content that the text is read as. -/
theorem lex_of_reads (plain : Plain table) {text : Text}
    (noCatcode : .controlWord "catcode" ∉ reads table text) (fileId : FileId) :
    ∃ tokens reports, lex text table fileId = .ok (tokens, reports) ∧
      Token.content tokens = reads table text := by
  obtain ⟨content, last, reports, read, ends, same⟩ :=
    lex_of_pieces fileId (noCatcode_iff.mpr noCatcode)
  exact ⟨_, _, read, content_of_pieces plain same ends⟩

/-- If the content of its tokens assigns no category codes by number, it is what a text is read
as. -/
theorem reads_of_lex (plain : Plain table) {text : Text} {fileId : FileId} {tokens : List Token}
    {reports : List Diagnostic} (lexed : lex text table fileId = .ok (tokens, reports))
    (noCatcode : .controlWord "catcode" ∉ Token.content tokens) :
    reads table text = Token.content tokens := by
  have harmless : ∀ piece ∈ pieces table text, isCatcode piece.kind = false := by
    apply noCatcode_of_scan
    rw [tokens_scan_of_lex lexed]
    intro token member
    refine decide_eq_false fun kind => noCatcode ?_
    rw [← kind]
    exact List.mem_filter.mpr ⟨List.mem_map_of_mem member, by simp [kind, Token.Kind.isBlank]⟩
  obtain ⟨content, last, others, again, ends, same⟩ := lex_of_pieces fileId harmless
  obtain ⟨rfl, rfl⟩ := Prod.mk.inj (Except.ok.inj (lexed.symm.trans again))
  exact (content_of_pieces plain same ends).symm

end Lexer

end TexSource
