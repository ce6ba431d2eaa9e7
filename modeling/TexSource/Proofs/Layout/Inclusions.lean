import TexSource.Proofs.Expansion.Represented
import TexSource.Proofs.Layout

/-!
# Included documents in a layout

An expansion puts braces of no width around a directive, and they stay around the document that is
included. They are not written, but they have a place in the layout. As long as they keep no blanks
from the ends of a line and have no line of their own, a document is laid out like one with the same
tokens and without them, up to margins (`Layout.format_inclusions`). Lines inside such braces are
indented, though (`Layout.not_format_inclusions_twoLinesDisk`).
-/

namespace TexSource

namespace Token

/-- A brace of no width, as an expansion puts it around a directive. -/
def isSeam (token : Token) : Bool :=
  (token.isBeginGroup || token.isEndGroup) && token.raw.isEmpty

variable {token : Token} {tokens others : List Token}

/-- A seam has no text. -/
theorem raw_of_isSeam (seam : token.isSeam = true) : token.raw = [] := by
  simp only [isSeam, Bool.and_eq_true, List.isEmpty_iff] at seam
  exact seam.2

/-- A seam is no blank. -/
theorem isSpace_of_isSeam (seam : token.isSeam = true) : token.isSpace = false := by
  cases kind : token.kind <;> simp_all [isSeam, isBeginGroup, isEndGroup, isSpace]

theorem isEndOfLine_of_isSeam (seam : token.isSeam = true) : token.isEndOfLine = false := by
  cases kind : token.kind <;> simp_all [isSeam, isBeginGroup, isEndGroup, isEndOfLine]

theorem isSeam_of_isSpace (space : token.isSpace = true) : token.isSeam = false := by
  cases seam : token.isSeam with
  | false => rfl
  | true => exact space.symm.trans (isSpace_of_isSeam seam)

/-- Tokens without the braces of no width. -/
def seamless (tokens : List Token) : List Token :=
  tokens.filter (!·.isSeam)

/-- A seam is left out. -/
theorem seamless_cons_of_seam (seam : token.isSeam = true) (tokens : List Token) :
    seamless (token :: tokens) = seamless tokens := by
  simp [seamless, seam]

/-- A token that is no seam stays. -/
theorem seamless_cons (plain : token.isSeam = false) (tokens : List Token) :
    seamless (token :: tokens) = token :: seamless tokens := by
  simp [seamless, plain]

/-- Braces of no width are written as nothing. -/
theorem rawText_seamless (tokens : List Token) : rawText (seamless tokens) = rawText tokens := by
  induction tokens with
  | nil => rfl
  | cons token rest ih =>
    cases seam : token.isSeam with
    | true => rw [seamless_cons_of_seam seam, ih, rawText_cons, raw_of_isSeam seam, List.nil_append]
    | false => rw [seamless_cons seam, rawText_cons, ih, rawText_cons]

/-- No blanks stand between the last token that is seen, braces of no width behind it, and the end:
a token that has only such braces and spaces behind it is no space, and has no blanks at its end. -/
def EndsFlush : List Token → Prop
  | [] => True
  | token :: rest =>
    (rest.all isSpace = false → (seamless rest).all isSpace = true → token.isSeam = false →
      token.isSpace = false ∧ token.raw = token.controlText) ∧ EndsFlush rest

/-- Whether tokens end flush can be computed. -/
def decidableEndsFlush : (tokens : List Token) → Decidable (EndsFlush tokens)
  | [] => isTrue trivial
  | _ :: rest =>
    have := decidableEndsFlush rest
    inferInstanceAs (Decidable (_ ∧ _))

instance (tokens : List Token) : Decidable (EndsFlush tokens) :=
  decidableEndsFlush tokens

/-- Blanks before do not matter for the end. -/
theorem EndsFlush.dropSpaces (flush : EndsFlush tokens) : EndsFlush (tokens.dropWhile isSpace) := by
  induction tokens with
  | nil => exact flush
  | cons token rest ih =>
    rw [List.dropWhile_cons]
    split
    · exact ih flush.2
    · exact flush

/-- Of blanks alone nothing is left. -/
theorem trimEnd_of_spaces (spaces : tokens.all isSpace = true) : trimEnd tokens = [] := by
  cases tokens with
  | nil => rfl
  | cons token rest =>
    simp only [List.all_cons, Bool.and_eq_true] at spaces
    rw [trimEnd, if_pos spaces.2, if_pos spaces.1]

/-- At a flush end, the same is trimmed without the braces of no width. -/
theorem rawText_trimEnd_seamless (flush : EndsFlush tokens) :
    rawText (trimEnd (seamless tokens)) = rawText (trimEnd tokens) := by
  induction tokens with
  | nil => rfl
  | cons token rest ih =>
    obtain ⟨own, later⟩ := flush
    have ih := ih later
    have kept (spaces : rest.all isSpace = true) : seamless rest = rest :=
      List.filter_eq_self.mpr fun other member => by
        simp [isSeam_of_isSpace (List.all_eq_true.mp spaces other member)]
    cases seam : token.isSeam with
    | true =>
      rw [seamless_cons_of_seam seam, ih, trimEnd]
      split
      · rename_i spaces
        simp [trimEnd_of_spaces spaces, isSpace_of_isSeam seam, controlText, raw_of_isSeam seam]
        split <;> rfl
      · rw [rawText_cons, raw_of_isSeam seam, List.nil_append]
    | false =>
      rw [seamless_cons seam]
      cases spaces : rest.all isSpace with
      | true => rw [kept spaces]
      | false =>
        rw [trimEnd, trimEnd, spaces, if_neg Bool.false_ne_true, rawText_cons, ← ih]
        cases hidden : (seamless rest).all isSpace with
        | true =>
          obtain ⟨solid, flush⟩ := own spaces hidden seam
          simp [solid, ← flush, trimEnd_of_spaces hidden]
        | false => rw [if_neg Bool.false_ne_true, rawText_cons]

/-- Past the spaces at the front, the first token that is seen is no space. -/
def StartsFlush (tokens : List Token) : Prop :=
  ∀ token ∈ (seamless (tokens.dropWhile isSpace)).head?, token.isSpace = false

instance (tokens : List Token) : Decidable (StartsFlush tokens) :=
  inferInstanceAs (Decidable (∀ token ∈ (seamless (tokens.dropWhile isSpace)).head?, _))

/-- Blanks at the start and seams may be left out in either order. -/
theorem dropWhile_seamless (flush : StartsFlush tokens) :
    (seamless tokens).dropWhile isSpace = seamless (tokens.dropWhile isSpace) := by
  induction tokens with
  | nil => rfl
  | cons token rest ih =>
    cases space : token.isSpace with
    | true =>
      unfold StartsFlush at flush
      rw [List.dropWhile_cons_of_pos space] at flush ⊢
      rw [seamless_cons (isSeam_of_isSpace space), List.dropWhile_cons_of_pos space, ih flush]
    | false =>
      unfold StartsFlush at flush
      rw [List.dropWhile_cons_of_neg (by simp [space])] at flush ⊢
      cases found : seamless (token :: rest) with
      | nil => rfl
      | cons first others =>
        rw [List.dropWhile_cons_of_neg (by simp [flush first (by simp [found])])]

/-- Two tokens are of one kind and are written as one text. -/
structure Alike (token other : Token) : Prop where
  kind : token.kind = other.kind
  raw : token.raw = other.raw

instance (token other : Token) : Decidable (token.Alike other) :=
  decidable_of_iff (token.kind = other.kind ∧ token.raw = other.raw)
    ⟨fun ⟨kind, raw⟩ => ⟨kind, raw⟩, fun ⟨kind, raw⟩ => ⟨kind, raw⟩⟩

namespace Alike

variable {other : Token}

section

variable (alike : token.Alike other)

include alike

theorem isSpace : token.isSpace = other.isSpace := by
  rw [Token.isSpace, Token.isSpace, alike.kind]

theorem isEndOfLine : token.isEndOfLine = other.isEndOfLine := by
  rw [Token.isEndOfLine, Token.isEndOfLine, alike.kind]

theorem isComment : token.isComment = other.isComment := by
  rw [Token.isComment, Token.isComment, alike.kind]

theorem controlText : token.controlText = other.controlText := by
  rw [Token.controlText, Token.controlText, alike.kind, alike.raw]

end

variable (alike : List.Forall₂ Alike tokens others)

include alike

/-- What tokens that are alike share holds for all of them or for none. -/
theorem forall_mem {holds : Token → Prop}
    (keeps : ∀ token other : Token, token.Alike other → holds token → holds other)
    (tokensHold : ∀ token ∈ tokens, holds token) : ∀ token ∈ others, holds token := by
  induction alike with
  | nil => exact fun _ member => absurd member List.not_mem_nil
  | cons first _ ih =>
    rw [List.forall_mem_cons] at tokensHold ⊢
    exact ⟨keeps _ _ first tokensHold.1, ih tokensHold.2⟩

/-- Tokens that are alike are blank both or neither. -/
theorem all_isSpace : tokens.all Token.isSpace = others.all Token.isSpace := by
  induction alike with
  | nil => rfl
  | cons first _ ih => rw [List.all_cons, List.all_cons, first.isSpace, ih]

/-- Tokens that are alike have one text. -/
theorem rawText : Token.rawText tokens = Token.rawText others := by
  induction alike with
  | nil => rfl
  | cons first _ ih => rw [rawText_cons, rawText_cons, first.raw, ih]

/-- Tokens that are alike have one text without the blanks at the end. -/
theorem rawText_trimEnd :
    Token.rawText (trimEnd tokens) = Token.rawText (trimEnd others) := by
  induction alike with
  | nil => rfl
  | cons first later ih =>
    rw [trimEnd, trimEnd, all_isSpace later, first.isSpace]
    split
    · split
      · rfl
      · simp [first.controlText]
    · rw [rawText_cons, rawText_cons, first.raw, ih]

/-- Without the blanks at the start, tokens stay alike. -/
theorem dropSpaces :
    List.Forall₂ Alike (tokens.dropWhile Token.isSpace) (others.dropWhile Token.isSpace) := by
  induction alike with
  | nil => exact .nil
  | cons first later ih =>
    rw [List.dropWhile_cons, List.dropWhile_cons, first.isSpace]
    split
    · exact ih
    · exact .cons first later

end Alike

end Token

namespace Layout

open Expansion Token

/-- Two texts differ in their margins only. -/
def DifferInMargin (indent text other : Text) : Prop :=
  ∃ depth otherDepth code, text = margin indent depth ++ code ∧
    other = margin indent otherDepth ++ code

/-- A text differs from itself in no margin. -/
theorem DifferInMargin.refl (indent text : Text) : DifferInMargin indent text text :=
  ⟨0, 0, text, rfl, rfl⟩

namespace Line

/-- The text of a line without the blanks at its ends. -/
def trimmed (line : Line) : Text :=
  Token.rawText (Token.trimEnd ((line.items.map Item.token).dropWhile Token.isSpace))

/-- The major command that a line starts in. -/
def major? (line : Line) : Option Text :=
  line.first?.bind fun item => item.key <|> item.block

/-- The depth at which a line starts. -/
def depth? (line : Line) : Option Nat :=
  line.first?.map Item.depth

/-- A line has more to show than braces of no width, and no blanks stand between them and its
ends. -/
structure Seamless (line : Line) : Prop where
  seen : (seamless (line.items.map Item.token)).all isSpace = true →
    (line.items.map Item.token).all isSpace = true
  starts : StartsFlush (line.items.map Item.token)
  ends : EndsFlush (line.items.map Item.token)

instance (line : Line) : Decidable line.Seamless :=
  decidable_of_iff ((_ → _) ∧ StartsFlush (line.items.map Item.token) ∧
      EndsFlush (line.items.map Item.token))
    ⟨fun ⟨seen, starts, ends⟩ => ⟨seen, starts, ends⟩,
      fun flush => ⟨flush.seen, flush.starts, flush.ends⟩⟩

/-- A line that is not empty has more than braces of no width. -/
theorem Seamless.seamless_ne_nil {line : Line} (flush : line.Seamless) (some : line.items ≠ []) :
    seamless (line.items.map Item.token) ≠ [] := by
  intro unseen
  have spaces := flush.seen (by rw [unseen]; rfl)
  have kept : seamless (line.items.map Item.token) = line.items.map Item.token :=
    List.filter_eq_self.mpr fun token member => by
      simp [isSeam_of_isSpace (List.all_eq_true.mp spaces token member)]
  exact some (List.map_eq_nil_iff.mp (kept.symm.trans unseen))

/-- A line has the tokens of another one, and braces of no width besides. -/
structure Inlines (line other : Line) : Prop where
  alike : List.Forall₂ Alike (seamless (line.items.map Item.token)) (other.items.map Item.token)

/-- Two lines start in the same major command, in a verbatim environment or not. -/
structure SameSetting (line other : Line) : Prop where
  isRaw : line.isRaw = other.isRaw
  major : line.major? = other.major?

instance (line other : Line) : Decidable (line.SameSetting other) :=
  decidable_of_iff (line.isRaw = other.isRaw ∧ line.major? = other.major?)
    ⟨fun ⟨isRaw, major⟩ => ⟨isRaw, major⟩, fun setting => ⟨setting.isRaw, setting.major⟩⟩

/-- Two lines start at the same depth. -/
def SameDepth (line other : Line) : Prop :=
  line.depth? = other.depth?

instance (line other : Line) : Decidable (line.SameDepth other) :=
  inferInstanceAs (Decidable (_ = _))

variable {line other : Line}

theorem isCommentOnly_eq_false
    (uncommented : ∀ item ∈ line.items, item.token.isComment = false) :
    line.isCommentOnly = false := by
  unfold isCommentOnly
  split
  · rename_i item found
    apply uncommented
    exact (List.dropWhile_sublist _).subset (by rw [found]; exact List.mem_singleton_self item)
  · rfl

/-- The text of a line is that of its tokens without the blanks around them. -/
theorem textOf_eq_trimmed (line : Line) :
    textOf (Layout.trimEnd (line.items.dropWhile (·.token.isSpace))) = line.trimmed := by
  rw [textOf_trimEnd, trimmed, List.dropWhile_map]
  rfl

/-- Without comments, code is written behind its margin, without the blanks at its ends. -/
theorem codeLine_eq (indent : Text)
    (uncommented : ∀ item ∈ line.items, item.token.isComment = false) :
    codeLine indent line = margin indent (line.depth?.getD 0) ++ line.trimmed := by
  have text := line.textOf_eq_trimmed
  cases found : line.first? with
  | none =>
    have dropped : line.items.dropWhile (·.token.isSpace) = [] := by
      simpa [first?] using found
    rw [dropped] at text
    rw [codeLine, dropped, ← text, depth?, found]
    rfl
  | some first =>
    obtain ⟨solid, rest, dropped⟩ := exists_dropSpaces found
    obtain ⟨later, trimmed⟩ := exists_trimEnd solid rest
    obtain ⟨spaces, whole, -⟩ := exists_spaces (first :: rest)
    have inside : ∀ item ∈ first :: later, item.token.isComment = false := by
      intro item member
      apply uncommented
      apply (List.dropWhile_sublist (·.token.isSpace)).subset
      rw [dropped, whole, trimmed]
      exact List.mem_append_left _ member
    rw [dropped, trimmed] at text
    rw [codeLine, dropped, depth?, found, ← text]
    dsimp only
    rw [trimmed]
    cases later with
    | nil => rfl
    | cons second later =>
      obtain ⟨last, shown⟩ := Option.isSome_iff_exists.mp
        (List.getLast?_isSome.mpr (List.cons_ne_nil first (second :: later)))
      simp only [shown, inside last (List.mem_of_getLast? shown)]
      rfl

section

variable (inlines : line.Inlines other)

include inlines

/-- Lines of inlined text have one text. -/
theorem Inlines.rawText : line.rawText = other.rawText := by
  rw [line.rawText_eq, other.rawText_eq, ← rawText_seamless]
  exact Alike.rawText inlines.alike

theorem Inlines.uncommented (uncommented : ∀ item ∈ line.items, item.token.isComment = false) :
    ∀ item ∈ other.items, item.token.isComment = false := by
  have kept : ∀ token ∈ seamless (line.items.map Item.token), token.isComment = false := by
    intro token member
    obtain ⟨item, among, rfl⟩ := List.mem_map.mp (List.mem_of_mem_filter member)
    exact uncommented item among
  have there := Alike.forall_mem inlines.alike
    (fun token other alike plain => by rwa [← alike.isComment]) kept
  exact fun item member => there _ (List.mem_map_of_mem member)

variable (flush : line.Seamless)

include flush

/-- Lines of inlined text have one text without the blanks around it. -/
theorem Inlines.trimmed : line.trimmed = other.trimmed := by
  rw [Line.trimmed, Line.trimmed, ← rawText_trimEnd_seamless flush.ends.dropSpaces,
    ← dropWhile_seamless flush.starts]
  exact Alike.rawText_trimEnd (Alike.dropSpaces inlines.alike)

/-- Without comments, their printed lines differ in the margin only. -/
theorem Inlines.differInMargin (uncommented : ∀ item ∈ line.items, item.token.isComment = false)
    (indent : Text) : DifferInMargin indent (codeLine indent line) (codeLine indent other) :=
  ⟨_, _, line.trimmed, line.codeLine_eq indent uncommented, by
    rw [Line.codeLine_eq indent (inlines.uncommented uncommented), inlines.trimmed flush]⟩

/-- At the same depth, lines of inlined text are printed alike. -/
theorem Inlines.codeLine_eq (uncommented : ∀ item ∈ line.items, item.token.isComment = false)
    (indent : Text) (depth : line.SameDepth other) :
    codeLine indent line = codeLine indent other := by
  rw [Line.codeLine_eq indent uncommented, depth, inlines.trimmed flush,
    Line.codeLine_eq indent (inlines.uncommented uncommented)]

/-- Lines of inlined text are blank both or neither. -/
theorem Inlines.first?_eq_none_iff : line.first? = none ↔ other.first? = none := by
  rw [Line.first?_eq_none_iff, Line.first?_eq_none_iff, ← Alike.all_isSpace inlines.alike]
  refine ⟨fun spaces => List.all_eq_true.mpr fun token member => ?_, flush.seen⟩
  exact List.all_eq_true.mp spaces token (List.mem_of_mem_filter member)

end

/-- Lines that are written for items without the braces of no width among them. -/
theorem inlines_linesFrom {items others current front : List Item}
    (alike : List.Forall₂ Alike (seamless (items.map Item.token)) (others.map Item.token))
    (ahead : List.Forall₂ Alike (seamless (current.map Item.token)) (front.map Item.token))
    (flush : ∀ line ∈ linesFrom current items, line.Seamless) :
    List.Forall₂ Inlines (linesFrom current items) (linesFrom front others) := by
  have reversed {current front : List Item}
      (ahead : List.Forall₂ Alike (seamless (current.map Item.token)) (front.map Item.token))
      (lineEnd otherEnd : Option Item) :
      Inlines ⟨current.reverse, lineEnd⟩ ⟨front.reverse, otherEnd⟩ := by
    constructor
    simpa [seamless, List.filter_reverse] using List.rel_reverse ahead
  induction items generalizing others current front with
  | nil =>
    obtain rfl : others = [] := by
      cases others with
      | nil => rfl
      | cons => cases alike
    rw [linesFrom] at flush
    rw [linesFrom, linesFrom]
    cases current with
    | nil =>
      cases front with
      | nil => exact .nil
      | cons => cases ahead
    | cons item current =>
      rw [if_neg (List.cons_ne_nil _ _)] at flush ⊢
      cases front with
      | cons => exact .cons (reversed ahead _ _) .nil
      | nil =>
        -- All items would be braces of no width.
        refine absurd ?_ ((flush _ List.mem_cons_self).seamless_ne_nil (by simp))
        rw [List.map_reverse, seamless, List.filter_reverse]
        exact congrArg List.reverse (List.forall₂_nil_right_iff.mp ahead)
  | cons item rest ih =>
    cases seam : item.token.isSeam with
    | true =>
      rw [linesFrom, isEndOfLine_of_isSeam seam, if_neg Bool.false_ne_true] at flush ⊢
      rw [List.map_cons, seamless_cons_of_seam seam] at alike
      refine ih alike ?_ flush
      rwa [List.map_cons, seamless_cons_of_seam seam]
    | false =>
      rw [List.map_cons, seamless_cons seam] at alike
      cases others with
      | nil => cases alike
      | cons other others =>
        obtain ⟨first, later⟩ := List.forall₂_cons.mp alike
        rw [linesFrom] at flush
        rw [linesFrom, linesFrom, ← first.isEndOfLine]
        split
        · rename_i ends
          rw [if_pos ends] at flush
          rw [List.forall_mem_cons] at flush
          exact .cons (reversed ahead _ _) (ih later .nil flush.2)
        · rename_i within
          rw [if_neg within] at flush
          refine ih later ?_ flush
          rw [List.map_cons, seamless_cons seam]
          exact .cons first ahead

end Line

/-- Two pages differ as a relation allows, line by line. -/
structure Page.Matches (same : Text → Text → Prop) (page other : Page) : Prop where
  written : List.Forall₂ same page.written other.written
  pendingBlank : page.pendingBlank = other.pendingBlank
  lastKey : page.lastKey = other.lastKey

/-- Two lines are written on pages in the same way, as far as a relation tells. -/
structure Line.Agrees (options : Options) (same : Text → Text → Prop) (line other : Line) :
    Prop where
  inlines : line.Inlines other
  flush : line.Seamless
  uncommented : ∀ item ∈ line.items, item.token.isComment = false
  setting : line.SameSetting other
  code : same (codeLine options.indent line) (codeLine options.indent other)

namespace Page.Matches

variable {options : Options} {same : Text → Text → Prop} (refl : ∀ text, same text text)
  {page other : Page} (matched : page.Matches same other)

include refl matched

/-- Pages that match go on to do so behind lines that match. -/
theorem write {text otherText : Text} (texts : same text otherText) (blank : Bool)
    (key : Option Text) :
    (page.write blank text key).Matches same (other.write blank otherText key) := by
  cases blank with
  | false => exact ⟨.cons texts matched.written, rfl, rfl⟩
  | true => exact ⟨.cons texts (.cons (refl _) matched.written), rfl, rfl⟩

/-- **One line.** Lines that agree keep pages matched. -/
theorem add {line otherLine : Line} (agrees : line.Agrees options same otherLine) :
    (page.add options line).Matches same (other.add options otherLine) := by
  have empty : decide (page.written ≠ []) = decide (other.written ≠ []) := by
    simp only [ne_eq, ← List.length_eq_zero_iff, matched.written.length_eq]
  have absent := agrees.inlines.first?_eq_none_iff agrees.flush
  have commentOnly := Line.isCommentOnly_eq_false agrees.uncommented
  have otherCommentOnly :=
    Line.isCommentOnly_eq_false (agrees.inlines.uncommented agrees.uncommented)
  have major := agrees.setting.major
  unfold Page.add
  rw [← agrees.setting.isRaw, ← agrees.inlines.rawText, ← matched.pendingBlank]
  split
  · exact matched.write refl (refl _) _ _
  · cases found : line.first? with
    | none =>
      rw [absent.mp found]
      exact ⟨matched.written, by simpa using empty, matched.lastKey⟩
    | some first =>
      obtain ⟨otherFirst, otherFound⟩ : ∃ first, otherLine.first? = some first := by
        cases otherFound : otherLine.first? with
        | none => rw [absent.mpr otherFound] at found; cases found
        | some otherFirst => exact ⟨otherFirst, rfl⟩
      rw [Line.major?, Line.major?, found, otherFound, Option.bind_some, Option.bind_some]
        at major
      rw [otherFound]
      dsimp only
      rw [commentOnly, otherCommentOnly, if_neg Bool.false_ne_true, if_neg Bool.false_ne_true,
        ← major, ← matched.lastKey, empty]
      exact matched.write refl agrees.code _ _

/-- **All lines.** -/
theorem addAll {lines others : List Line}
    (agree : List.Forall₂ (Line.Agrees options same) lines others) :
    (lines.foldl (Page.add options) page).Matches same (others.foldl (Page.add options) other) := by
  induction agree generalizing page other with
  | nil => exact matched
  | cons first _ ih => exact ih (matched.add refl first)

end Page.Matches

variable (options : Options)

/-- The tokens that are laid out of a document. -/
def tokens (document : Document) : List Token :=
  (nodeItems options 0 none document.root).map Item.token

/-- The lines that are written of a document. -/
def written (document : Document) : List Text :=
  ((lines options document).foldl (Page.add options) ⟨[], false, none⟩).written.reverse

/-- The layout is the written lines with their line ends. -/
theorem format_eq_written (document : Document) :
    document.format options = (written options document).flatMap (· ++ [.char '\n']) :=
  rfl

variable {options} {document single : Document}

/-- Every item of a line is one of the items. -/
theorem mem_linesFrom {current items : List Item} {line : Line}
    (member : line ∈ linesFrom current items) {item : Item} (inside : item ∈ line.items) :
    item ∈ current ∨ item ∈ items := by
  induction items generalizing current with
  | nil =>
    rw [linesFrom] at member
    split at member
    · cases member
    · rw [List.mem_singleton.mp member] at inside
      exact .inl (List.mem_reverse.mp inside)
  | cons first rest ih =>
    rw [linesFrom] at member
    split at member
    · rcases List.mem_cons.mp member with rfl | member
      · exact .inl (List.mem_reverse.mp inside)
      · rcases ih member with before | after
        · cases before
        · exact .inr (List.mem_cons_of_mem _ after)
    · rcases ih member with before | after
      · rcases List.mem_cons.mp before with rfl | before
        · exact .inr List.mem_cons_self
        · exact .inl before
      · exact .inr (List.mem_cons_of_mem _ after)

section

variable (uncommented : ∀ token ∈ tokens options document, token.isComment = false)
  (alike : List.Forall₂ Alike (seamless (tokens options document)) (tokens options single))
  (flush : ∀ line ∈ lines options document, line.Seamless)
  (settings : List.Forall₂ Line.SameSetting (lines options document) (lines options single))

include uncommented alike flush settings

/-- Lines that are related agree as far as the relation tells of their code. -/
theorem agrees_lines {same : Text → Text → Prop} {related : Line → Line → Prop}
    (relate : List.Forall₂ related (lines options document) (lines options single))
    (code : ∀ line other : Line, related line other → line.Inlines other → line.Seamless →
      (∀ item ∈ line.items, item.token.isComment = false) →
      same (codeLine options.indent line) (codeLine options.indent other)) :
    List.Forall₂ (Line.Agrees options same) (lines options document) (lines options single) := by
  have inlines : List.Forall₂ Line.Inlines (lines options document) (lines options single) :=
    Line.inlines_linesFrom alike .nil flush
  have plain : ∀ line ∈ lines options document, ∀ item ∈ line.items,
      item.token.isComment = false := by
    intro line member item inside
    rcases mem_linesFrom member inside with before | among
    · cases before
    · exact uncommented _ (List.mem_map_of_mem among)
  rw [List.forall₂_iff_zip] at *
  refine ⟨inlines.1, fun {line other} member => ?_⟩
  have inside := (List.of_mem_zip member).1
  exact ⟨inlines.2 member, flush line inside, plain line inside, settings.2 member,
    code line other (relate.2 member) (inlines.2 member) (flush line inside) (plain line inside)⟩

/-- Documents whose lines have the same depths are formatted alike. -/
theorem format_eq_of_sameDepth
    (depths : List.Forall₂ Line.SameDepth (lines options document) (lines options single)) :
    document.format options = single.format options := by
  have agrees := agrees_lines uncommented alike flush settings depths
    fun line other depth inlines flush plain => inlines.codeLine_eq flush plain options.indent depth
  have blank : Page.Matches Eq ⟨[], false, none⟩ ⟨[], false, none⟩ := ⟨.nil, rfl, rfl⟩
  have pages := (blank.addAll (fun _ => rfl) agrees).written
  rw [List.forall₂_eq_eq_eq] at pages
  rw [format_eq_written, format_eq_written, written, written, pages]

end

/-- **Inclusions in place.** Where braces of no width stand flush and no comment stands, a document
is laid out like one with the same tokens and without these braces, whose lines start in the same
major commands and verbatim environments: line by line, up to margins. If the lines start at the
same depths as well, the layouts are the same. -/
theorem format_inclusions
    (uncommented : ∀ token ∈ tokens options document, token.isComment = false)
    (alike : List.Forall₂ Alike (seamless (tokens options document)) (tokens options single))
    (flush : ∀ line ∈ lines options document, line.Seamless)
    (settings : List.Forall₂ Line.SameSetting (lines options document) (lines options single)) :
    List.Forall₂ (DifferInMargin options.indent) (written options document)
        (written options single) ∧
      (List.Forall₂ Line.SameDepth (lines options document) (lines options single) →
        document.format options = single.format options) := by
  have inlines : List.Forall₂ Line.Inlines (lines options document) (lines options single) :=
    Line.inlines_linesFrom alike .nil flush
  have agrees := agrees_lines uncommented alike flush settings inlines
    fun line other _ inlines flush plain => inlines.differInMargin flush plain options.indent
  have blank : Page.Matches (DifferInMargin options.indent) ⟨[], false, none⟩ ⟨[], false, none⟩ :=
    ⟨.nil, rfl, rfl⟩
  exact ⟨List.rel_reverse (blank.addAll (.refl options.indent) agrees).written,
    format_eq_of_sameDepth uncommented alike flush settings⟩

/-- A text that includes a file within a line, and a file between spaces. -/
def twiceIncluding : Text := "a\\input\x7bf\x7d\n \\input\x7bf\x7d b"

theorem format_inclusions_twiceIncluding :
    ∃ document expanded single,
      Document.parse twiceIncluding .standard .standard 0 = .ok document ∧
      (expand besideLetter document Scope.empty (.empty letterDisk.currentDirectory)).outcome =
        .ok (expanded, []) ∧
      (∃ node ∈ expanded.walk, node.isInclusion = true) ∧
      Document.parse expanded.sourceText .standard .standard 0 = .ok single ∧
      (∀ token ∈ tokens .standard expanded, token.isComment = false) ∧
      List.Forall₂ Alike (seamless (tokens .standard expanded)) (tokens .standard single) ∧
      (∀ line ∈ lines .standard expanded, line.Seamless) ∧
      List.Forall₂ Line.SameSetting (lines .standard expanded) (lines .standard single) ∧
      List.Forall₂ Line.SameDepth (lines .standard expanded) (lines .standard single) ∧
      List.Forall₂ (DifferInMargin Options.standard.indent) (written .standard expanded)
        (written .standard single) ∧
      expanded.format .standard = single.format .standard := by
  obtain ⟨document, expanded, parsed, done, passes⟩ :=
    exists_outcome besideLetter twiceIncluding 20
      (fun _ expanded => (Document.parse expanded.sourceText .standard .standard 0).toOption.any
        fun single => decide ((∃ node ∈ expanded.walk, node.isInclusion = true) ∧
          (∀ token ∈ tokens .standard expanded, token.isComment = false) ∧
          List.Forall₂ Alike (seamless (tokens .standard expanded)) (tokens .standard single) ∧
          (∀ line ∈ lines .standard expanded, line.Seamless) ∧
          List.Forall₂ Line.SameSetting (lines .standard expanded) (lines .standard single) ∧
          List.Forall₂ Line.SameDepth (lines .standard expanded) (lines .standard single)))
      (by decide +kernel)
  obtain ⟨single, reread, passes⟩ := Document.exists_parse_of_any passes
  obtain ⟨includes, uncommented, alike, flush, settings, depths⟩ := of_decide_eq_true passes
  obtain ⟨margins, same⟩ := format_inclusions uncommented alike flush settings
  exact ⟨document, expanded, single, parsed, done, includes, reread, uncommented, alike, flush,
    settings, depths, margins, same depths⟩

/-- A file with two lines. -/
def twoLinesDisk : FileSystem :=
  FileSystem.Snapshot.toFileSystem <|
    FileSystem.Snapshot.insert ⟨⟨.slash, []⟩, []⟩ ["f.tex"] (.file (Text.encode "A\nB"))

/-- The second line of an included file is indented, as it stands in braces of no width. -/
theorem not_format_inclusions_twoLinesDisk :
    ∃ document expanded single,
      Document.parse "\\input\x7bf\x7d" .standard .standard 0 = .ok document ∧
      (expand ⟨twoLinesDisk, {}, .standard⟩ document Scope.empty
        (.empty twoLinesDisk.currentDirectory)).outcome = .ok (expanded, []) ∧
      (∃ node ∈ expanded.walk, node.isInclusion = true) ∧
      Document.parse expanded.sourceText .standard .standard 0 = .ok single ∧
      (∀ token ∈ expanded.inlined, token.isComment = false) ∧
      List.Forall₂ Alike (seamless expanded.inlined) single.inlined ∧
      expanded.format .standard = Text.ofString "A\n  B\n" ∧
      single.format .standard = Text.ofString "A\nB\n" := by
  obtain ⟨document, expanded, parsed, done, passes⟩ :=
    exists_outcome ⟨twoLinesDisk, {}, .standard⟩ "\\input\x7bf\x7d" 20
      (fun _ (expanded : Document) =>
        (Document.parse expanded.sourceText .standard .standard 0).toOption.any
        fun (single : Document) => decide ((∃ node ∈ expanded.walk, node.isInclusion = true) ∧
          (∀ token ∈ expanded.inlined, token.isComment = false) ∧
          List.Forall₂ Alike (seamless expanded.inlined) single.inlined ∧
          expanded.format .standard = Text.ofString "A\n  B\n" ∧
          single.format .standard = Text.ofString "A\nB\n"))
      (by decide +kernel)
  obtain ⟨single, reread, passes⟩ := Document.exists_parse_of_any passes
  obtain ⟨includes, differs⟩ := of_decide_eq_true passes
  exact ⟨document, expanded, single, parsed, done, includes, reread, differs⟩

end Layout

end TexSource
