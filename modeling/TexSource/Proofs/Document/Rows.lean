import TexSource.Proofs.Document.Reprinting
import TexSource.Proofs.Document.Trimming

/-!
# Rows of tokens

The tokens of a row are those of a line, behind a margin (`Token.indented`), without the blanks at
its end, or with other spaces before a comment (`Token.Widened`). They are the same tokens with
other blanks, weigh the same, and are cut out of their text again (`Lexer.Cuts.indented`,
`Lexer.Cuts.commented`, `Lexer.Cuts.widened`).
-/

namespace TexSource

namespace Token

variable {tokens others : List Token}

/-- A token with a kind and a text, wherever it stands. -/
def written (kind : Kind) (raw : Text) : Token :=
  { kind, raw, span := default }

/-- The line end that is written behind a line. -/
def feed : Token :=
  written .endOfLine [.char '\n']

/-- Tokens behind a margin, which is a space unless it is empty. -/
def indented (margin : Text) (tokens : List Token) : List Token :=
  if margin = [] then tokens else written .space margin :: tokens

/-- Whether blanks stand at the end of a token, or it is one. -/
def endsBlank (token : Token) : Bool :=
  token.isSpace || token.raw ≠ token.controlText

/-- Tokens with other spaces at their end, if any stand there. -/
inductive Widened : List Token → List Token → Prop where
  | tight {tokens : List Token} (code : ∀ last ∈ tokens.getLast?, last.endsBlank = false) :
      Widened tokens tokens
  | wide (front : List Token) {last : Token} (blank : last.endsBlank = true)
      (alone : last.isSpace = true → ∀ token ∈ front.getLast?, token.endsBlank = false)
      (count : Nat) :
      Widened (front ++ [last]) (front ++ [last.widened (List.replicate (count + 1) (.char ' '))])

/-- A margin is written before the text. -/
theorem rawText_indented (margin : Text) (tokens : List Token) :
    rawText (indented margin tokens) = margin ++ rawText tokens := by
  unfold indented
  split
  · simp [*]
  · simp [written]

/-- A comment is solid. -/
theorem isSolid_of_isComment {token : Token} (isComment : token.isComment = true)
    (sorted : token.IsGap ∨ token.IsSolid) : token.IsSolid := by
  refine sorted.resolve_left fun gap => ?_
  have blank := gap.blank
  obtain ⟨content, kind⟩ := kind_of_isComment isComment
  simp [isBlank, kind, Kind.isBlank] at blank

theorem isSpace_of_isComment {token : Token} (isComment : token.isComment = true) :
    token.isSpace = false := by
  obtain ⟨content, kind⟩ := kind_of_isComment isComment
  simp [isSpace, kind]

/-- Tokens that start with no space. -/
def StartsSolid (tokens : List Token) : Prop :=
  tokens.head?.any isSpace = false

/-- Without the blanks at the start tokens start solid. -/
theorem startsSolid_dropSpaces (tokens : List Token) : StartsSolid (tokens.dropWhile isSpace) := by
  have head := List.head?_dropWhile_not isSpace tokens
  unfold StartsSolid
  cases dropped : tokens.dropWhile isSpace with
  | nil => rfl
  | cons token rest =>
    rw [dropped] at head
    simpa using head

/-- A margin consists of spaces. -/
theorem StartsSolid.dropSpaces_indented (solid : StartsSolid tokens) (margin : Text) :
    (indented margin tokens).dropWhile isSpace = tokens := by
  have still : tokens.dropWhile isSpace = tokens := by
    cases tokens with
    | nil => rfl
    | cons token rest => exact List.dropWhile_cons_of_neg (by simpa [StartsSolid] using solid)
  unfold indented
  split
  · exact still
  · rw [List.dropWhile_cons_of_pos rfl, still]

theorem indented_append (margin : Text) (tokens others : List Token) :
    indented margin (tokens ++ others) = indented margin tokens ++ others := by
  unfold indented
  split <;> rfl

theorem isComment_eq_false_iff {token : Token} :
    token.isComment = false ↔ ∀ content, token.kind ≠ .comment content := by
  cases kind : token.kind <;> simp [isComment, kind]

/-- Widening leaves no token out. -/
theorem Widened.ne_nil (widened : Widened tokens others) (present : tokens ≠ []) : others ≠ [] := by
  cases widened with
  | tight => exact present
  | wide => simp

/-- Trimming the end keeps the start solid. -/
theorem StartsSolid.trimEnd (solid : StartsSolid tokens) : StartsSolid (trimEnd tokens) := by
  cases tokens with
  | nil => rfl
  | cons token rest =>
    have noSpace : token.isSpace = false := by simpa [StartsSolid] using solid
    rw [Token.trimEnd]
    split
    · rw [if_neg (by simp [noSpace])]
      exact solid
    · exact solid

/-- Widening keeps the start solid. -/
theorem StartsSolid.widened (solid : StartsSolid tokens) (widened : Widened tokens others) :
    StartsSolid others := by
  cases widened with
  | tight => exact solid
  | wide front =>
    cases front with
    | nil => exact solid
    | cons => exact solid

/-- A solid token behind keeps the start solid. -/
theorem StartsSolid.append (solid : StartsSolid tokens) {last : Token}
    (also : last.isSpace = false) : StartsSolid (tokens ++ [last]) := by
  cases tokens with
  | nil => simpa [StartsSolid] using also
  | cons => exact solid

/-- A test of kinds that all tokens pass is passed without the blanks at their end. -/
theorem forall_mem_trimEnd (sees : Kind → Prop) (all : ∀ token ∈ tokens, sees token.kind) :
    ∀ token ∈ trimEnd tokens, sees token.kind := by
  induction tokens with
  | nil => exact List.forall_mem_nil _
  | cons token rest ih =>
    rw [List.forall_mem_cons] at all
    rw [trimEnd]
    split
    · split
      · exact List.forall_mem_nil _
      · exact List.forall_mem_singleton.mpr all.1
    · exact List.forall_mem_cons.mpr ⟨all.1, ih all.2⟩

/-- A trimmed comment is one. -/
theorem isComment_trimmed (token : Token) : token.trimmed.isComment = token.isComment := by
  cases kind : token.kind <;> simp [isComment, trimmed, Kind.trimmed, kind]

theorem isEndOfLine_of_isComment {token : Token} (isComment : token.isComment = true) :
    token.isEndOfLine = false := by
  obtain ⟨content, kind⟩ := kind_of_isComment isComment
  simp [isEndOfLine, kind]

/-- Where the code before a token starts does not depend on the token. -/
theorem dropSpaces_concat (solid : tokens.all isSpace = false) (last : Token) :
    (tokens ++ [last]).dropWhile isSpace = tokens.dropWhile isSpace ++ [last] := by
  rw [List.dropWhile_append, if_neg]
  simpa using solid

theorem weight_of_isSpace {token : Token} (space : token.isSpace = true) : token.weight = 0 :=
  weight_of_isBlank (isBlank_iff.mpr (.inl space))

/-- Trimming does not change the weight of a token. -/
theorem weight_trimmed (token : Token) : token.trimmed.weight = token.weight := by
  cases kind : token.kind <;> simp [weight, trimmed, Kind.trimmed, kind, Kind.isBlank]

/-- Blanks have no load. -/
theorem load_of_isSpace (spaces : tokens.all isSpace = true) : load tokens = 0 :=
  load_eq_zero.mpr fun token member =>
    isBlank_iff.mpr (.inl (List.all_eq_true.mp spaces token member))

/-- Blanks at the start do not count for the load. -/
theorem load_dropSpaces (tokens : List Token) : load (tokens.dropWhile isSpace) = load tokens := by
  induction tokens with
  | nil => rfl
  | cons token rest ih =>
    cases space : token.isSpace with
    | true =>
      rw [List.dropWhile_cons_of_pos space, ih, load_cons, weight_of_isSpace space, Nat.zero_add]
    | false => rw [List.dropWhile_cons_of_neg (by simp [space])]

/-- Blanks at the end do not count for the load. -/
theorem load_trimEnd (tokens : List Token) : load (trimEnd tokens) = load tokens := by
  induction tokens with
  | nil => rfl
  | cons token rest ih =>
    rw [trimEnd]
    split
    · rename_i spaces
      rw [load_cons, load_of_isSpace spaces]
      split
      · rename_i space
        rw [weight_of_isSpace space]
        rfl
      · rfl
    · rw [load_cons, load_cons, ih]

/-- A margin does not count for the load. -/
theorem load_indented (margin : Text) (tokens : List Token) :
    load (indented margin tokens) = load tokens := by
  unfold indented
  split
  · rfl
  · rw [load_cons, weight_of_isSpace rfl, Nat.zero_add]

/-- Widening does not change the load. -/
theorem Widened.load_eq (widened : Widened tokens others) : load others = load tokens := by
  cases widened with
  | tight => rfl
  | wide => simp [weight, Token.widened]

/-- Widened tokens have the kinds that they had. -/
theorem Widened.forall_mem (widened : Widened tokens others) (sees : Kind → Prop)
    (all : ∀ token ∈ tokens, sees token.kind) : ∀ token ∈ others, sees token.kind := by
  cases widened with
  | tight => exact all
  | wide =>
    rw [List.forall_mem_append, List.forall_mem_singleton] at all ⊢
    exact all

/-- A margin adds a space and no other kind. -/
theorem forall_mem_indented {margin : Text} (sees : Kind → Prop) (space : sees .space)
    (all : ∀ token ∈ tokens, sees token.kind) :
    ∀ token ∈ indented margin tokens, sees token.kind := by
  unfold indented
  split
  · exact all
  · exact List.forall_mem_cons.mpr ⟨space, all⟩

/-- Trimming behind a last token takes off the token or the blanks behind it. -/
theorem trimEnd_concat (front : List Token) (last : Token) : trimEnd (front ++ [last]) =
    if last.isSpace then trimEnd front else front ++ [{ last with raw := last.controlText }] := by
  induction front with
  | nil => simp [trimEnd]
  | cons token rest ih =>
    rw [List.cons_append, trimEnd, ih, List.all_append, trimEnd]
    cases space : last.isSpace <;> simp [space]

theorem controlText_controlText (token : Token) :
    ({ token with raw := token.controlText } : Token).controlText = token.controlText := by
  cases kind : token.kind <;> simp only [controlText, kind, List.take_take, Nat.min_self]

/-- Blanks are left out once and for all. -/
theorem trimEnd_trimEnd (tokens : List Token) : trimEnd (trimEnd tokens) = trimEnd tokens := by
  induction tokens using List.reverseRecOn with
  | nil => rfl
  | append_singleton front last ih =>
    rw [trimEnd_concat]
    split
    · exact ih
    · rename_i code
      rw [trimEnd_concat, controlText_controlText]
      exact if_neg code

/-- Tokens that end without blanks are written as they are. -/
theorem rawText_trimEnd_tight (tight : ∀ last ∈ tokens.getLast?, last.endsBlank = false) :
    rawText (trimEnd tokens) = rawText tokens := by
  rcases List.eq_nil_or_concat tokens with rfl | ⟨front, last, rfl⟩
  · rfl
  · have code := tight last (by simp)
    simp only [endsBlank, Bool.or_eq_false_iff, decide_eq_false_iff_not, ne_eq, not_not] at code
    rw [List.concat_eq_append, trimEnd_concat, if_neg (by simp [code.1]), ← code.2]

/-- A widened token that ends blank shows the blanks. -/
theorem endsBlank_widened {token : Token} (blank : token.endsBlank = true) (count : Nat) :
    (token.widened (List.replicate (count + 1) (.char ' '))).endsBlank = true ∧
      (token.widened (List.replicate (count + 1) (.char ' '))).controlText =
        if token.isSpace then List.replicate (count + 1) (.char ' ') else token.controlText := by
  cases space : token.isSpace with
  | true =>
    have kind : token.kind = .space := of_decide_eq_true space
    simp [endsBlank, isSpace, widened, controlText, kind]
  | false =>
    have owned : token.raw ≠ token.controlText := by simpa [endsBlank, space] using blank
    obtain ⟨name, kind, long⟩ := exists_word owned
    have same : (token.widened (List.replicate (count + 1) (.char ' '))).controlText =
        token.controlText := by
      unfold widened
      rw [space]
      have bare : token.controlText = token.raw.take (1 + name.length) := by
        rw [controlText, kind]
      simp only [controlText, kind, Bool.false_eq_true, if_false]
      rw [← bare, ← long, List.take_left]
    refine ⟨?_, by simpa using same⟩
    simp only [endsBlank, same, Bool.or_eq_true, decide_eq_true_eq]
    right
    simp [widened, space]

/-- Other spaces at the end do not matter without them. -/
theorem Widened.rawText_trimEnd (widened : Widened tokens others) :
    rawText (trimEnd others) = rawText (trimEnd tokens) := by
  cases widened with
  | tight => rfl
  | @wide front last blank _ count =>
    have same :
        (last.widened (List.replicate (count + 1) (.char ' '))).isSpace = last.isSpace := rfl
    rw [trimEnd_concat, trimEnd_concat, same]
    split
    · rfl
    · rename_i code
      simp [(endsBlank_widened blank count).2, code]

/-- Blanks that are put at the end of tokens are written behind their code. -/
theorem rawText_widened {front : List Token} {last : Token}
    (alone : last.isSpace = true → ∀ token ∈ front.getLast?, token.endsBlank = false)
    (blanks : Text) : rawText (front ++ [last.widened blanks]) =
      rawText (trimEnd (front ++ [last])) ++ blanks := by
  rw [trimEnd_concat]
  split
  · rename_i space
    simp [rawText_trimEnd_tight (alone space), Token.widened, space]
  · rename_i code
    simp [Token.widened, code]

/-- The spaces at the end of tokens, if any stand there. -/
theorem Widened.rawText_eq (widened : Widened tokens others) :
    (others.getLast?.any endsBlank = false ∧ rawText others = rawText (trimEnd tokens)) ∨
      ∃ count, others.getLast?.any endsBlank = true ∧
        rawText others = rawText (trimEnd tokens) ++ List.replicate (count + 1) (.char ' ') := by
  cases widened with
  | tight code =>
    refine .inl ⟨?_, (rawText_trimEnd_tight code).symm⟩
    cases last : tokens.getLast? with
    | none => rfl
    | some token => exact code token last
  | @wide front last blank alone count =>
    refine .inr ⟨count, ?_, rawText_widened alone _⟩
    simpa using (endsBlank_widened blank count).1

end Token

namespace Parser.Respaced

variable {gaps : Option (Gap × Gap)} {tokens others : List Token}

/-- Tokens at the start of a line with a margin before them. -/
theorem indented (fresh : Fresh gaps) {margin : Text}
    (white : ∀ glyph ∈ margin, glyph.isBlank = true)
    (later : ∀ {gaps}, Fresh gaps → ∃ ends, Respaced gaps tokens others ends) :
    ∃ ends, Respaced gaps tokens (Token.indented margin others) ends := by
  unfold Token.indented
  split
  · exact later fresh
  · rename_i present
    obtain ⟨ends, respaced⟩ := later (fresh.right (Token.written .space margin))
    exact ⟨ends, .right ⟨rfl, present, white⟩ respaced⟩

/-- Tokens with other spaces at their end, and more behind them. -/
theorem widened (widened : Token.Widened tokens others) (level : Level gaps)
    (sorted : ∀ token ∈ tokens, token.IsGap ∨ token.IsSolid) {rest later : List Token}
    (behind : ∀ {gaps}, Level gaps → ∃ ends, Respaced gaps rest later ends) :
    ∃ ends, Respaced gaps (tokens ++ rest) (others ++ later) ends := by
  cases widened with
  | tight => exact prepend tokens level sorted behind
  | @wide front last blank _ count =>
    rw [List.forall_mem_append, List.forall_mem_singleton] at sorted
    have white : ∀ glyph ∈ List.replicate (count + 1) (Glyph.char ' '), glyph.isBlank = true :=
      fun glyph member => by
        rw [List.eq_of_mem_replicate member]
        decide
    rw [List.append_assoc, List.append_assoc]
    refine prepend front level sorted.1 fun {gaps} level => ?_
    cases space : last.isSpace with
    | true =>
      have gap := Token.IsGap.of_isBlank sorted.2 (Token.isBlank_iff.mpr (.inl space))
      obtain ⟨ends, respaced⟩ := behind (level.past (rfl :
        (last.widened (List.replicate (count + 1) (.char ' '))).isEndOfLine = last.isEndOfLine))
      refine ⟨ends, .blanks gap ⟨gap.blank, ?_, ?_⟩ respaced⟩
      · simp [Token.widened, space, List.replicate_succ]
      · simpa [Token.widened, space] using white
    | false =>
      have owned : last.raw ≠ last.controlText := by
        simpa [Token.endsBlank, space] using blank
      obtain ⟨name, kind, -⟩ := Token.exists_word owned
      have solid := sorted.2.resolve_left fun gap => by
        have blank := gap.blank
        simp [Token.isBlank, kind, Token.Kind.isBlank] at blank
      have same := Token.Same.widened solid owned white
      have equal : Gap.behind last = Gap.behind (last.widened (List.replicate (count + 1)
          (.char ' '))) := by
        have bare : last.core = last.controlText := by rw [Token.core, kind]
        rw [Gap.behind, Gap.behind, same.core, bare, if_neg owned, if_neg]
        simp [Token.widened, space, List.replicate_succ]
      obtain ⟨ends, respaced⟩ := behind (level_pair equal)
      exact ⟨ends, .token level same respaced⟩

end Parser.Respaced

namespace Lexer

variable {table last : Catcode.Table} {tokens others : List Token} {next : Option Glyph}

/-- Trimming a token does not change the categories behind it. -/
theorem behind_trimmed (table : Catcode.Table) (kind : Token.Kind) :
    behind table kind.trimmed = behind table kind := by
  cases kind <;> rfl

/-- What is no space starts with no space. -/
theorem Sharp.head_ne_space (plain : Plain table) {kind : Token.Kind} {raw : Text}
    (sharp : Sharp table kind raw) (solid : kind ≠ .space) {glyph : Glyph}
    (first : glyph ∈ raw.head?) : Catcode.initial glyph ≠ .space := by
  intro space
  have space := (plain.space_iff glyph).mpr space
  have spelled := sharp.spelled
  cases blank : kind.isBlank with
  | false =>
    obtain ⟨head, rest, rfl, noSpace, -⟩ := spelled.starts blank
    cases first
    exact noSpace space
  | true =>
    cases spelled with
    | space => exact solid rfl
    | lineEnd _ ends =>
      rw [ends glyph (List.mem_of_mem_head? first)] at space
      cases space
    | alone alone =>
      have single := isAlone_of_aloneKind? alone
      cases kind <;> simp_all [isAlone, Token.Kind.isBlank]
    | _ => cases blank

/-- Tokens that start with no space are cut off behind a margin. -/
theorem Cuts.indented (plain : Plain table) {margin : Text}
    (white : ∀ glyph ∈ margin, Catcode.initial glyph = .space) (cuts : Cuts table tokens next last)
    (solid : tokens.head?.any Token.isSpace = false)
    (ends : ∀ glyph ∈ next, Catcode.initial glyph = .endOfLine) :
    Cuts table (Token.indented margin tokens) next last := by
  refine Cuts.margin plain white (Token.written .space margin) rfl cuts fun glyph first => ?_
  cases cuts with
  | nil =>
    rw [ends glyph first]
    decide
  | @cons _ _ token tokens _ sharp =>
    obtain ⟨head, rest, written⟩ := List.exists_cons_of_ne_nil sharp.spelled.ne_nil
    have noSpace : token.isSpace = false := by simpa using solid
    refine sharp.head_ne_space plain (of_decide_eq_false noSpace) ?_
    rw [Token.rawText_cons, written] at first
    rw [written]
    exact first

/-- A comment at the end may lose the white space at its end. -/
theorem Cuts.commented (plain : Plain table) {comment : Token}
    (isComment : comment.isComment = true) (cuts : Cuts table (tokens ++ [comment]) next last)
    {glyph : Glyph} (ends : Catcode.initial glyph = .endOfLine) :
    Cuts table (tokens ++ [comment.trimmed]) (some glyph) last := by
  obtain ⟨middle, front, back⟩ := cuts.split
  cases back with
  | cons sharp _ later =>
    cases later
    have code : comment.trimmed.kind ≠ .endOfLine := by
      cases kind : comment.kind <;> simp_all [Token.isComment, Token.trimmed, Token.Kind.trimmed]
    have trimmed := sharp.trimmed (front.plain_last plain) isComment
    have last : Cuts middle [comment.trimmed] (some glyph) (behind middle comment.kind) := by
      rw [← behind_trimmed]
      refine .cons trimmed (fun other first => ?_) (.nil _ _)
      cases first
      exact .of_lineEnd (front.plain_last plain) ends code
    refine Cuts.append ?_ last
    obtain ⟨content, kind⟩ := Token.kind_of_isComment isComment
    have spelled := sharp.spelled
    rw [kind] at spelled
    obtain ⟨opens, written, category, -⟩ := spelled.of_comment
    have bare := isBlank_of_comment (((front.plain_last plain).comment_iff opens).mp category)
    have stripped : comment.trimmed.raw = opens :: content.stripEnd := by
      rw [Token.trimmed, written]
      exact Text.stripEnd_append_cons [] bare content
    simpa [written, stripped] using front

/-- A space is a space. -/
theorem Cuts.spaced (plain : Plain table) {glyph other : Glyph}
    (cuts : Cuts table tokens (some glyph) last) (space : Catcode.initial glyph = .space)
    (also : Catcode.initial other = .space) : Cuts table tokens (some other) last := by
  generalize ahead : some glyph = next at cuts
  induction cuts with
  | nil => exact .nil _ _
  | @cons table last token tokens next sharp stops later ih =>
    subst ahead
    refine .cons sharp (fun head first => ?_) (ih (plain.behind _) rfl)
    cases written : Token.rawText tokens with
    | cons front rest =>
      rw [written] at first stops
      exact stops head first
    | nil =>
      rw [written] at first stops
      cases first
      have stops := stops glyph rfl
      have category := (plain.space_iff glyph).mpr space
      have category' := (plain.space_iff other).mpr also
      refine ⟨stops.closes.space (by rw [category]; decide) category',
        fun kind => absurd category (stops.space kind),
        fun name kind => absurd category (stops.word name kind), fun _ _ feed => ?_⟩
      rw [feed] at also
      cases also

section

variable {token : Token} (blank : token.endsBlank = true)

include blank

/-- A token that ends in front of a comment. -/
theorem EndsAt.of_comment {raw : Text} {glyph : Glyph} (opens : table.classify glyph = .comment) :
    EndsAt table token.kind raw glyph := by
  cases space : token.isSpace with
  | true =>
    rw [of_decide_eq_true space]
    exact ⟨trivial, fun _ => by rw [opens]; decide, nofun, nofun⟩
  | false =>
    obtain ⟨name, kind, -⟩ := Token.exists_word (by simpa [Token.endsBlank, space] using blank)
    rw [kind]
    refine ⟨fun _ => ?_, nofun, fun _ _ => ?_, nofun⟩ <;>
    · rw [opens]
      decide

variable {blanks : Text} (present : blanks ≠ [])
  (white : ∀ glyph ∈ blanks, Catcode.initial glyph = .space)

include present white

/-- With other blanks it is a token. -/
theorem Sharp.widened (plain : Plain table) (sharp : Sharp table token.kind token.raw) :
    Sharp table token.kind (token.widened blanks).raw := by
  cases space : token.isSpace with
  | true =>
    have raw : (token.widened blanks).raw = blanks := by simp [Token.widened, space]
    rw [raw, of_decide_eq_true space]
    exact sharp_space plain present white
  | false =>
    obtain ⟨name, kind, -⟩ := Token.exists_word (by simpa [Token.endsBlank, space] using blank)
    have raw : (token.widened blanks).raw = token.controlText ++ blanks := by
      simp [Token.widened, space]
    rw [raw]
    exact sharp.word_append plain kind white

omit blank in
/-- What stands in front of it is cut off in front of it with other blanks, too. -/
theorem Cuts.before_widened (plain : Plain table) (sharp : Sharp last token.kind token.raw)
    (cuts : Cuts table tokens ((Token.rawText [token]).head?.or next) last) :
    Cuts table tokens ((Token.rawText [token.widened blanks]).head?.or next) last := by
  cases space : token.isSpace with
  | true =>
    have raw : (token.widened blanks).raw = blanks := by simp [Token.widened, space]
    obtain ⟨glyph, rest, written⟩ := List.exists_cons_of_ne_nil sharp.spelled.ne_nil
    obtain ⟨other, more, rfl⟩ := List.exists_cons_of_ne_nil present
    have spelled := sharp.spelled
    rw [of_decide_eq_true space, written] at spelled
    have first := ((cuts.plain_last plain).space_iff glyph).mp
      (spelled.of_space glyph List.mem_cons_self)
    have front : Cuts table tokens (some glyph) last := by simpa [written] using cuts
    simpa [raw] using front.spaced plain first (white other List.mem_cons_self)
  | false =>
    obtain ⟨glyph, rest, written⟩ := List.exists_cons_of_ne_nil sharp.spelled.controlText.ne_nil
    have head := sharp.spelled.head?_controlText
    cases text : token.raw with
    | nil => exact absurd text sharp.spelled.ne_nil
    | cons first rest =>
      rw [written, text] at head
      cases head
      simpa [Token.widened, space, written, text] using cuts

end

/-- In front of a comment other spaces may stand. -/
theorem Cuts.widened (plain : Plain table) (cuts : Cuts table tokens next last)
    (widened : Token.Widened tokens others)
    (opens : ∀ glyph ∈ next, Catcode.initial glyph = .comment) : Cuts table others next last := by
  cases widened with
  | tight => exact cuts
  | wide front blank _ count =>
    obtain ⟨middle, before, behind⟩ := cuts.split
    have plainMiddle := before.plain_last plain
    have white : ∀ glyph ∈ List.replicate (count + 1) (Glyph.char ' '),
        Catcode.initial glyph = .space := fun glyph member => by
      rw [List.eq_of_mem_replicate member]
      rfl
    cases behind with
    | cons sharp _ later =>
      cases later
      refine (before.before_widened (by simp) white plain sharp).append (.cons
        (sharp.widened blank (by simp) white plainMiddle) (fun glyph first => ?_) (.nil _ _))
      exact .of_comment blank ((plainMiddle.comment_iff glyph).mpr (opens glyph first))

end Lexer

namespace Lexer.Cuts

variable {table last : Catcode.Table} {tokens : List Token} {next : Option Glyph}

/-- On a line, nothing stands behind a comment. -/
theorem comments (plain : Plain table) (cuts : Cuts table tokens next last)
    (inside : ∀ token ∈ tokens, token.isEndOfLine = false) :
    (∀ token ∈ tokens, token.isComment = false) ∨
      ∃ before comment, tokens = before ++ [comment] ∧ comment.isComment = true := by
  induction cuts with
  | nil => exact .inl (List.forall_mem_nil _)
  | @cons table last token tokens next sharp stops later ih =>
    rw [List.forall_mem_cons] at inside
    cases isComment : token.isComment with
    | false =>
      rcases ih (plain.behind _) inside.2 with none | ⟨before, comment, rfl, ends⟩
      · exact .inl (List.forall_mem_cons.mpr ⟨isComment, none⟩)
      · exact .inr ⟨token :: before, comment, rfl, ends⟩
    | true =>
      refine .inr ⟨[], token, ?_, isComment⟩
      cases later with
      | nil => rfl
      | @cons _ _ second rest _ sharper =>
        obtain ⟨glyph, text, written⟩ := List.exists_cons_of_ne_nil sharper.spelled.ne_nil
        have closes := (stops glyph (by simp [written])).closes
        have code := sharper.spelled.within
          (of_decide_eq_false (List.forall_mem_cons.mp inside.2).1) glyph (by simp [written])
        rw [ne_eq, (plain.behind _).lineEnd_iff, ← plain.lineEnd_iff] at code
        refine absurd ?_ code
        obtain ⟨content, kind⟩ := Token.kind_of_isComment isComment
        rw [kind] at closes
        exact closes

/-- No blanks stand before spaces. -/
theorem alone (plain : Plain table) {front : List Token} {space : Token}
    (cuts : Cuts table (front ++ [space]) next last) (isSpace : space.isSpace = true) :
    ∀ token ∈ front.getLast?, token.endsBlank = false := by
  intro token ends
  obtain ⟨before, rfl⟩ := List.getLast?_eq_some_iff.mp ends
  rw [List.append_assoc] at cuts
  obtain ⟨middle, front, back⟩ := cuts.split
  have plainMiddle := front.plain_last plain
  cases back with
  | cons sharp stops later =>
    cases later with
    | cons sharper =>
      obtain ⟨glyph, text, written⟩ := List.exists_cons_of_ne_nil sharper.spelled.ne_nil
      have spelled := sharper.spelled
      rw [of_decide_eq_true isSpace, written] at spelled
      have blank := spelled.of_space glyph List.mem_cons_self
      rw [(plainMiddle.behind _).space_iff, ← plainMiddle.space_iff] at blank
      have stops := stops glyph (by simp [written])
      have noSpace : token.isSpace = false :=
        decide_eq_false fun kind => stops.space kind blank
      by_contra blanks
      rw [Bool.not_eq_false] at blanks
      obtain ⟨name, kind, -⟩ := Token.exists_word
        (by simpa [Token.endsBlank, noSpace] using blanks)
      exact stops.word name kind blank

/-- Of blanks at the end, so many spaces may stand instead, or at least one. -/
theorem exists_widened (plain : Plain table) (cuts : Cuts table tokens next last) (width : Nat) :
    ∃ others, Token.Widened tokens others ∧
      Token.rawText others = Token.rawText (Token.trimEnd tokens) ++
        if tokens.getLast?.any Token.endsBlank then List.replicate (max width 1) (.char ' ')
        else [] := by
  cases blank : tokens.getLast?.any Token.endsBlank with
  | false =>
    have tight : ∀ token ∈ tokens.getLast?, token.endsBlank = false := fun token ends => by
      simpa [Option.mem_def.mp ends] using blank
    exact ⟨tokens, .tight tight, by simp [Token.rawText_trimEnd_tight tight]⟩
  | true =>
    obtain ⟨count, wide⟩ : ∃ count, max width 1 = count + 1 :=
      ⟨_, (Nat.succ_pred_eq_of_pos (by omega)).symm⟩
    rcases List.eq_nil_or_concat tokens with rfl | ⟨front, token, rfl⟩
    · cases blank
    · rw [List.concat_eq_append] at cuts blank ⊢
      have alone := cuts.alone plain
      refine ⟨_, .wide front (by simpa using blank) alone count, ?_⟩
      rw [if_pos rfl, wide, Token.rawText_widened alone]

end Lexer.Cuts

namespace Lexer.Reprints

variable {tokens others : List Token}

/-- Reprinting keeps whether tokens end blank. -/
theorem endsBlank_eq (reprints : Reprints tokens others) :
    others.getLast?.any Token.endsBlank = tokens.getLast?.any Token.endsBlank := by
  rcases List.eq_nil_or_concat tokens with rfl | ⟨front, last, rfl⟩
  · cases reprints
    rfl
  · rw [List.concat_eq_append] at reprints ⊢
    obtain ⟨first, second, rfl, -, back⟩ := reprints.exists_of_append
    have plain : ∀ {token : Token} {doubled : Bool}, token.kind = .mathShift doubled →
        token.endsBlank = false := fun kind => by
      simp [Token.endsBlank, Token.isSpace, Token.controlText, kind]
    cases back with
    | keep same later =>
      cases later
      rw [List.getLast?_append, List.getLast?_append]
      simp only [List.getLast?_singleton, Option.some_or, Option.any_some]
      rw [Token.endsBlank, Token.endsBlank, controlText_of_pieceOf same, raw_of_pieceOf same,
        Token.isSpace, Token.isSpace, kind_of_pieceOf same]
    | halves doubled one two raw later =>
      cases later
      simp [plain doubled, plain two]

/-- Reprinting makes no comment. -/
theorem isComment (reprints : Reprints tokens others)
    (uncommented : ∀ token ∈ tokens, token.isComment = false) :
    ∀ other ∈ others, other.isComment = false := by
  have kinds (token other : Token) (kind : other.kind = token.kind) :
      (!other.isComment) = !token.isComment := by
    rw [Token.isComment, Token.isComment, kind]
  have shifts (token : Token) (shift : token.isMathShift = true) : (!token.isComment) = true := by
    obtain ⟨doubled, kind⟩ := Parser.kind_of_isMathShift shift
    simp [Token.isComment, kind]
  have none : (tokens.all fun token => !token.isComment) = true := by simpa using uncommented
  simpa using (all_eq kinds reprints shifts).trans none

end Lexer.Reprints

end TexSource
