import TexSource.Proofs.Layout.BlankRuns
import TexSource.Proofs.Layout.CodeLines
import TexSource.Proofs.Layout.Keys
import TexSource.Proofs.Layout.VerbatimLines

/-!
# What lines stand for

Whether a line of a layout is raw, code or a comment, what it starts with and what it is written
as can be told from the line of the source that it stands for (`Layout.Line.Mirrors`). Of the lines
of a source all but the last one have a line end, and a line of blanks that is verbatim is so with
its line end, or stands behind a line with a verbatim one (`Document.follows_of_parse`).
-/

namespace TexSource

namespace Layout

namespace SourceLine

/-- The first token of a line that is no space. -/
def first? (line : SourceLine) : Option Placed :=
  line.content.find? fun placed => !placed.token.isSpace

/-- The last token of a line that is no space. -/
def last? (line : SourceLine) : Option Placed :=
  line.content.reverse.find? fun placed => !placed.token.isSpace

/-- Whether nothing but spaces stands before the comment of a line. -/
def isCommentOnly (line : SourceLine) : Bool :=
  match (line.content.map Placed.token).dropWhile Token.isSpace with
  | [token] => token.isComment
  | _ => false

variable (options : Options) (document : Document)

/-- Whether the first token of a line that is no space, or its line end, is verbatim. -/
def isAside (line : SourceLine) : Bool :=
  line.first?.any (isVerbatim options document) || line.lineEnd.any (isVerbatim options document)

/-- Whether a line is written as it is. -/
def isRaw (line : SourceLine) : Bool :=
  match line.first? with
  | some first => isVerbatim options document first
  | none => line.placed.any (isVerbatim options document)

/-- Whether a line is code: neither blank nor a comment alone, and not verbatim at its start. -/
def isCode (line : SourceLine) : Bool :=
  !line.isRaw options document && line.first?.isSome && !line.isCommentOnly

/-- Whether a line is written at all. Blank lines are not, unless they are verbatim. -/
def isWritten (line : SourceLine) : Bool :=
  line.first?.isSome || line.placed.any (isVerbatim options document)

variable {options document} {line : SourceLine}

theorem isAside_of_isRaw {first : Placed} (found : line.first? = some first)
    (raw : line.isRaw options document = true) : line.isAside options document = true := by
  rw [isRaw, found] at raw
  simp [isAside, found, raw]

theorem isCode_iff : line.isCode options document = true ↔
    line.isRaw options document = false ∧ line.first?.isSome = true ∧
      line.isCommentOnly = false := by
  simp [isCode, and_assoc]

theorem isVerbatim_first {first : Placed} (found : line.first? = some first)
    (plain : line.isRaw options document = false) : isVerbatim options document first = false := by
  rwa [isRaw, found] at plain

/-- A comment is no space. -/
theorem first?_isSome (commentOnly : line.isCommentOnly = true) : line.first?.isSome = true := by
  by_contra nothing
  have spaces : ∀ token ∈ line.content.map Placed.token, token.isSpace = true := by
    simpa [first?] using nothing
  rw [isCommentOnly, List.dropWhile_eq_nil_iff.mpr spaces] at commentOnly
  cases commentOnly

theorem last?_isSome : line.last?.isSome = line.first?.isSome := by
  rw [Bool.eq_iff_iff]
  simp [last?, first?]

theorem isWritten_of_isRaw (raw : line.isRaw options document = true) :
    line.isWritten options document = true := by
  unfold isRaw at raw
  split at raw <;> simp_all [isWritten]

end SourceLine

variable {options : Options} {document : Document}

/-- An item stands for a token, with its key. -/
structure Item.Matches (options : Options) (document : Document) (item : Item) (placed : Placed) :
    Prop extends Item.Stands options document item placed where
  keyed : item.Keyed options document placed

theorem Item.matches_of_stand {items : List Item} {tokens : List Placed}
    (stand : List.Forall₂ (Item.Stands options document) items tokens)
    (keyed : List.Forall₂ (Item.Keyed options document) items tokens) :
    List.Forall₂ (Item.Matches options document) items tokens := by
  rw [List.forall₂_iff_zip] at stand keyed ⊢
  exact ⟨stand.1, fun member => ⟨stand.2 member, keyed.2 member⟩⟩

/-- What a line is written as, told from a line of the source. -/
structure Line.Mirrors (options : Options) (document : Document) (line : Line)
    (source : SourceLine) : Prop where
  isRaw : line.isRaw = source.isRaw options document
  isCommentOnly : line.isCommentOnly = source.isCommentOnly
  rawText : line.rawText = source.text
  first : Option.Rel (Item.Matches options document) line.first? source.first?
  last : Option.Rel (Item.Matches options document) line.last? source.last?
  items : line.items.map Item.token = source.content.map Placed.token

theorem rel_find? {related : Item → Placed → Prop} {items : List Item} {tokens : List Placed}
    (relate : List.Forall₂ related items tokens)
    (same : ∀ item placed, related item placed → item.token = placed.token) :
    Option.Rel related (items.find? (!·.token.isSpace)) (tokens.find? (!·.token.isSpace)) := by
  induction relate with
  | nil => exact .none
  | cons first _ ih =>
    rw [List.find?_cons, List.find?_cons, same _ _ first]
    split
    · exact .some first
    · exact ih

theorem any_verbatim {items : List Item} {tokens : List Placed}
    (stand : List.Forall₂ (Item.Matches options document) items tokens) :
    items.any (·.verbatim) = tokens.any (isVerbatim options document) := by
  induction stand with
  | nil => rfl
  | cons first _ ih => rw [List.any_cons, List.any_cons, first.verbatim, ih]

theorem Line.isCommentOnly_eq (line : Line) : line.isCommentOnly =
    match (line.items.map Item.token).dropWhile Token.isSpace with
    | [token] => token.isComment
    | _ => false := by
  rw [isCommentOnly, List.dropWhile_map, Function.comp_def]
  cases line.items.dropWhile (·.token.isSpace) with
  | nil => rfl
  | cons first rest => cases rest <;> rfl

/-- A line of a layout is written as its line of the source tells. -/
theorem Line.Relates.mirrors {line : Line} {source : SourceLine}
    (relates : line.Relates (Item.Matches options document) source) :
    line.Mirrors options document source := by
  have stand : List.Forall₂ (Item.Stands options document) line.items source.content :=
    relates.items.imp fun _ _ found => found.toStands
  have items : line.items.map Item.token = source.content.map Placed.token := by
    rw [← List.forall₂_eq_eq_eq, List.forall₂_map_left_iff, List.forall₂_map_right_iff]
    exact stand.imp fun _ _ found => found.token
  have first := rel_find? relates.items fun _ _ found => found.token
  have last := rel_find? (List.rel_reverse relates.items) fun _ _ found => found.token
  refine ⟨?_, ?_, Item.Stands.flatMap_raw stand, first, last, items⟩
  · have whole := any_verbatim (List.rel_append relates.items relates.lineEnd)
    unfold Line.isRaw SourceLine.isRaw
    unfold Line.first? SourceLine.first?
    generalize line.items.find? _ = item at first ⊢
    generalize source.content.find? _ = placed at first ⊢
    cases first with
    | none =>
      have lineEnd : line.lineEnd.any (·.verbatim) = line.lineEnd.toList.any (·.verbatim) := by
        cases line.lineEnd <;> simp
      rw [lineEnd, ← List.any_append]
      exact whole
    | some found => exact found.verbatim
  · rw [line.isCommentOnly_eq, items]
    rfl

/-- Of two blanks side by side either both are verbatim or none is. -/
def EvenTokens (options : Options) (document : Document) (tokens : List Placed) : Prop :=
  tokens.IsChain fun placed next => placed.token.isBlank = true → next.token.isBlank = true →
    isVerbatim options document placed = isVerbatim options document next

theorem Even.tokens {items : List Item} {tokens : List Placed} (even : Even items)
    (stand : List.Forall₂ (Item.Stands options document) items tokens) :
    EvenTokens options document tokens := by
  induction stand with
  | nil => exact .nil
  | @cons item placed _ _ first later ih =>
    cases later with
    | nil => exact .singleton placed
    | @cons next other _ _ second later =>
      obtain ⟨agrees, even⟩ := List.isChain_cons_cons.mp even
      refine List.isChain_cons_cons.mpr ⟨fun blank also => ?_, ih even⟩
      rw [← first.verbatim, ← second.verbatim]
      exact agrees (by rwa [first.token]) (by rwa [second.token])

/-- Blanks side by side are verbatim together. -/
theorem EvenTokens.verbatim {tokens : List Placed} (even : EvenTokens options document tokens)
    (blank : ∀ placed ∈ tokens, placed.token.isBlank = true)
    (any : tokens.any (isVerbatim options document) = true) :
    ∀ placed ∈ tokens, isVerbatim options document placed = true := by
  induction tokens with
  | nil => exact List.forall_mem_nil _
  | cons placed rest ih =>
    rw [List.forall_mem_cons] at blank
    cases rest with
    | nil => simpa using any
    | cons next later =>
      obtain ⟨agrees, even⟩ := List.isChain_cons_cons.mp even
      have same := agrees blank.1 (blank.2 next List.mem_cons_self)
      have rest := ih even blank.2 (by simpa [same] using any)
      exact List.forall_mem_cons.mpr ⟨same.trans (rest next List.mem_cons_self), rest⟩

theorem isEndOfLine_of_mem_sourceLines (tokens : List Placed) :
    ∀ line ∈ sourceLines tokens, (∀ placed ∈ line.content, placed.token.isEndOfLine = false) ∧
      ∀ placed ∈ line.lineEnd, placed.token.isEndOfLine = true := by
  induction tokens with
  | nil => exact List.forall_mem_nil _
  | cons placed rest ih =>
    rw [sourceLines]
    split
    · rename_i ends
      exact List.forall_mem_cons.mpr ⟨⟨List.forall_mem_nil _, by simpa using ends⟩, ih⟩
    · rename_i inside
      rw [Bool.not_eq_true] at inside
      generalize sourceLines rest = lines at ih
      cases lines with
      | nil => simpa using inside
      | cons line later =>
        rw [List.forall_mem_cons] at ih
        exact List.forall_mem_cons.mpr
          ⟨⟨List.forall_mem_cons.mpr ⟨inside, ih.1.1⟩, ih.1.2⟩, ih.2⟩

/-- All lines but the last one have a line end. -/
theorem lineEnd_isSome_of_mem (tokens : List Placed) :
    ∀ line ∈ (sourceLines tokens).dropLast, line.lineEnd.isSome = true := by
  induction tokens with
  | nil => exact List.forall_mem_nil _
  | cons placed rest ih =>
    rw [sourceLines]
    split
    · cases found : sourceLines rest with
      | nil => exact List.forall_mem_nil _
      | cons line later =>
        rw [found] at ih
        exact List.forall_mem_cons.mpr ⟨rfl, ih⟩
    · generalize sourceLines rest = lines at ih
      cases lines with
      | nil => exact List.forall_mem_nil _
      | cons line later =>
        cases later with
        | nil => exact List.forall_mem_nil _
        | cons => exact List.forall_mem_cons.mpr (List.forall_mem_cons.mp ih)

/-- The lines before a line have line ends, and a verbatim line of blanks has a verbatim line end
or stands behind one. -/
structure SourceLine.Follows (options : Options) (document : Document) (before : List SourceLine)
    (line : SourceLine) : Prop where
  closed : ∀ earlier ∈ before, earlier.lineEnd.isSome = true
  verbatim : line.first? = none → line.placed.any (isVerbatim options document) = true →
    line.lineEnd.any (isVerbatim options document) = true ∨
      line.lineEnd = none ∧
        ∃ previous ∈ before.getLast?, previous.lineEnd.any (isVerbatim options document) = true

theorem SourceLine.follows {tokens : List Placed} (even : EvenTokens options document tokens)
    (plain : ∀ first ∈ tokens.head?, isVerbatim options document first = false)
    {before after : List SourceLine} {line : SourceLine}
    (split : sourceLines tokens = before ++ line :: after) :
    line.Follows options document before := by
  have closed : ∀ earlier ∈ before, earlier.lineEnd.isSome = true := by
    intro earlier member
    apply lineEnd_isSome_of_mem tokens
    rw [split, List.dropLast_append_of_ne_nil (List.cons_ne_nil line after)]
    exact List.mem_append_left _ member
  refine ⟨closed, fun nothing any => ?_⟩
  have whole := flatMap_sourceLines tokens
  rw [split, List.flatMap_append, List.flatMap_cons] at whole
  have member : line ∈ sourceLines tokens := by simp [split]
  have ends := (isEndOfLine_of_mem_sourceLines tokens line member).2
  have blank : ∀ placed ∈ line.placed, placed.token.isBlank = true := by
    intro placed inside
    rw [Token.isBlank_iff]
    rcases List.mem_append.mp inside with inside | last
    · exact .inl (by simpa using List.find?_eq_none.mp nothing placed inside)
    · exact .inr (ends placed (Option.mem_toList.mp last))
  have all : ∀ placed ∈ line.placed, isVerbatim options document placed = true := by
    have among : line.placed <:+: tokens :=
      ⟨before.flatMap placed, after.flatMap placed, by rw [List.append_assoc, whole]⟩
    have inside : EvenTokens options document line.placed := List.IsChain.infix even among
    exact inside.verbatim blank any
  cases last : line.lineEnd with
  | some lineEnd => exact .inl (all lineEnd (by simp [SourceLine.placed, last]))
  | none =>
    refine .inr ⟨rfl, ?_⟩
    obtain ⟨first, rest, opens⟩ := List.exists_cons_of_ne_nil
      (placed_ne_nil_of_mem_sourceLines tokens line member)
    have verbatim := all first (by simp [opens])
    rw [opens] at whole
    rcases List.eq_nil_or_concat before with rfl | ⟨earlier, previous, rfl⟩
    · rw [plain first (by simp [← whole])] at verbatim
      cases verbatim
    · -- the line end before the first blank of the line is verbatim, as that one is
      obtain ⟨lineEnd, closes⟩ := Option.isSome_iff_exists.mp (closed previous (by simp))
      have isEnd := (isEndOfLine_of_mem_sourceLines tokens previous (by simp [split])).2 _ closes
      have behind : isVerbatim options document lineEnd = true := by
        rw [EvenTokens, ← whole, List.isChain_append] at even
        refine (even.2.2 lineEnd ?_ first rfl ?_ (blank first (by simp [opens]))).trans verbatim
        · simp [SourceLine.placed, closes]
        · exact Token.isBlank_iff.mpr (.inr isEnd)
      exact ⟨previous, by simp, by simp [closes, behind]⟩

end Layout

namespace Document

open Layout

variable {source : Text} {table : Catcode.Table} {commands : CommandTable} {fileId : FileId}
  {document : Document}

/-- The lines of a layout are written as the lines of the source tell, one by one. -/
theorem lines_mirror (parsed : parse source table commands fileId = .ok document)
    (options : Options) :
    List.Forall₂ (Line.Mirrors options document) (lines options document)
      document.sourceLines := by
  obtain ⟨distinct, own⟩ := distinct_of_parse parsed
  have stand : List.Forall₂ (Item.Stands options document) _ _ := items_stand own distinct
  have relate := linesFrom_relate (fun found => found.token)
    (Item.matches_of_stand stand (items_keyed own distinct))
  exact relate.imp fun _ _ found => found.mirrors

/-- **Lines behind lines.** -/
theorem follows_of_parse (parsed : parse source table commands fileId = .ok document)
    (options : Options) {before after : List SourceLine} {line : SourceLine}
    (split : document.sourceLines = before ++ line :: after) :
    line.Follows options document before := by
  obtain ⟨distinct, own⟩ := distinct_of_parse parsed
  obtain ⟨even, starts⟩ := even_of_parse parsed options
  have stand : List.Forall₂ (Item.Stands options document) _ _ := items_stand own distinct
  refine SourceLine.follows (even.tokens stand) (fun first opens => ?_) split
  generalize nodeItems options 0 none document.root = items at stand starts
  generalize document.root.placed = tokens at stand opens
  cases stand with
  | nil => cases opens
  | cons matched _ =>
    cases opens
    rw [← matched.verbatim]
    exact starts.verbatim _ rfl

end Document

end TexSource
