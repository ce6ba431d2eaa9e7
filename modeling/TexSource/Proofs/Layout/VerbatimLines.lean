import TexSource.Proofs.Layout
import TexSource.Proofs.Layout.Standing

/-!
# Verbatim lines

The lines of a source that lie within the body of a verbatim environment stand together
(`Layout.exists_within`). All items of such a line are verbatim, so it is written as it is, and
behind one that is written no blank line is called for (`Layout.Page.text_addAll_raw`): the lines
come out one behind the other (`Document.format_verbatim`).
-/

namespace TexSource

namespace Layout

namespace SourceLine

/-- The text of a line without its line end. -/
def text (line : SourceLine) : Text :=
  line.content.flatMap (·.token.raw)

/-- All tokens of a line, its line end among them, are among given ones. -/
def Within (tokens : List Placed) (line : SourceLine) : Prop :=
  line.placed ⊆ tokens

instance (tokens : List Placed) (line : SourceLine) : Decidable (line.Within tokens) :=
  inferInstanceAs (Decidable (line.placed ⊆ tokens))

end SourceLine

/-- Where a token stands: before tokens that stand together, among them or behind them. -/
def side (front inner : List Placed) (placed : Placed) : Nat :=
  if placed ∈ front then 0 else if placed ∈ inner then 1 else 2

theorem pairwise_side {front inner back : List Placed}
    (distinct : (front ++ inner ++ back).Nodup) :
    (front ++ inner ++ back).Pairwise fun placed next =>
      side front inner placed ≤ side front inner next := by
  obtain ⟨distinct, -, apart⟩ := List.nodup_append'.mp distinct
  obtain ⟨-, -, ahead⟩ := List.nodup_append'.mp distinct
  have first : ∀ placed ∈ front, side front inner placed = 0 := fun placed member => if_pos member
  have second : ∀ placed ∈ inner, side front inner placed = 1 := fun placed member => by
    rw [side, if_neg fun other => ahead other member, if_pos member]
  have third : ∀ placed ∈ back, side front inner placed = 2 := fun placed member => by
    rw [side, if_neg fun other => apart (List.mem_append_left _ other) member,
      if_neg fun other => apart (List.mem_append_right _ other) member]
  rw [List.pairwise_append, List.pairwise_append]
  refine ⟨⟨?_, ?_, ?_⟩, ?_, ?_⟩
  · exact List.pairwise_of_forall_mem_list fun placed member _ _ => by simp [first placed member]
  · exact List.pairwise_of_forall_mem_list fun placed member next later => by
      simp [second placed member, second next later]
  · exact fun placed member _ _ => by simp [first placed member]
  · exact List.pairwise_of_forall_mem_list fun placed member next later => by
      simp [third placed member, third next later]
  · intro placed member next later
    rw [third next later]
    unfold side
    split <;> (try split) <;> simp

theorem mem_of_side {front inner : List Placed} {placed : Placed}
    (among : side front inner placed = 1) : placed ∈ inner := by
  unfold side at among
  split at among
  · cases among
  · split at among
    · assumption
    · cases among

/-- Lines within tokens that stand together stand together. -/
theorem exists_within {lines : List SourceLine} {inner : List Placed}
    (filled : ∀ line ∈ lines, line.placed ≠ [])
    (distinct : (lines.flatMap SourceLine.placed).Nodup)
    (together : inner <:+: lines.flatMap SourceLine.placed) :
    ∃ before after, lines = before ++ lines.filter (·.Within inner) ++ after ∧
      ∀ line ∈ before, ¬ line.Within inner := by
  obtain ⟨front, back, whole⟩ := together
  rw [← whole] at distinct
  have sides (placed : Placed) (member : placed ∈ inner) : side front inner placed = 1 := by
    have apart := (List.nodup_append'.mp (List.nodup_append'.mp distinct).1).2.2
    rw [side, if_neg fun other => apart other member, if_pos member]
  have ordered := pairwise_side distinct
  rw [whole, List.pairwise_flatMap] at ordered
  replace ordered := ordered.2
  clear whole distinct
  induction lines with
  | nil => exact ⟨[], [], rfl, List.forall_mem_nil _⟩
  | cons line rest ih =>
    rw [List.forall_mem_cons] at filled
    rw [List.pairwise_cons] at ordered
    obtain ⟨before, after, split, outside⟩ := ih filled.2 ordered.2
    by_cases within : line.Within inner
    · rw [List.filter_cons_of_pos (by simpa using within)]
      refine ⟨[], ?_⟩
      cases kept : rest.filter (·.Within inner) with
      | nil => exact ⟨rest, rfl, List.forall_mem_nil _⟩
      | cons last others =>
        rw [kept] at split
        cases before with
        | nil => exact ⟨after, by rw [split]; rfl, List.forall_mem_nil _⟩
        | cons other before =>
          -- a line between two lines within is within as well
          refine absurd (fun placed member => ?_) (outside other List.mem_cons_self)
          have inside : last.Within inner := by
            have listed : last ∈ rest.filter (·.Within inner) := by simp [kept]
            simpa using (List.mem_filter.mp listed).2
          have present : other ∈ rest ∧ last ∈ rest := by simp [split]
          obtain ⟨first, opens⟩ := List.exists_mem_of_ne_nil _ filled.1
          obtain ⟨next, closes⟩ := List.exists_mem_of_ne_nil _ (filled.2 last present.2)
          have lower := ordered.1 other present.1 first opens placed member
          rw [split] at ordered
          have upper := (List.pairwise_cons.mp ordered.2).1 last (by simp) placed member next closes
          rw [sides first (within opens)] at lower
          rw [sides next (inside closes)] at upper
          exact mem_of_side (Nat.le_antisymm upper lower)
    · rw [List.filter_cons_of_neg (by simpa using within)]
      exact ⟨line :: before, after, by rw [List.cons_append, List.cons_append, ← split],
        List.forall_mem_cons.mpr ⟨within, outside⟩⟩

section

variable {options : Options} {document : Document} {line : Line} {source : SourceLine}

/-- The items of verbatim tokens are verbatim. -/
theorem Item.Stands.verbatim_of_mem {items : List Item} {tokens : List Placed}
    (stand : List.Forall₂ (Item.Stands options document) items tokens)
    (kept : ∀ placed ∈ tokens, isVerbatim options document placed = true) :
    ∀ item ∈ items, item.verbatim = true := by
  induction stand with
  | nil => exact List.forall_mem_nil _
  | cons first _ ih =>
    rw [List.forall_mem_cons] at kept ⊢
    exact ⟨first.verbatim.trans kept.1, ih kept.2⟩

theorem Item.Stands.flatMap_raw {items : List Item} {tokens : List Placed}
    (stand : List.Forall₂ (Item.Stands options document) items tokens) :
    items.flatMap (·.token.raw) = tokens.flatMap (·.token.raw) := by
  induction stand with
  | nil => rfl
  | cons first _ ih => rw [List.flatMap_cons, List.flatMap_cons, first.token, ih]

/-- A line of verbatim tokens alone is raw. -/
theorem Line.Stands.isRaw (stands : line.Stands options document source)
    (kept : ∀ placed ∈ source.placed, isVerbatim options document placed = true)
    (filled : source.placed ≠ []) : line.isRaw = true := by
  have whole : List.Forall₂ (Item.Stands options document) (line.items ++ line.lineEnd.toList)
      source.placed := List.rel_append stands.items stands.lineEnd
  have verbatim := Item.Stands.verbatim_of_mem whole kept
  unfold Line.isRaw
  cases found : line.first? with
  | some first => exact verbatim first (List.mem_append_left _ (List.mem_of_find?_eq_some found))
  | none =>
    obtain ⟨item, listed⟩ := List.exists_mem_of_ne_nil (line.items ++ line.lineEnd.toList)
      fun none => filled (List.forall₂_nil_left_iff.mp (none ▸ whole))
    have holds := verbatim item listed
    simp only [Bool.or_eq_true, List.any_eq_true, Option.any_eq_true]
    rcases List.mem_append.mp listed with inside | last
    · exact .inl ⟨item, inside, holds⟩
    · exact .inr ⟨item, Option.mem_toList.mp last, holds⟩

theorem Line.Stands.rawText (stands : line.Stands options document source) :
    line.rawText = source.text :=
  Item.Stands.flatMap_raw stands.items

/-- Lines of verbatim tokens alone are raw, with the text that they have in the source. -/
theorem Line.Stands.raw_of_mem {lines : List Line} {sources : List SourceLine}
    (stand : List.Forall₂ (Line.Stands options document) lines sources)
    (kept : ∀ source ∈ sources, source.placed ≠ [] ∧
      ∀ placed ∈ source.placed, isVerbatim options document placed = true) :
    (∀ line ∈ lines, line.isRaw = true) ∧
      (lines.flatMap fun line => line.rawText ++ [.char '\n']) =
        sources.flatMap fun source => source.text ++ [.char '\n'] := by
  induction stand with
  | nil => exact ⟨List.forall_mem_nil _, rfl⟩
  | cons first _ ih =>
    rw [List.forall_mem_cons] at kept
    obtain ⟨raw, same⟩ := ih kept.2
    refine ⟨List.forall_mem_cons.mpr ⟨first.isRaw kept.1.2 kept.1.1, raw⟩, ?_⟩
    rw [List.flatMap_cons, List.flatMap_cons, same, first.rawText]

end

namespace Page

variable (options : Options)

/-- More lines are written behind those on a page. -/
theorem text_addAll (page : Page) (lines : List Line) :
    ∃ more, (lines.foldl (Page.add options) page).text = page.text ++ more := by
  induction lines generalizing page with
  | nil => exact ⟨[], (List.append_nil _).symm⟩
  | cons line rest ih =>
    obtain ⟨later, written⟩ := ih (page.add options line)
    rw [List.foldl_cons, written]
    obtain ⟨same, -⟩ | ⟨blank, text, added, -⟩ := page.add_cases options line
    · exact ⟨later, by rw [same]⟩
    · exact ⟨_, by rw [added, List.append_assoc]⟩

/-- Raw lines are written one behind the other, as they are. -/
theorem text_addAll_raw {page : Page} {lines : List Line} (none : page.pendingBlank = false)
    (raw : ∀ line ∈ lines, line.isRaw = true) :
    (lines.foldl (Page.add options) page).text =
      page.text ++ lines.flatMap fun line => line.rawText ++ [.char '\n'] := by
  induction lines generalizing page with
  | nil => simp
  | cons line rest ih =>
    rw [List.forall_mem_cons] at raw
    rw [List.foldl_cons, add, if_pos raw.1, ih rfl raw.2, text_write, none]
    simp

/-- A page ends in a line end if anything is written on it. -/
theorem text_eq_nil_or (page : Page) : page.text = [] ∨ page.text.getLast? = some (.char '\n') := by
  unfold text
  cases page.written with
  | nil => exact .inl rfl
  | cons last earlier => exact .inr (by simp)

/-- Raw lines are written one behind the other among others, too. -/
theorem exists_text_raw (page : Page) (first last : List Line) {middle : List Line}
    (raw : ∀ line ∈ middle, line.isRaw = true) :
    ∃ front back, ((first ++ middle ++ last).foldl (Page.add options) page).text =
        front ++ (middle.flatMap fun line => line.rawText ++ [.char '\n']) ++ back ∧
      (front = [] ∨ front.getLast? = some (.char '\n')) := by
  rw [List.foldl_append, List.foldl_append]
  generalize first.foldl (Page.add options) page = page
  obtain ⟨back, whole⟩ := text_addAll options (middle.foldl (Page.add options) page) last
  cases middle with
  | nil => exact ⟨page.text, back, by rw [whole]; simp, page.text_eq_nil_or⟩
  | cons line rest =>
    rw [List.forall_mem_cons] at raw
    refine ⟨page.text ++ if page.pendingBlank then [.char '\n'] else [], back, ?_, ?_⟩
    · rw [whole, List.foldl_cons, add, if_pos raw.1, text_addAll_raw options rfl raw.2, text_write]
      simp
    · cases page.pendingBlank with
      | true => exact .inr (by simp)
      | false => simpa using page.text_eq_nil_or

end Page

end Layout

namespace Document

open Layout

variable {source : Text} {table : Catcode.Table} {commands : CommandTable} {fileId : FileId}
  {document : Document}

/-- **Verbatim lines.** However a source is parsed and laid out, the lines within the body of a
verbatim environment stand together, and they are written one behind the other as they are, each
with a single line feed for its line end. What is written before them ends in a line feed. -/
theorem format_verbatim (parsed : parse source table commands fileId = .ok document)
    (options : Options) {id : NodeId} {name : Text} {opening : Command} {body : List Node}
    {ending : Option Command} {matched : Bool} {span : Span}
    (region : .environment id name opening body ending matched span ∈ document.walk)
    (verbatim : name ∈ options.verbatimEnvironments) :
    ∃ before after front back,
      Token.rawText ((document.sourceLines.flatMap SourceLine.placed).map Placed.token) = source ∧
      document.sourceLines =
        before ++ document.sourceLines.filter (·.Within (placedAll body)) ++ after ∧
      document.format options =
        front ++ (document.sourceLines.filter (·.Within (placedAll body))).flatMap
          (fun line => line.text ++ [.char '\n']) ++ back ∧
      (front = [] ∨ front.getLast? = some (.char '\n')) := by
  have filled := placed_ne_nil_of_mem_sourceLines document.root.placed
  have kept : ∀ placed ∈ placedAll body, isVerbatim options document placed = true :=
    fun placed member => List.any_eq_true.mpr ⟨_, region, by simp [keepsVerbatim, verbatim, member]⟩
  have children : placedAll body <:+:
      placedAll (Node.environment id name opening body ending matched span).children :=
    ⟨opening.placed, placedAll (ending.map Node.command).toList, by
      simp [Node.children, Node.placed]⟩
  have together : placedAll body <:+: document.root.placed :=
    (children.trans (Node.placedAll_children_infix _)).trans (Node.placed_infix_of_mem_walk region)
  obtain ⟨distinct, -⟩ := distinct_of_parse parsed
  rw [← flatMap_sourceLines document.root.placed] at distinct together
  obtain ⟨before, after, split, -⟩ := exists_within filled distinct together
  have stand := lines_stand parsed options
  have text := rawText_sourceLines parsed
  rw [sourceLines] at stand text ⊢
  refine ⟨before, after, ?_⟩
  have among (line : SourceLine)
      (member : line ∈ (Layout.sourceLines document.root.placed).filter
        (·.Within (placedAll body))) :
      line ∈ Layout.sourceLines document.root.placed ∧ line.Within (placedAll body) := by
    simpa using member
  generalize (Layout.sourceLines document.root.placed).filter (·.Within (placedAll body)) = within
    at split among ⊢
  rw [split, List.append_assoc] at stand
  -- the lines of the layout are split where those of the source are
  have middle := List.forall₂_take_append _ within after
    (List.forall₂_drop_append _ before (within ++ after) stand)
  obtain ⟨raw, same⟩ := Line.Stands.raw_of_mem middle fun line member =>
    ⟨filled line (among line member).1, fun placed inside =>
      kept placed ((among line member).2 inside)⟩
  obtain ⟨front, back, written, ends⟩ := Page.exists_text_raw options ⟨[], false, none⟩
    ((lines options document).take before.length)
    (((lines options document).drop before.length).drop within.length) raw
  rw [List.append_assoc, List.take_append_drop, List.take_append_drop, same] at written
  exact ⟨front, back, text, split, written, ends⟩

/-- A verbatim environment in another one, with lines that would be blank, a comment and a major
command elsewhere. -/
def centeredVerbatim : Text :=
  "\\begin\x7bcenter\x7d\n\\begin\x7bverbatim\x7d\n\n % a \n\\part\n \n\\end\x7bverbatim\x7d"

/-- The name and the body of an environment. -/
def region? : Node → Option (Text × List Node)
  | .environment _ name _ body _ _ _ => some (name, body)
  | _ => none

theorem format_verbatim_centeredVerbatim :
    ∃ document id opening body ending matched span,
      parse centeredVerbatim .standard .standard 0 = .ok document ∧
      .environment id "verbatim" opening body ending matched span ∈ document.walk ∧
      Text.ofString "verbatim" ∈ Options.standard.verbatimEnvironments ∧
      (document.sourceLines.filter (·.Within (placedAll body))).map SourceLine.text =
        ["", " % a ", "\\part", " "] ∧
      ∃ before after front back,
        Token.rawText ((document.sourceLines.flatMap SourceLine.placed).map Placed.token) =
          centeredVerbatim ∧
        document.sourceLines =
          before ++ document.sourceLines.filter (·.Within (placedAll body)) ++ after ∧
        document.format .standard =
          front ++ (document.sourceLines.filter (·.Within (placedAll body))).flatMap
            (fun line => line.text ++ [.char '\n']) ++ back ∧
        (front = [] ∨ front.getLast? = some (.char '\n')) := by
  obtain ⟨document, parsed, passes⟩ := exists_parse_of_any
    (by decide +kernel :
      (parse centeredVerbatim .standard .standard 0).toOption.any fun document =>
        (document.walk.filterMap region?).any fun region =>
          decide (region.1 = Text.ofString "verbatim" ∧
            (document.sourceLines.filter (·.Within (placedAll region.2))).map SourceLine.text =
              ["", " % a ", "\\part", " "]))
  obtain ⟨_, listed, holds⟩ := List.any_eq_true.mp passes
  obtain ⟨node, region, found⟩ := List.mem_filterMap.mp listed
  cases node with
  | environment id name opening body ending matched span =>
    cases found
    obtain ⟨rfl, lines⟩ := of_decide_eq_true holds
    exact ⟨document, id, opening, body, ending, matched, span, parsed, region, by decide, lines,
      format_verbatim parsed .standard region (by decide)⟩
  | _ => cases found

end Document

end TexSource
