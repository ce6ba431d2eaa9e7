import TexSource.Proofs.Highlight.Marks
import TexSource.Proofs.Highlight.Stretches

/-!
# The category of every token

In a parsed document the bytes of every token have the strongest category that applies to it
(`Document.highlight_precedence`), save in the names of environments: there a comment, a formula and
a node with a report are taken for parts of the name (`Document.not_prevails_commentedName`).
-/

namespace TexSource

/-- Whether a node is a formula. -/
def Node.isFormula : Node → Bool
  | .math _ _ _ _ _ _ => true
  | _ => false

namespace Document

open Highlight

variable {source : Text} {table : Catcode.Table} {commands : CommandTable} {fileId : FileId}
  {document : Document} {placed : Placed} {category : Category}

/-- The categories that apply to a token of a document. -/
def Applies (document : Document) (placed : Placed) (category : Category) : Prop :=
  Highlight.Applies placed.token (Granted document.reported placed document.walk) category

/-- The categories that apply to a token of a document as far as marking sees them: what stands in
the name of an environment is a part of the name, whatever it is else. -/
def AppliesOutside (document : Document) (placed : Placed) (category : Category) : Prop :=
  Shows placed.token (Granted document.reported placed document.root.visited) category

/-- A token in the name of an environment is overlooked if it is a comment, or lies there in a
formula or under a node with a report. -/
def Overlooked (document : Document) (placed : Placed) : Prop :=
  ∃ around ∈ document.walk, placed ∈ placedAll around.nameContent ∧
    (placed.token.isComment = true ∨ ∃ node ∈ walkAll around.nameContent, placed ∈ node.placed ∧
      (node.isFormula = true ∨ node.id ∈ document.reported))

/-- What applies outside of the names of environments applies. -/
theorem applies_of_appliesOutside (outside : document.AppliesOutside placed category) :
    document.Applies placed category := by
  rcases outside.1 with text | comment | invalid | ⟨node, visited, grants⟩
  · exact .inl text
  · exact .inr (.inl comment)
  · exact .inr (.inr (.inl invalid))
  · exact .inr (.inr (.inr ⟨node, document.root.visited_sublist_walk.subset visited, grants⟩))

/-- In the name of an environment the name applies. -/
theorem appliesOutside_name {around : Node} (visited : around ∈ document.root.visited)
    (named : placed ∈ placedAll around.nameContent) :
    document.AppliesOutside placed .environmentName :=
  ⟨.inr (.inr (.inr ⟨around, visited, .inr (.environmentName named)⟩)), nofun⟩

/-- What applies to a token that is not overlooked applies outside of the names of environments, or
is no stronger than such a name, in which the token stands. -/
theorem appliesOutside_or_named (seen : ¬ document.Overlooked placed)
    (applies : document.Applies placed category) :
    document.AppliesOutside placed category ∨
      (document.AppliesOutside placed .environmentName ∧
        category.rank ≤ Category.environmentName.rank) := by
  have walked := document.root.visited_sublist_walk.subset
  rcases applies with rfl | ⟨rfl, comment⟩ | ⟨rfl, invalid⟩ | ⟨node, member, grants⟩
  · exact .inl ⟨.inl rfl, nofun⟩
  · refine .inl ⟨.inr (.inl ⟨rfl, comment⟩), fun _ ⟨around, visited, grants⟩ => ?_⟩
    rcases grants with ⟨other, _⟩ | ⟨⟩ | named
    · cases other
    · exact seen ⟨around, walked visited, named, .inl comment⟩
  · exact .inl ⟨.inr (.inr (.inl ⟨rfl, invalid⟩)), nofun⟩
  · rcases document.root.reaches node member with visited | ⟨around, visited, inside⟩
    · refine .inl ⟨.inr (.inr (.inr ⟨node, visited, grants⟩)), ?_⟩
      rintro rfl
      rcases grants with ⟨other, _⟩ | gives
      · cases other
      · cases gives
    · have named := placed_subset_placedAll inside grants.mem
      refine .inr ⟨appliesOutside_name visited named, ?_⟩
      rcases grants with ⟨rfl, failing, under⟩ | gives
      · exact (seen ⟨around, walked visited, named, .inr ⟨node, inside, under, .inr failing⟩⟩).elim
      · cases gives with
        | math under =>
          exact (seen ⟨around, walked visited, named, .inr ⟨_, inside, under, .inl rfl⟩⟩).elim
        | environmentName => exact Nat.le_refl _
        | commandName => exact Nat.le_refl _
        | argument => exact Nat.le_succ _

/-- What prevails outside of the names of environments prevails among all that applies to a token,
unless the token is overlooked. -/
theorem prevails_of_outside (seen : ¬ document.Overlooked placed)
    (prevails : Prevails (document.AppliesOutside placed) category) :
    Prevails (document.Applies placed) category where
  holds := applies_of_appliesOutside prevails.holds
  strongest other applies := by
    rcases appliesOutside_or_named seen applies with outside | ⟨named, weaker⟩
    · exact prevails.strongest other outside
    · exact Nat.le_trans weaker (prevails.strongest _ named)
  enclosing applies := by
    rcases appliesOutside_or_named seen applies with named | ⟨named, _⟩
    · exact prevails.enclosing named
    · exact prevails.enclosing named

/-- The nodes of a parsed document are formed, and its tree has every token once. -/
theorem formed_of_parse (parsed : parse source table commands fileId = .ok document) :
    (∀ node ∈ document.walk, node.Formed) ∧ document.root.placed.Nodup := by
  obtain ⟨tokens, reports, diagnostics, read, rfl⟩ := Expansion.document_of_parse parsed
  obtain ⟨children, others, derived⟩ := derived_ofTokens tokens source fileId commands
  have distinct := List.Pairwise.of_map Placed.index
    (fun _ _ apart same => apart (congrArg Placed.index same)) derived.indices
  exact ⟨formed_ofTokens tokens source fileId commands, distinct⟩

/-- **Highlight precedence.** In every parsed document the bytes of a token have the strongest of
the categories that apply to it, where the name of an environment goes before the commands in it;
but comments, formulas and nodes with reports in the name of an environment do not count. -/
theorem highlight_precedence (parsed : parse source table commands fileId = .ok document) :
    ∀ placed ∈ document.root.placed,
      ∃ stretch ∈ document.highlight, stretch.Covers placed.token.span ∧
        Prevails (document.AppliesOutside placed) stretch.category ∧
        (¬ document.Overlooked placed → Prevails (document.Applies placed) stretch.category) := by
  intro placed under
  have own := (apart_of_parse parsed).2 placed.token (List.mem_map_of_mem under)
  obtain ⟨formed, distinct⟩ := formed_of_parse parsed
  obtain ⟨category, marked, prevails⟩ :=
    marked_node document.reported own .text document.root formed distinct under
  obtain ⟨stretch, listed, covers, same⟩ := liesIn_highlight parsed _ marked
  have prevails : Prevails (document.AppliesOutside placed) stretch.category := by
    rw [same, Category.text_stronger]
    exact prevails
  exact ⟨stretch, listed, covers, prevails, fun seen => prevails_of_outside seen prevails⟩

/-- A formula in an argument, with a comment and a brace too many. -/
def highlightedSource : Text := "\\a\x7b$b$\x7d% c\n\x7d"

theorem highlight_precedence_highlightedSource :
    ∃ document, parse highlightedSource .standard .standard 0 = .ok document ∧
      ∀ placed ∈ document.root.placed,
        ∃ stretch ∈ document.highlight, stretch.Covers placed.token.span ∧
          Prevails (document.AppliesOutside placed) stretch.category ∧
          (¬ document.Overlooked placed →
            Prevails (document.Applies placed) stretch.category) := by
  have read : (parse highlightedSource .standard .standard 0).toOption.any (fun _ => true) = true :=
    by decide +kernel
  obtain ⟨document, parsed, -⟩ := exists_parse_of_any read
  exact ⟨document, parsed, highlight_precedence parsed⟩

/-- An environment with a comment in its name. -/
def commentedName : Text := "\\begin\x7ba%b\n\x7d\\end\x7ba%b\n\x7d"

/-- The comment in a name has the category of the name. -/
theorem not_prevails_commentedName :
    ∃ document, parse commentedName .standard .standard 0 = .ok document ∧
      ∃ placed ∈ document.root.placed, document.Applies placed .comment ∧
        ∀ stretch ∈ document.highlight, stretch.Covers placed.token.span →
          ¬ Prevails (document.Applies placed) stretch.category := by
  have checked : (parse commentedName .standard .standard 0).toOption.any (fun document =>
      let covered := cover document.fileId [] Position.start
        (markNode document.fileId document.reported .text document.root)
      (!decide (covered.2.offset < document.size) : Bool) &&
        document.root.placed.any fun placed => placed.token.isComment &&
          covered.1.all fun stretch => !decide (stretch.Covers placed.token.span) ||
            decide (stretch.category = .environmentName)) = true := by decide +kernel
  obtain ⟨document, parsed, checked⟩ := exists_parse_of_any checked
  obtain ⟨complete, found⟩ := Bool.and_eq_true_iff.mp checked
  obtain ⟨placed, under, shown⟩ := List.any_eq_true.mp found
  rw [Bool.and_eq_true, List.all_eq_true] at shown
  obtain ⟨comment, shown⟩ := shown
  have applies : document.Applies placed .comment := .inr (.inl ⟨rfl, comment⟩)
  refine ⟨document, parsed, placed, under, applies, fun stretch listed covers prevails => ?_⟩
  rw [highlight, marks_of_parse parsed] at listed
  dsimp only at listed
  rw [if_neg (by simpa using complete), List.mem_reverse] at listed
  have named : stretch.category = .environmentName := by
    simpa [covers] using shown stretch listed
  have weaker := prevails.strongest .comment applies
  rw [named] at weaker
  exact absurd weaker (by decide)

end Document

end TexSource
