import TexSource.Proofs.Document.Passages
import TexSource.Proofs.Document.Reprinting
import TexSource.Proofs.Document.Respacing
import TexSource.Proofs.Layout.BlankRuns

/-!
# The same items with other blanks

Two sequences of items may differ in their blanks alone (`Layout.Alike`): the others are the same
tokens in the same settings, and between two of them the blanks of both sequences are verbatim, or
none is. Such sequences are put together from parts (`Layout.Continues`), and are parted where
equally much stands before (`Layout.Alike.split`).
-/

namespace TexSource

/-- The same token counts as much. -/
theorem Token.Same.weight_eq {token other : Token} (same : token.Same other) :
    other.weight = token.weight := by
  have kind := same.kind
  have trimmed : ∀ token : Token,
      token.weight = Token.weight { token with kind := token.kind.trimmed } := by
    intro token
    cases kind : token.kind <;> simp [Token.weight, Token.Kind.trimmed, kind, Token.Kind.isBlank]
  rw [trimmed other, trimmed token, Token.weight, Token.weight, kind]

namespace Layout

open TexSource.Parser

/-- Items of the same token that are set alike. -/
structure Item.Alike (item other : Item) : Prop where
  token : item.token.Same other.token
  depth : other.depth = item.depth
  verbatim : other.verbatim = item.verbatim
  key : other.key = item.key
  block : other.block = item.block

/-- Items that are set alike, with other blanks. Between two items the blanks of both sequences are
verbatim, or none of them is. Whether the blanks before the first items are so may be given. -/
inductive Alike : (first : Option Bool) → List Item → List Item → (last : Option Bool) → Prop where
  | nil (first : Option Bool) : Alike first [] [] first
  | item {first last : Option Bool} {item other : Item} {items others : List Item}
      (same : item.Alike other) (later : Alike none items others last) :
      Alike first (item :: items) (other :: others) last
  | left {first last : Option Bool} {blank : Item} {items others : List Item}
      (isBlank : blank.token.isBlank = true)
      (agrees : ∀ verbatim ∈ first, verbatim = blank.verbatim)
      (later : Alike (some blank.verbatim) items others last) :
      Alike first (blank :: items) others last
  | right {first last : Option Bool} {blank : Item} {items others : List Item}
      (isBlank : blank.token.isBlank = true)
      (agrees : ∀ verbatim ∈ first, verbatim = blank.verbatim)
      (later : Alike (some blank.verbatim) items others last) :
      Alike first items (blank :: others) last

namespace Alike

variable {first middle last : Option Bool} {items others : List Item}

theorem append {rest later : List Item} (front : Alike first items others middle)
    (back : Alike middle rest later last) : Alike first (items ++ rest) (others ++ later) last := by
  induction front with
  | nil => exact back
  | item same _ ih => exact .item same (ih back)
  | left isBlank agrees _ ih => exact .left isBlank agrees (ih back)
  | right isBlank agrees _ ih => exact .right isBlank agrees (ih back)

/-- Tokens with other blanks that are all set alike. -/
theorem of_respaced {gaps ends : Option (Gap × Gap)} {tokens later : List Token}
    (respaced : Respaced gaps tokens later ends) (depth : Nat) (verbatim : Bool)
    (block : Option Text) (fits : first = none ∨ first = some verbatim ∨
      tokens.head?.any Token.isBlank = false ∧ later.head?.any Token.isBlank = false) :
    ∃ last, Alike first (tokens.map fun token => { token, depth, verbatim, block })
      (later.map fun token => { token, depth, verbatim, block }) last := by
  induction respaced generalizing first with
  | nil => exact ⟨_, .nil _⟩
  | token _ same _ ih =>
    obtain ⟨last, alike⟩ := ih (.inl (rfl : none = none))
    exact ⟨last, .item ⟨same, rfl, rfl, rfl, rfl⟩ alike⟩
  | left gap _ ih =>
    obtain ⟨last, alike⟩ := ih (.inr (.inl (rfl : some verbatim = _)))
    refine ⟨last, .left gap.blank (fun given present => ?_) alike⟩
    rcases fits with rfl | rfl | ⟨solid, -⟩
    · cases present
    · exact (Option.some.inj present).symm
    · simp [gap.blank] at solid
  | right gap _ ih =>
    obtain ⟨last, alike⟩ := ih (.inr (.inl (rfl : some verbatim = _)))
    refine ⟨last, .right gap.blank (fun given present => ?_) alike⟩
    rcases fits with rfl | rfl | ⟨-, solid⟩
    · cases present
    · exact (Option.some.inj present).symm
    · simp [gap.blank] at solid

/-- Blanks alone, none of them verbatim. -/
theorem of_blanks {blanks later : List Token} (depth : Nat) (block : Option Text)
    (isBlank : ∀ blank ∈ blanks, blank.isBlank = true)
    (also : ∀ blank ∈ later, blank.isBlank = true)
    (fits : first = none ∨ first = some false ∨ blanks = [] ∧ later = []) :
    ∃ last, Alike first (blanks.map fun token => { token, depth, block })
      (later.map fun token => { token, depth, block }) last := by
  induction blanks generalizing first with
  | nil =>
    induction later generalizing first with
    | nil => exact ⟨_, .nil _⟩
    | cons blank rest ih =>
      rw [List.forall_mem_cons] at also
      obtain ⟨last, alike⟩ := ih also.2 (.inr (.inl (rfl : some false = _)))
      refine ⟨last, .right also.1 (fun given present => ?_) alike⟩
      rcases fits with rfl | rfl | ⟨-, nothing⟩
      · cases present
      · exact (Option.some.inj present).symm
      · cases nothing
  | cons blank rest ih =>
    rw [List.forall_mem_cons] at isBlank
    obtain ⟨last, alike⟩ := ih isBlank.2 (.inr (.inl (rfl : some false = _)))
    refine ⟨last, .left isBlank.1 (fun given present => ?_) alike⟩
    rcases fits with rfl | rfl | ⟨nothing, -⟩
    · cases present
    · exact (Option.some.inj present).symm
    · cases nothing

end Alike

/-- Whether the blanks before what is read next are verbatim is not given, or none stand there. -/
def Calm (first : Option Bool) (ahead later : List Token) : Prop :=
  first = none ∨ ahead.head?.any Token.isBlank = false ∧ later.head?.any Token.isBlank = false

/-- Items that are set alike, and what is left of the tokens ahead of them. -/
def Continues (first : Option Bool) (items others : List Item) (after later : List Token) : Prop :=
  ∃ last, Alike first items others last ∧ Calm last after later

namespace Continues

variable {first : Option Bool} {items others : List Item}
  {middle middleLater after later : List Token}

theorem append {rest otherRest : List Item}
    (front : Continues first items others middle middleLater)
    (back : ∀ first, Calm first middle middleLater → Continues first rest otherRest after later) :
    Continues first (items ++ rest) (others ++ otherRest) after later := by
  obtain ⟨between, alike, calm⟩ := front
  obtain ⟨last, behind, rests⟩ := back between calm
  exact ⟨last, alike.append behind, rests⟩

theorem nil (calm : Calm first after later) : Continues first [] [] after later :=
  ⟨first, .nil first, calm⟩

theorem cons {item other : Item} (same : item.Alike other)
    (back : Continues none items others after later) :
    Continues first (item :: items) (other :: others) after later := by
  obtain ⟨last, alike, rests⟩ := back
  exact ⟨last, .item same alike, rests⟩

/-- With the token that is taken behind them. -/
theorem takes (front : Continues first items others middle middleLater)
    (abreast : Abreast middle middleLater) {test : Token → Bool} (discerns : Discerns test)
    {closer otherCloser : Option Placed} (closes : Takes test middle closer after)
    (also : Takes test middleLater otherCloser later) (depth : Nat) (block : Option Text) :
    Abreast after later ∧ Continues first (items ++ delimiterItems depth block closer)
      (others ++ delimiterItems depth block otherCloser) after later := by
  obtain ⟨related, behind⟩ := abreast.takes discerns closes also
  refine ⟨behind, ?_⟩
  cases related with
  | some same =>
    exact front.append fun _ _ => .cons ⟨same, rfl, rfl, rfl, rfl⟩ (.nil (.inl rfl))
  | none =>
    cases closes
    cases also
    exact front.append fun _ calm => .nil calm

/-- Between two tokens, of which the second one may be missing. -/
theorem delimited {opener other : Token} (same : opener.Same other) {depth : Nat}
    {block : Option Text} (inside : Continues none items others middle middleLater)
    (abreast : Abreast middle middleLater) {test : Token → Bool} (discerns : Discerns test)
    {closer otherCloser : Option Placed} (closes : Takes test middle closer after)
    (also : Takes test middleLater otherCloser later) :
    Continues first ({ token := opener, depth, block } :: items ++
      delimiterItems depth block closer) ({ token := other, depth, block } :: others ++
      delimiterItems depth block otherCloser) after later := by
  have opened : Continues first ({ token := opener, depth, block } :: items)
      ({ token := other, depth, block } :: others) middle middleLater :=
    .cons ⟨same, rfl, rfl, rfl, rfl⟩ inside
  exact (opened.takes abreast discerns closes also depth block).2

end Continues

section

variable {options : Options}

theorem nodesItems_leaves {tokens : List Token} {nodes : List Node} (leaves : Leaves tokens nodes)
    (depth : Nat) (block : Option Text) : nodesItems options depth block nodes =
      tokens.map fun token => { token, depth, block } := by
  induction leaves with
  | nil => rfl
  | cons id placed later ih => rw [nodesItems, ih]; rfl

theorem verbatimItems_leaves {tokens : List Token} {nodes : List Node}
    (leaves : Leaves tokens nodes) (depth : Nat) : verbatimItems depth nodes =
      tokens.map fun token => { token, depth, verbatim := true } := by
  induction leaves with
  | nil => rfl
  | cons id placed later ih =>
    simpa [verbatimItems, Node.placed] using ih

end

namespace Alike

variable {first middle last : Option Bool} {items others : List Item} {blank : Item}

theorem symm (alike : Alike first items others last) : Alike first others items last := by
  induction alike with
  | nil => exact .nil _
  | item same _ ih =>
    exact .item ⟨same.token.symm, same.depth.symm, same.verbatim.symm, same.key.symm,
      same.block.symm⟩ ih
  | left isBlank agrees _ ih => exact .right isBlank agrees ih
  | right isBlank agrees _ ih => exact .left isBlank agrees ih

/-- A blank in front of the first items. -/
theorem of_left (alike : Alike first (blank :: items) others last)
    (isBlank : blank.token.isBlank = true) :
    (∀ verbatim ∈ first, verbatim = blank.verbatim) ∧
      Alike (some blank.verbatim) items others last := by
  generalize whole : blank :: items = front at alike
  induction alike with
  | nil => cases whole
  | item same =>
    cases whole
    rw [same.token.first.solid] at isBlank
    cases isBlank
  | left _ agrees later =>
    cases whole
    exact ⟨agrees, later⟩
  | right also agrees _ ih =>
    obtain ⟨equal, later⟩ := ih whole
    have equal := equal _ rfl
    refine ⟨fun verbatim given => (agrees verbatim given).trans equal, .right also ?_ ?_⟩
    · rintro _ ⟨⟩
      exact equal.symm
    · rwa [equal]

/-- A blank in front of the second items. -/
theorem of_right (alike : Alike first items (blank :: others) last)
    (isBlank : blank.token.isBlank = true) :
    (∀ verbatim ∈ first, verbatim = blank.verbatim) ∧
      Alike (some blank.verbatim) items others last := by
  obtain ⟨agrees, later⟩ := alike.symm.of_left isBlank
  exact ⟨agrees, later.symm⟩

/-- Two items in front that are no blanks. -/
theorem of_items {item other : Item} (alike : Alike first (item :: items) (other :: others) last)
    (solid : item.token.isBlank = false) (also : other.token.isBlank = false) :
    item.Alike other ∧ Alike none items others last := by
  cases alike with
  | item same later => exact ⟨same, later⟩
  | left isBlank => simp [solid] at isBlank
  | right isBlank => simp [also] at isBlank

/-- Blanks in front of the second items, where the first ones are not begun. -/
theorem exists_blanks {blanks : List Item} (alike : Alike first items (blanks ++ others) last)
    (isBlank : ∀ blank ∈ blanks, blank.token.isBlank = true) :
    ∃ middle, Alike first [] blanks middle ∧ Alike middle items others last := by
  induction blanks generalizing first with
  | nil => exact ⟨first, .nil _, alike⟩
  | cons blank rest ih =>
    rw [List.forall_mem_cons] at isBlank
    obtain ⟨agrees, alike⟩ := alike.of_right isBlank.1
    obtain ⟨middle, front, back⟩ := ih alike isBlank.2
    exact ⟨middle, .right isBlank.1 agrees front, back⟩

/-- **Parting.** Items that are set alike are parted where equally much stands before. -/
theorem split {front others' : List Item}
    (alike : Alike first (front ++ items) (others' ++ others) last)
    (load : Token.load (others'.map Item.token) = Token.load (front.map Item.token)) :
    ∃ middle, Alike first front others' middle ∧ Alike middle items others last := by
  induction front generalizing first others' with
  | nil =>
    refine alike.exists_blanks fun blank member => ?_
    exact Token.load_eq_zero.mp load blank.token (List.mem_map_of_mem member)
  | cons item front ih =>
    cases blank : item.token.isBlank with
    | true =>
      obtain ⟨agrees, alike⟩ := alike.of_left blank
      rw [List.map_cons, Token.load_cons, Token.weight_of_isBlank blank, Nat.zero_add] at load
      obtain ⟨middle, before, behind⟩ := ih alike load
      exact ⟨middle, .left blank agrees before, behind⟩
    | false =>
      induction others' generalizing first with
      | nil =>
        have heavy := Token.weight_pos blank
        simp only [List.map_nil, Token.load_nil, List.map_cons, Token.load_cons] at load
        omega
      | cons other rest inner =>
        cases also : other.token.isBlank with
        | true =>
          obtain ⟨agrees, alike⟩ := alike.of_right also
          rw [List.map_cons, Token.load_cons, Token.weight_of_isBlank also, Nat.zero_add] at load
          obtain ⟨middle, before, behind⟩ := inner alike load
          exact ⟨middle, .right also agrees before, behind⟩
        | false =>
          obtain ⟨same, alike⟩ := alike.of_items blank also
          rw [List.map_cons, Token.load_cons, List.map_cons, Token.load_cons,
            same.token.weight_eq, Nat.add_left_cancel_iff] at load
          obtain ⟨middle, before, behind⟩ := ih alike load
          exact ⟨middle, .item same before, behind⟩

/-- Blanks in front of items are verbatim as it is given. -/
theorem agrees {verbatim : Bool} {blanks : List Item}
    (alike : Alike (some verbatim) (blanks ++ items) others last)
    (isBlank : ∀ blank ∈ blanks, blank.token.isBlank = true) :
    (∀ blank ∈ blanks, blank.verbatim = verbatim) ∧
      Alike (some verbatim) items others last := by
  induction blanks with
  | nil => exact ⟨List.forall_mem_nil _, alike⟩
  | cons blank rest ih =>
    rw [List.forall_mem_cons] at isBlank
    obtain ⟨equal, behind⟩ := alike.of_left isBlank.1
    obtain rfl := equal _ rfl
    obtain ⟨all, behind⟩ := ih behind isBlank.2
    exact ⟨List.forall_mem_cons.mpr ⟨rfl, all⟩, behind⟩

/-- Behind blanks in front of the first items. -/
theorem of_lefts {blanks : List Item} (alike : Alike first (blanks ++ items) others last)
    (isBlank : ∀ blank ∈ blanks, blank.token.isBlank = true) {blank : Item}
    (ends : blanks.getLast? = some blank) : Alike (some blank.verbatim) items others last := by
  induction blanks generalizing first with
  | nil => cases ends
  | cons front rest ih =>
    rw [List.forall_mem_cons] at isBlank
    obtain ⟨-, alike⟩ := alike.of_left isBlank.1
    cases rest with
    | nil =>
      cases ends
      exact alike
    | cons => exact ih alike isBlank.2 (by simpa using ends)

/-- Blanks in front of both sequences are verbatim together. -/
theorem blanks_agree {blanks front : List Item} {other : Item}
    (alike : Alike first (blanks ++ items) (front ++ other :: others) last)
    (isBlank : ∀ blank ∈ blanks, blank.token.isBlank = true)
    (also : ∀ blank ∈ front, blank.token.isBlank = true) (ends : other.token.isBlank = true) :
    ∀ blank ∈ blanks, other.verbatim = blank.verbatim := by
  cases blanks with
  | nil => exact List.forall_mem_nil _
  | cons blank rest =>
    rw [List.forall_mem_cons] at isBlank
    obtain ⟨-, alike⟩ := alike.of_left isBlank.1
    obtain ⟨same, alike⟩ := alike.agrees isBlank.2
    obtain ⟨-, alike⟩ := alike.symm.agrees also
    have equal := ((alike.of_left ends).1 _ rfl).symm
    exact List.forall_mem_cons.mpr
      ⟨equal, fun later member => equal.trans (same later member).symm⟩

/-- On a line, the first items that are no spaces are set alike. -/
theorem first? (alike : Alike first items others last)
    (inside : ∀ item ∈ items, item.token.isEndOfLine = false)
    (also : ∀ item ∈ others, item.token.isEndOfLine = false) :
    Option.Rel Item.Alike (items.find? fun item => !item.token.isSpace)
      (others.find? fun item => !item.token.isSpace) := by
  have space : ∀ {blank : Item}, blank.token.isBlank = true → blank.token.isEndOfLine = false →
      blank.token.isSpace = true := fun isBlank code =>
    (Token.isBlank_iff.mp isBlank).resolve_right (by simp [code])
  induction alike with
  | nil => exact .none
  | item same =>
    rw [List.find?_cons_of_pos (by simp [Token.isSpace_of_solid same.token.first.solid]),
      List.find?_cons_of_pos (by simp [Token.isSpace_of_solid same.token.second.solid])]
    exact .some same
  | left isBlank _ _ ih =>
    rw [List.forall_mem_cons] at inside
    rw [List.find?_cons_of_neg (by simp [space isBlank inside.1])]
    exact ih inside.2 also
  | right isBlank _ _ ih =>
    rw [List.forall_mem_cons] at also
    rw [List.find?_cons_of_neg (by simp [space isBlank also.1])]
    exact ih inside also.2

end Alike

end Layout

end TexSource
