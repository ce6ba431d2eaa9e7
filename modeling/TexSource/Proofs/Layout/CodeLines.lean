import TexSource.Proofs.Layout

/-!
# The text of a code line

A code line starts with its margin and with its first token behind it (`Layout.codeLine_starts`),
and ends with its last token, without blanks behind it (`Layout.codeLine_ends`). All of its glyphs
are those of its tokens, or spaces (`Layout.mem_codeLine`).
-/

namespace TexSource

namespace Token

theorem controlText_prefix (token : Token) : token.controlText <+: token.raw := by
  unfold controlText
  split
  · exact List.take_prefix ..
  · exact List.prefix_rfl

/-- Without the blanks at its end, a sequence of tokens starts with the same text. -/
theorem rawText_trimEnd_prefix (tokens : List Token) :
    rawText (trimEnd tokens) <+: rawText tokens := by
  induction tokens with
  | nil => exact List.prefix_rfl
  | cons token rest ih =>
    rw [trimEnd, rawText_cons]
    split
    · split
      · exact List.nil_prefix
      · simpa using token.controlText_prefix.trans (List.prefix_append _ _)
    · rw [rawText_cons]
      exact (List.prefix_append_right_inj _).mpr ih

end Token

namespace Layout

variable {line : Line}

/-- The last item of a line that is no space. -/
def Line.last? (line : Line) : Option Item :=
  line.items.reverse.find? fun item => !item.token.isSpace

/-- Without the spaces at its ends, a line ends with its last item. -/
theorem Line.getLast?_trimEnd (line : Line) :
    (trimEnd (line.items.dropWhile (·.token.isSpace))).getLast? = line.last? := by
  have spaces : (line.items.takeWhile (·.token.isSpace)).reverse.find? (!·.token.isSpace) = none :=
    List.find?_eq_none.mpr fun item member => by
      have space := List.mem_takeWhile_imp (List.mem_reverse.mp member)
      simpa using space
  have whole : line.items.reverse = (line.items.dropWhile (·.token.isSpace)).reverse ++
      (line.items.takeWhile (·.token.isSpace)).reverse := by
    rw [← List.reverse_append, List.takeWhile_append_dropWhile]
  rw [last?, whole, List.find?_append, spaces, Option.or_none, trimEnd, List.getLast?_reverse,
    List.find?_eq_head?_dropWhile_not]
  simp only [Bool.not_not]

theorem controlText_prefix_textOf (first : Item) (rest : List Item) :
    first.token.controlText <+: textOf (first :: rest) := by
  cases rest with
  | nil => exact List.prefix_rfl
  | cons next later =>
    rw [textOf_cons first (List.cons_ne_nil next later)]
    exact first.token.controlText_prefix.trans (List.prefix_append ..)

/-- **Where code starts.** A code line starts with its margin and its first token. -/
theorem codeLine_starts (indent : Text) {first : Item} (found : line.first? = some first) :
    margin indent first.depth ++ first.token.controlText <+: codeLine indent line := by
  obtain ⟨solid, rest, dropped⟩ := Line.exists_dropSpaces found
  obtain ⟨later, trimmed⟩ := exists_trimEnd solid rest
  unfold codeLine
  rw [dropped, trimmed]
  cases later with
  | nil => exact List.prefix_rfl
  | cons second others =>
    obtain ⟨last, shown⟩ := Option.isSome_iff_exists.mp
      (List.getLast?_isSome.mpr (List.cons_ne_nil first (second :: others)))
    simp only [shown]
    split
    · obtain ⟨before, cut⟩ := exists_trimEnd solid (second :: others).dropLast
      rw [List.dropLast_cons_cons, cut, List.append_assoc, List.append_assoc,
        List.prefix_append_right_inj]
      exact (controlText_prefix_textOf first before).trans (List.prefix_append ..)
    · exact (List.prefix_append_right_inj _).mpr (controlText_prefix_textOf ..)

/-- **Where code ends.** A code line ends with its last token, without the blanks behind a control
word or the white space at the end of a comment. -/
theorem codeLine_ends (indent : Text) {last : Item} (found : line.last? = some last) :
    last.token.controlText <:+ codeLine indent line ∨
      last.token.isComment = true ∧ last.token.raw.stripEnd <:+ codeLine indent line := by
  rw [← line.getLast?_trimEnd] at found
  obtain ⟨before, other, depth, split, isComment, written⟩ | ⟨depth, written⟩ :=
    codeLine_cases indent line
  · rw [split, List.getLast?_append, List.getLast?_singleton, Option.some_or] at found
    obtain rfl := Option.some.inj found
    rw [written]
    exact .inr ⟨isComment, List.suffix_append ..⟩
  · rw [written, textOf, found]
    exact .inl ((List.suffix_append ..).trans (List.suffix_append ..))

/-- The text of items without the blanks at their end consists of glyphs of theirs. -/
theorem mem_textOf_trimEnd {items : List Item} {glyph : Glyph}
    (member : glyph ∈ textOf (trimEnd items)) : ∃ item ∈ items, glyph ∈ item.token.raw := by
  rw [textOf_trimEnd] at member
  have inside := (Token.rawText_trimEnd_prefix _).subset member
  rw [Token.rawText, List.flatMap_map] at inside
  exact List.mem_flatMap.mp inside

/-- The glyphs of a code line are those of its tokens, of the indentation unit, or spaces. -/
theorem mem_codeLine {indent : Text} {glyph : Glyph} (member : glyph ∈ codeLine indent line) :
    glyph ∈ indent ∨ glyph = .char ' ' ∨ ∃ item ∈ line.items, glyph ∈ item.token.raw := by
  have listed : trimEnd (line.items.dropWhile (·.token.isSpace)) ⊆ line.items := by
    obtain ⟨spaces, whole, -⟩ := exists_spaces (line.items.dropWhile (·.token.isSpace))
    intro item inside
    apply (List.dropWhile_sublist (·.token.isSpace)).subset
    rw [whole]
    exact List.mem_append_left _ inside
  obtain ⟨before, last, depth, split, isComment, written⟩ | ⟨depth, written⟩ :=
    codeLine_cases indent line
  · rw [split] at listed
    rw [written, List.mem_append, List.mem_append, List.mem_append] at member
    rcases member with ((member | member) | member) | member
    · exact .inl (mem_margin member)
    · obtain ⟨item, among, inside⟩ := mem_textOf_trimEnd member
      exact .inr (.inr ⟨item, listed (List.mem_append_left _ among), inside⟩)
    · unfold commentGap at member
      split at member
      · exact .inr (.inl (List.eq_of_mem_replicate member))
      · cases member
    · exact .inr (.inr ⟨last, listed (by simp),
        (List.rdropWhile_prefix Glyph.isBlank _).subset member⟩)
  · rw [written] at member
    rcases List.mem_append.mp member with member | member
    · exact .inl (mem_margin member)
    · obtain ⟨item, among, inside⟩ := mem_textOf_trimEnd member
      exact .inr (.inr ⟨item, (List.dropWhile_sublist _).subset among, inside⟩)

end Layout

end TexSource
