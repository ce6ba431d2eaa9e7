import TexSource.Proofs.Decoding
import TexSource.Source.Span

/-!
# The place of every index of a text

The line, the column and the byte offset before a glyph of a text are a matter of the
whole text and the index of the glyph (`Text.placeAt`): one line more for every line
end before it, one column for every glyph since the last of them, and the bytes that
the glyphs before it stand for. Moving a position over one glyph leads from the place
before the glyph to the place behind it (`Text.placeAt_succ`).
-/

namespace TexSource

namespace Text

/-- Whether a line ends behind the glyph at an index: at a line feed, and at a
carriage return that no line feed follows. The pair of both ends one line. -/
def endsLineAt (source : Text) (index : Nat) : Bool :=
  source[index]? = some (.char '\n') ||
    (source[index]? = some (.char '\r') && source[index + 1]? ≠ some (.char '\n'))

/-- The place before the glyph at an index, or at the end of the text. -/
def placeAt (source : Text) (index : Nat) : Position where
  line := 1 + (List.range index).countP source.endsLineAt
  column := 1 + ((List.range index).reverse.takeWhile fun earlier =>
    !source.endsLineAt earlier).length
  offset := (encode (source.take index)).length

@[simp] theorem placeAt_zero (source : Text) : source.placeAt 0 = Position.start := rfl

/-- The bytes before an index are those of the glyphs before it. -/
theorem offset_placeAt_append (behind ahead : Text) :
    ((behind ++ ahead).placeAt behind.length).offset = (encode behind).length := by
  simp only [placeAt, List.take_left']

/-- **The place behind a glyph.** It is the place before the glyph, moved over it in
view of the glyph that follows. -/
theorem placeAt_succ {source : Text} {index : Nat} {glyph : Glyph}
    (found : source[index]? = some glyph) :
    source.placeAt (index + 1) = (source.placeAt index).advance glyph source[index + 1]? := by
  have ends : source.endsLineAt index =
      decide (glyph = .char '\n' ∨
        (glyph = .char '\r' ∧ source[index + 1]? ≠ some (.char '\n'))) := by
    simp only [endsLineAt, found, Option.some.injEq, Bool.decide_or, Bool.decide_and]
  have taken : source.take (index + 1) = source.take index ++ [glyph] := by
    rw [List.take_add_one, found, Option.toList_some]
  have offset : (encode (source.take (index + 1))).length =
      (encode (source.take index)).length + glyph.byteWidth := by
    rw [taken]
    simp
  by_cases last : glyph = .char '\n' ∨
      (glyph = .char '\r' ∧ source[index + 1]? ≠ some (.char '\n'))
  · have ended : source.endsLineAt index = true := by rw [ends]; exact decide_eq_true last
    simp only [placeAt, Position.advance, List.range_succ, List.countP_append, List.reverse_append,
      List.reverse_cons, List.reverse_nil, List.nil_append, List.cons_append,
      List.takeWhile_cons, ended, offset]
    simp [last, ended]
    omega
  · have within : source.endsLineAt index = false := by rw [ends]; exact decide_eq_false last
    simp only [placeAt, Position.advance, List.range_succ, List.countP_append, List.reverse_append,
      List.reverse_cons, List.reverse_nil, List.nil_append, List.cons_append,
      List.takeWhile_cons, within, offset]
    simp [last, within]
    omega

end Text

end TexSource
