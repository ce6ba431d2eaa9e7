import TexSource.Text.Glyph

/-!
# White space

The characters that count as white space at the ends of a name, a number or a
comment, and the removal of such characters from the ends of a text.
-/

namespace TexSource

/-- White space in the sense of the Unicode property, with the four information
separators U+001C to U+001F. -/
def Glyph.isBlank (glyph : Glyph) : Bool :=
  let code := glyph.code
  (0x09 ≤ code && code ≤ 0x0D) || (0x1C ≤ code && code ≤ 0x20) || code == 0x85 || code == 0xA0 ||
    code == 0x1680 || (0x2000 ≤ code && code ≤ 0x200A) || code == 0x2028 || code == 0x2029 ||
    code == 0x202F || code == 0x205F || code == 0x3000

namespace Text

/-- A text without white space at its start. -/
def stripStart (text : Text) : Text :=
  text.dropWhile Glyph.isBlank

/-- The text without the trailing glyphs that satisfy a test. -/
def dropWhileEnd (test : Glyph → Bool) (text : Text) : Text :=
  (text.reverse.dropWhile test).reverse

/-- A text without white space at its end. -/
def stripEnd (text : Text) : Text :=
  text.dropWhileEnd Glyph.isBlank

/-- A text without white space at its ends. -/
def strip (text : Text) : Text :=
  text.stripStart.stripEnd

end Text

end TexSource
