import TexSource.Text.Glyph

/-!
# Lines in the wide sense

Lines as a display counts them: apart from line feed, carriage return and their
pair, several control characters and the two Unicode separators end a line.
-/

namespace TexSource

/-- The glyphs that end a line of a display on their own. -/
def Glyph.isLineBreak (glyph : Glyph) : Bool :=
  let code := glyph.code
  (0x0A ≤ code && code ≤ 0x0D) || (0x1C ≤ code && code ≤ 0x1E) || code == 0x85 ||
    code == 0x2028 || code == 0x2029

/-- The lines of a text, each with its line break. A break at the end of the text
opens no further line. -/
def Text.lines : Text → List Text
  | [] => []
  | .char '\r' :: .char '\n' :: rest => [.char '\r', .char '\n'] :: lines rest
  | glyph :: rest =>
    if glyph.isLineBreak then
      [glyph] :: lines rest
    else
      match lines rest with
      | [] => [[glyph]]
      | line :: others => (glyph :: line) :: others

end TexSource
