import TexSource.Text.Printable

/-!
# Quoted texts

A text written between quotes on one line of ASCII-safe output: a backslash, the
quote in use and unprintable glyphs are escaped. The quote is a single one unless
the text holds single quotes and no double ones.
-/

namespace TexSource

namespace Text

/-- The quote that surrounds a text: the double one if the text holds the single one only. -/
def quoteFor (text : Text) : Glyph :=
  if text.contains (.char '\x27') && !text.contains (.char '"') then .char '"' else .char '\x27'

/-- A glyph as it is written between the given quotes. -/
def escaped (quote glyph : Glyph) : Text :=
  if glyph = quote || glyph = .char '\\' then [.char '\\', glyph]
  else if glyph = .char '\n' then "\\n"
  else if glyph = .char '\r' then "\\r"
  else if glyph = .char '\t' then "\\t"
  else if glyph.isPrintable then [glyph]
  else if glyph.code < 0x100 then ofString "\\x" ++ hexadecimal 2 glyph.code
  else if glyph.code < 0x10000 then ofString "\\u" ++ hexadecimal 4 glyph.code
  else ofString "\\U" ++ hexadecimal 8 glyph.code

/-- A text in quotes, with escapes for what cannot stand there. -/
def quoted (text : Text) : Text :=
  let quote := text.quoteFor
  quote :: text.flatMap (escaped quote) ++ [quote]

end Text

end TexSource
