/-!
# Glyphs and texts

A source text is a sequence of glyphs: the characters that its bytes spell in
UTF-8, and one placeholder for every byte that belongs to no well-formed
sequence. Columns count glyphs, offsets count the bytes that the glyphs came
from, and a text read from bytes can always be turned back into them.
-/

namespace TexSource

/-- One unit of source text. -/
inductive Glyph where
  | char (character : Char)
  /-- The undecodable byte `0x80 + offset`. -/
  | byte (offset : Fin 128)
deriving DecidableEq, Repr, Inhabited

/-- A text is a list of glyphs. -/
abbrev Text := List Glyph

namespace Glyph

/-- The code point of a glyph. Undecodable bytes are numbered from U+DC80, a
range that no character uses. -/
def code : Glyph → Nat
  | char character => character.toNat
  | byte offset => 0xDC80 + offset

/-- The number of source bytes a glyph stands for. -/
def byteWidth : Glyph → Nat
  | char character => character.utf8Size
  | byte _ => 1

/-- Whether the glyph stands for a byte that spells no character. -/
def isUndecodable : Glyph → Bool
  | char _ => false
  | byte _ => true

/-- A letter in upper case. -/
def toUpper : Glyph → Glyph
  | char character => char character.toUpper
  | byte offset => byte offset

/-- A letter in lower case. -/
def toLower : Glyph → Glyph
  | char character => char character.toLower
  | byte offset => byte offset

end Glyph

namespace Text

/-- The text with the characters of a string. -/
def ofString (content : String) : Text :=
  content.toList.map Glyph.char

instance : Coe String Text := ⟨ofString⟩

/-- The number of source bytes a text stands for. -/
def byteLength (text : Text) : Nat :=
  text.foldr (fun glyph length => glyph.byteWidth + length) 0

/-- A number in decimal digits. -/
def ofNat (number : Nat) : Text :=
  (Nat.toDigits 10 number).map Glyph.char

/-- An integer in decimal digits, with a minus sign when it is negative. -/
def ofInt : Int → Text
  | .ofNat number => ofNat number
  | .negSucc number => .char '-' :: ofNat (number + 1)

/-- A number in lower-case hexadecimal digits, at least `width` of them. -/
def hexadecimal (width number : Nat) : Text :=
  let digits := (Nat.toDigits 16 number).map Glyph.char
  List.replicate (width - digits.length) (Glyph.char '0') ++ digits

/-- The string that a text spells, absent when it holds an undecodable byte. -/
def toString? (text : Text) : Option String :=
  (text.mapM fun glyph : Glyph =>
    match glyph with
    | .char character => some character
    | .byte _ => none).map String.ofList

/-- Texts with a separator between them. -/
def join (separator : Text) : List Text → Text
  | [] => []
  | [text] => text
  | text :: rest => text ++ separator ++ join separator rest

/-- The pieces of a text between separators. -/
def splitAtEach (separator : Glyph) : Text → List Text
  | [] => [[]]
  | glyph :: rest =>
    if glyph = separator then
      [] :: splitAtEach separator rest
    else
      match splitAtEach separator rest with
      | [] => [[glyph]]
      | piece :: pieces => (glyph :: piece) :: pieces

end Text

end TexSource
