import TexSource.Text.Glyph

/-!
# Reading and writing bytes

`Text.decode` reads bytes as UTF-8: a sequence is well formed exactly when it is
the encoding of a character, and every byte outside a well-formed sequence
becomes a placeholder of its own. `Text.encode` writes a text as bytes.
-/

namespace TexSource

/-- The bytes of a glyph. -/
def Glyph.bytes : Glyph → List UInt8
  | .char character => String.utf8EncodeChar character
  | .byte offset => [UInt8.ofNat (0x80 + offset)]

namespace Text

/-- The bytes of a text. -/
def encode (text : Text) : List UInt8 :=
  text.flatMap Glyph.bytes

/-- The payload bits of the sequence that the first byte announces, with zeros
for bytes that are missing. -/
def sequenceBits : List UInt8 → Nat
  | [] => 0
  | first :: rest =>
    let continued (position : Nat) : Nat := ((rest[position]?).getD 0).toNat % 64
    if first < 0x80 then first.toNat
    else if first < 0xE0 then first.toNat % 32 * 64 + continued 0
    else if first < 0xF0 then first.toNat % 16 * 4096 + continued 0 * 64 + continued 1
    else first.toNat % 8 * 262144 + continued 0 * 4096 + continued 1 * 64 + continued 2

/-- The character whose encoding opens the bytes, if there is one. -/
def leadingChar? (bytes : List UInt8) : Option Char :=
  let candidate := Char.ofNat (sequenceBits bytes)
  if (String.utf8EncodeChar candidate).isPrefixOf bytes then some candidate else none

/-- The text that bytes spell, after the glyphs already read (the latest first). -/
def decodeAfter (glyphs : Text) : List UInt8 → Text
  | [] => glyphs.reverse
  | first :: rest =>
    match leadingChar? (first :: rest) with
    | some character =>
      decodeAfter (.char character :: glyphs) (rest.drop (character.utf8Size - 1))
    | none => decodeAfter (.byte (Fin.ofNat 128 first.toNat) :: glyphs) rest
termination_by bytes => bytes.length
decreasing_by
  · simp only [List.length_drop, List.length_cons]
    omega
  · simp only [List.length_cons]
    omega

/-- The text that bytes spell. -/
def decode (bytes : List UInt8) : Text :=
  decodeAfter [] bytes

end Text

end TexSource
