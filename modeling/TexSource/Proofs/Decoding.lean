import TexSource.Text.Encoding

/-!
# Decoding loses no byte

Every step of decoding replaces leading bytes by one glyph that stands for exactly
these bytes: a character whose encoding opens the input, or the placeholder of a
byte that opens no encoding. Such a byte is never below `0x80`, since every smaller
byte is the encoding of a character (`Text.isSome_leadingChar?`). Writing the text
read from bytes gives these bytes back (`Text.encode_decode`). A text of characters, in turn, is
read from the bytes that it is written as (`Text.decode_encode`).
-/

namespace TexSource

namespace Text

@[simp] theorem encode_nil : encode [] = [] := rfl

@[simp] theorem encode_cons (glyph : Glyph) (rest : Text) :
    encode (glyph :: rest) = glyph.bytes ++ encode rest := rfl

@[simp] theorem encode_append (text other : Text) :
    encode (text ++ other) = encode text ++ encode other :=
  List.flatMap_append

/-- A glyph stands for as many bytes as its width says. -/
@[simp] theorem length_bytes (glyph : Glyph) : glyph.bytes.length = glyph.byteWidth := by
  cases glyph with
  | char character => exact String.length_utf8EncodeChar character
  | byte offset => rfl

theorem byteWidth_pos (glyph : Glyph) : 0 < glyph.byteWidth := by
  cases glyph with
  | char character => exact character.utf8Size_pos
  | byte offset => exact Nat.one_pos

/-- The encoding of the leading character opens the bytes. -/
theorem utf8EncodeChar_prefix_of_leadingChar? {bytes : List UInt8} {character : Char}
    (found : leadingChar? bytes = some character) :
    String.utf8EncodeChar character <+: bytes := by
  unfold leadingChar? at found
  simp only at found
  split at found
  · rename_i opens
    cases found
    exact List.isPrefixOf_iff_prefix.mp opens
  · cases found

/-- A byte below `0x80` is the encoding of a character. -/
theorem isSome_leadingChar? {first : UInt8} (rest : List UInt8) (small : first < 0x80) :
    (leadingChar? (first :: rest)).isSome := by
  have bound : first.toNat < 128 := UInt8.lt_iff_toNat_lt.mp small
  have valid : first.toNat.isValidChar := .inl (by omega)
  have code : (Char.ofNat first.toNat).val.toNat = first.toNat := by
    rw [Char.ofNat, dif_pos valid]
    rfl
  have encoding : String.utf8EncodeChar (Char.ofNat first.toNat) = [first] := by
    have below : first.toNat ≤ 0x7f := by omega
    simp only [String.utf8EncodeChar, code, below, ↓reduceIte, UInt8.ofNat_toNat]
  have bits : sequenceBits (first :: rest) = first.toNat := by
    simp only [sequenceBits, small, ↓reduceIte]
  simp [leadingChar?, bits, encoding]

/-- The placeholder of a byte that opens no encoding stands for this byte. -/
theorem bytes_byte_of_leadingChar? {first : UInt8} {rest : List UInt8}
    (absent : leadingChar? (first :: rest) = none) :
    (Glyph.byte (Fin.ofNat 128 first.toNat)).bytes = [first] := by
  have large : 128 ≤ first.toNat := by
    rcases Nat.lt_or_ge first.toNat 128 with small | large
    · have opens := isSome_leadingChar? rest (UInt8.lt_iff_toNat_lt.mpr small)
      rw [absent] at opens
      cases opens
    · exact large
  have bound : first.toNat < 256 := first.toNat_lt
  have code : 0x80 + first.toNat % 128 = first.toNat := by omega
  simp only [Glyph.bytes, Fin.ofNat, code, UInt8.ofNat_toNat]

/-- Decoding keeps the bytes of the glyphs already read and of the bytes ahead. -/
theorem encode_decodeAfter (glyphs : Text) (bytes : List UInt8) :
    encode (decodeAfter glyphs bytes) = encode glyphs.reverse ++ bytes := by
  fun_induction decodeAfter glyphs bytes with
  | case1 glyphs => simp
  | case2 glyphs first rest character found ih =>
    obtain ⟨behind, split⟩ := utf8EncodeChar_prefix_of_leadingChar? found
    have drop : rest.drop (character.utf8Size - 1) = behind := by
      have := congrArg (List.drop character.utf8Size) split
      rw [List.drop_left' (String.length_utf8EncodeChar character)] at this
      have positive := character.utf8Size_pos
      rw [this, ← Nat.sub_add_cancel positive, List.drop_succ_cons, Nat.add_sub_cancel]
    rw [ih, drop, ← split]
    simp [Glyph.bytes]
  | case3 glyphs first rest absent ih =>
    rw [ih, List.reverse_cons, encode_append, encode_cons, encode_nil, List.append_nil,
      bytes_byte_of_leadingChar? absent, List.append_assoc]
    rfl

/-- **Decoding loses no byte.** A text read from bytes is written as these bytes. -/
theorem encode_decode (bytes : List UInt8) : encode (decode bytes) = bytes := by
  rw [decode, encode_decodeAfter]
  rfl

/-- The payload bits of the encoding of a character are its code point. -/
theorem sequenceBits_utf8EncodeChar (character : Char) (rest : List UInt8) :
    sequenceBits (String.utf8EncodeChar character ++ rest) = character.toNat := by
  have valid : character.toNat < 0x110000 := by
    rcases character.valid with small | ⟨-, large⟩
    · exact Nat.lt_trans small (by decide)
    · exact large
  have code : character.val.toNat = character.toNat := rfl
  simp only [String.utf8EncodeChar, code]
  repeat' split
  all_goals
    simp only [List.cons_append, List.nil_append, sequenceBits, UInt8.lt_iff_toNat_lt,
      UInt8.toNat_ofNat', UInt8.toNat_ofNat, List.getElem?_cons_zero, List.getElem?_cons_succ,
      Option.getD_some]
    repeat' split
    all_goals omega

/-- The encoding of a character opens with this character. -/
theorem leadingChar?_utf8EncodeChar (character : Char) (rest : List UInt8) :
    leadingChar? (String.utf8EncodeChar character ++ rest) = some character := by
  simp [leadingChar?, sequenceBits_utf8EncodeChar]

/-- Decoding goes on behind the encoding of a character with what stands behind it. -/
theorem decodeAfter_utf8EncodeChar (glyphs : Text) (character : Char) (rest : List UInt8) :
    decodeAfter glyphs (String.utf8EncodeChar character ++ rest) =
      decodeAfter (.char character :: glyphs) rest := by
  have found := leadingChar?_utf8EncodeChar character rest
  have length := String.length_utf8EncodeChar character
  have filled := character.utf8Size_pos
  generalize String.utf8EncodeChar character = bytes at found length
  cases bytes with
  | nil => simp at length; omega
  | cons first tail =>
    have behind : (tail ++ rest).drop (character.utf8Size - 1) = rest :=
      List.drop_left' (by rw [← length]; rfl)
    rw [List.cons_append] at found ⊢
    rw [decodeAfter]
    simp only [found, behind]

/-- A text of characters is read from its encoding. -/
theorem decode_encode {text : Text} (characters : ∀ glyph ∈ text, glyph.isUndecodable = false) :
    decode (encode text) = text := by
  have after (glyphs : Text) : decodeAfter glyphs (encode text) = glyphs.reverse ++ text := by
    induction text generalizing glyphs with
    | nil => rw [encode_nil, decodeAfter, List.append_nil]
    | cons glyph rest ih =>
      obtain ⟨own, later⟩ := List.forall_mem_cons.mp characters
      cases glyph with
      | byte offset => cases own
      | char character =>
        rw [encode_cons, Glyph.bytes, decodeAfter_utf8EncodeChar, ih later, List.reverse_cons,
          List.append_assoc]
        rfl
  exact after []

end Text

end TexSource
