import TexSource.Text.Quoted

/-!
# Digits

Decimal digits of all scripts and the other characters with a digit value, such
as superscript and circled digits. A number is read from decimal digits only.
-/

namespace TexSource

namespace Unicode

/-- The zeros of the decimal digit systems; the digits one to nine follow each
zero directly. -/
def decimalZeros : List Nat := [
  0x30, 0x660, 0x6F0, 0x7C0, 0x966, 0x9E6, 0xA66, 0xAE6, 0xB66, 0xBE6, 0xC66, 0xCE6, 0xD66,
  0xDE6, 0xE50, 0xED0, 0xF20, 0x1040, 0x1090, 0x17E0, 0x1810, 0x1946, 0x19D0, 0x1A80, 0x1A90,
  0x1B50, 0x1BB0, 0x1C40, 0x1C50, 0xA620, 0xA8D0, 0xA900, 0xA9D0, 0xA9F0, 0xAA50, 0xABF0, 0xFF10,
  0x104A0, 0x10D30, 0x11066, 0x110F0, 0x11136, 0x111D0, 0x112F0, 0x11450, 0x114D0, 0x11650,
  0x116C0, 0x11730, 0x118E0, 0x11950, 0x11C50, 0x11D50, 0x11DA0, 0x16A60, 0x16AC0, 0x16B50,
  0x1D7CE, 0x1D7D8, 0x1D7E2, 0x1D7EC, 0x1D7F6, 0x1E140, 0x1E2F0, 0x1E950, 0x1FBF0]

/-- Ranges of the characters that are digits but do not belong to a decimal system. -/
def otherDigits : List (Nat × Nat) := [
  (0xB2, 0xB3), (0xB9, 0xB9), (0x1369, 0x1371), (0x19DA, 0x19DA), (0x2070, 0x2070),
  (0x2074, 0x2079), (0x2080, 0x2089), (0x2460, 0x2468), (0x2474, 0x247C), (0x2488, 0x2490),
  (0x24EA, 0x24EA), (0x24F5, 0x24FD), (0x24FF, 0x24FF), (0x2776, 0x277E), (0x2780, 0x2788),
  (0x278A, 0x2792), (0x10A40, 0x10A43), (0x10E60, 0x10E68), (0x11052, 0x1105A),
  (0x1F100, 0x1F10A)]

end Unicode

namespace Glyph

/-- The value of a decimal digit of any script. -/
def decimalValue? (glyph : Glyph) : Option Nat :=
  (Unicode.decimalZeros.find? fun first => first ≤ glyph.code && glyph.code ≤ first + 9).map
    (glyph.code - ·)

/-- Whether a glyph is a digit, in a decimal system or not. -/
def isDigit (glyph : Glyph) : Bool :=
  glyph.decimalValue?.isSome ||
    Unicode.otherDigits.any fun (first, last) => first ≤ glyph.code && glyph.code ≤ last

/-- The value of one of the ten ASCII digits. -/
def asciiDigit? : Glyph → Option Nat
  | char character => if character.isDigit then some (character.toNat - 48) else none
  | byte _ => none

end Glyph

/-- The number that a sequence of digit values spells in base ten. -/
def decimalNumber (digits : List Nat) : Nat :=
  digits.foldl (fun number digit => number * 10 + digit) 0

/-- The longest run of digits that is converted to a number. -/
def maxNumberDigits : Nat := 4300

/-- The ways in which a number cannot be read from digits or written in digits. -/
inductive NumberError where
  | tooLong (digits : Nat)
  | notDecimal (text : Text)
  | tooLongToWrite
deriving DecidableEq, Repr

/-- The message that describes why a number cannot be read. -/
def NumberError.message : NumberError → Text
  | tooLong digits => limitExceeded (": value has " ++ Text.ofNat digits ++ " digits")
  | notDecimal text => "invalid literal for int() with base 10: " ++ text.quoted.take 200
  | tooLongToWrite => limitExceeded []
where
  /-- The wording for too many digits, with a remark on their number. -/
  limitExceeded (remark : Text) : Text :=
    "Exceeds the limit (" ++ Text.ofNat maxNumberDigits ++
      " digits) for integer string conversion" ++ remark ++
      "; use sys.set_int_max_str_digits() to increase the limit"

/-- The number spelt by a text of digits. The run before the first character that
is no decimal digit is measured before that character is refused. -/
def readNumber (text : Text) : Except NumberError Nat :=
  let digits := (text.map Glyph.decimalValue?).takeWhile Option.isSome
  if maxNumberDigits < digits.length then .error (.tooLong digits.length)
  else if digits.length < text.length then .error (.notDecimal text)
  else .ok (decimalNumber (digits.filterMap id))

end TexSource
